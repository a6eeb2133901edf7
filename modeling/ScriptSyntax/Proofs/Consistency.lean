import ScriptSyntax.Proofs.Acceptance
import ScriptSyntax.Proofs.Scanner.TokenText
import ScriptSyntax.Proofs.Tree.Node

/-!
# Nodes that agree with their tokens

A node keeps the token it was built from, and beside it a name, a value or an operator of its own.  In a
tree that was parsed the two agree at every node, also where something wrong was found on the way: every
token that a reading takes up was found by the scanner, which gives it a text of its kind, and the rules
take names, values and operators from the tokens.

## Main statements

* `Grammar.Reads.consistent`: what is read from tokens with texts of their kinds agrees with them.
* `parse_consistent`: every node of the tree of a source agrees with its token.
-/

namespace ScriptSyntax

open Grammar

namespace Node

/-- What the node says is what its own token says.  An expression statement says nothing of its own. -/
inductive Consistent : Node → Prop where
  | name {id : Identifier} : id.WellFormed → Consistent (.name id)
  | identifier {id : Identifier} : id.WellFormed → Consistent (.expr (.identifier id))
  | integer {t : Token} {value : Int64} :
      t.kind = .integer → t.text ≠ "" → (∀ c ∈ t.text.toList, c.isDigit = true) →
      decimal t < 2 ^ 63 → (decimal t : Int) = value.toInt → Consistent (.expr (.integer t value))
  | string {t : Token} {value : String} :
      t.kind = .string → t.text = value → '"' ∉ value.toList → Consistent (.expr (.string t value))
  | boolean {t : Token} {value : Bool} :
      t.kind = (if value then .trueWord else .falseWord) →
      t.text = (if value then "true" else "false") → Consistent (.expr (.boolean t value))
  | prefixOp {o : Token} {r : Expr} :
      (o.kind, o.text) ∈ prefixOperators → Consistent (.expr (.prefixOp o o.text r))
  | infixOp {o : Token} {l r : Expr} :
      (o.kind, o.text) ∈ infixOperators → Consistent (.expr (.infixOp o o.text l r))
  | conditional {t : Token} {e : Expr} {b : Block} {alt : Option Block} :
      t.kind = .ifWord → t.text = "if" → Consistent (.expr (.conditional t e b alt))
  | function {t : Token} {ids : List Identifier} {b : Block} :
      t.kind = .fnWord → t.text = "fn" → Consistent (.expr (.function t ids b))
  | call {o : Token} {c : Expr} {es : List Expr} :
      o.kind = .leftParen → o.text = "(" → Consistent (.expr (.call o c es))
  | array {o : Token} {es : List Expr} :
      o.kind = .leftBracket → o.text = "[" → Consistent (.expr (.array o es))
  | index {o : Token} {l i : Expr} :
      o.kind = .leftBracket → o.text = "[" → Consistent (.expr (.index o l i))
  | letBinding {t : Token} {id : Identifier} {e : Expr} :
      t.kind = .letWord → t.text = "let" → Consistent (.stmt (.letBinding t id e))
  | return {t : Token} {e? : Option Expr} :
      t.kind = .returnWord → t.text = "return" → Consistent (.stmt (.return t e?))
  | expression {t : Token} {e : Expr} : Consistent (.stmt (.expression t e))
  | block {o : Token} {body : List Stmt} :
      o.kind = .leftBrace → o.text = "\x7b" → Consistent (.block (.mk o body))

/-- The node and all nodes below it are consistent. -/
def ConsistentBelow (a : Node) : Prop := ∀ count b, a.Path count b → b.Consistent

/-- A path is over, or goes on below a child. -/
lemma consistentBelow_of_children {a : Node} (ha : a.Consistent)
    (h : ∀ count b, a.Child count b → b.ConsistentBelow) : a.ConsistentBelow := by
  intro count b hpath
  cases hpath with
  | refl => exact ha
  | cons hchild hrest => exact h _ _ hchild _ _ hrest

lemma ConsistentBelow.consistent {a : Node} (h : a.ConsistentBelow) : a.Consistent := h 0 a .refl

lemma ConsistentBelow.child {a b : Node} {count : Nat} (h : a.ConsistentBelow)
    (hchild : a.Child count b) : b.ConsistentBelow := fun _ c hpath => h _ c (.cons hchild hpath)

/-- There is nothing below a name. -/
lemma consistentBelow_name {id : Identifier} (h : id.WellFormed) : (Node.name id).ConsistentBelow :=
  consistentBelow_of_children (.name h) fun _ _ hchild => by cases hchild

end Node

/-! ## Tokens with texts of their kinds -/

section Tokens

variable {t o x : Token} {e : Expr}

/-- The text of an operator is the one in the table, if the table goes by the texts of operators. -/
lemma mem_of_hasText {table : List (TokenKind × String)}
    (htable : ∀ entry ∈ table, (entry.2.toList, entry.1) ∈ operators)
    (hkind : o.kind ∈ table.map Prod.fst) (h : o.kind.HasText o.text) : (o.kind, o.text) ∈ table := by
  obtain ⟨entry, hentry, hk⟩ := List.mem_map.1 hkind
  have htext := h.eq_of_mem_operators (hk ▸ htable entry hentry)
  rw [String.ofList_toList] at htext
  rwa [← hk, htext]

lemma mem_prefixOperators (hkind : o.kind = .bang ∨ o.kind = .minus)
    (h : o.kind.HasText o.text) : (o.kind, o.text) ∈ prefixOperators :=
  mem_of_hasText (by decide) (by simpa [prefixOperators] using hkind) h

lemma mem_infixOperators (hkind : o.kind ∈ binaryOperators) (h : o.kind.HasText o.text) :
    (o.kind, o.text) ∈ infixOperators :=
  mem_of_hasText (by decide) hkind h

lemma Identifier.wellFormed_of_hasText (hkind : x.kind = .identifier)
    (h : x.kind.HasText x.text) : Identifier.WellFormed ⟨x, x.text⟩ :=
  ⟨hkind, rfl, (hkind ▸ h).isName⟩

/-- A token that is an expression by itself agrees with it. -/
lemma consistent_of_ofToken (he : Expr.ofToken t = .ok e) (h : t.kind.HasText t.text) :
    (Node.expr e).ConsistentBelow := by
  unfold Expr.ofToken at he
  split at he
  · rename_i hk
    cases he
    have hid := Identifier.wellFormed_of_hasText hk h
    refine Node.consistentBelow_of_children (.identifier hid) fun _ _ hchild => ?_
    cases hchild
    exact Node.consistentBelow_name hid
  · rename_i hk
    rw [hk] at h
    simp only at he
    split at he
    · rename_i hlt
      cases he
      obtain ⟨hne, hdigits⟩ := h.isDigit
      exact Node.consistentBelow_of_children
        (.integer hk hne hdigits hlt (Int64.toInt_ofNat_of_lt hlt).symm)
        fun _ _ hchild => by cases hchild
    · cases he
  · rename_i hk
    rw [hk] at h
    cases he
    exact Node.consistentBelow_of_children (.string hk rfl h.quote_not_mem)
      fun _ _ hchild => by cases hchild
  · rename_i hk
    cases he
    exact Node.consistentBelow_of_children (.boolean hk (h.eq_of_mem_reserved (hk ▸ by decide)))
      fun _ _ hchild => by cases hchild
  · rename_i hk
    cases he
    exact Node.consistentBelow_of_children (.boolean hk (h.eq_of_mem_reserved (hk ▸ by decide)))
      fun _ _ hchild => by cases hchild
  · cases he

end Tokens

/-! ## What is read is consistent -/

/-- The nodes of a phrase are consistent.  Operators do not spoil what they are applied to. -/
def Grammar.Phrase.Consistent : Phrase → Prop
  | .expression _ e | .operand e => (Node.expr e).ConsistentBelow
  | .operators _ l e => (Node.expr l).ConsistentBelow → (Node.expr e).ConsistentBelow
  | .items es | .itemsTail es => ∀ e ∈ es, (Node.expr e).ConsistentBelow
  | .names ids | .namesTail ids => ∀ id ∈ ids, id.WellFormed
  | .alternative block? => ∀ b ∈ block?, (Node.block b).ConsistentBelow
  | .block b => (Node.block b).ConsistentBelow
  | .statement s => (Node.stmt s).ConsistentBelow
  | .statements body => ∀ s ∈ body, (Node.stmt s).ConsistentBelow

/-- What is read from tokens with texts of their kinds is consistent. -/
theorem Grammar.Reads.consistent {n : Nat} {phrase : Phrase} {ts : List Token} {next : TokenKind}
    (h : Reads n phrase ts next) (hts : ∀ t ∈ ts, t.kind.HasText t.text) : phrase.Consistent := by
  induction h with
  | expression _ _ ihl ihe =>
    rw [List.forall_mem_append] at hts
    exact ihe hts.2 (ihl hts.1)
  | literal he => exact consistent_of_ofToken he (hts _ List.mem_cons_self)
  | prefixed ho _ ih =>
    rw [List.forall_mem_cons] at hts
    refine Node.consistentBelow_of_children (.prefixOp (mem_prefixOperators ho hts.1))
      fun _ _ hchild => ?_
    cases hchild with
    | operand => exact ih hts.2
  | group _ _ _ ih =>
    simp only [List.forall_mem_cons, List.forall_mem_append] at hts
    exact ih hts.2.1
  | conditional ht _ _ _ _ _ ihe ihb ihalt =>
    simp only [List.forall_mem_cons, List.forall_mem_append] at hts
    obtain ⟨hword, -, he, -, hb, halt⟩ := hts
    refine Node.consistentBelow_of_children
      (.conditional ht (hword.eq_of_mem_reserved (ht ▸ by decide))) fun _ _ hchild => ?_
    cases hchild with
    | condition => exact ihe he
    | consequence => exact ihb hb
    | alternative => exact ihalt halt _ rfl
  | function ht _ _ _ _ ihids ihb =>
    simp only [List.forall_mem_cons, List.forall_mem_append] at hts
    obtain ⟨hword, -, hids, -, hb⟩ := hts
    refine Node.consistentBelow_of_children
      (.function ht (hword.eq_of_mem_reserved (ht ▸ by decide))) fun _ _ hchild => ?_
    cases hchild with
    | parameter hid => exact Node.consistentBelow_name (ihids hids _ hid)
    | body => exact ihb hb
  | array ho _ _ ih =>
    simp only [List.forall_mem_cons, List.forall_mem_append] at hts
    refine Node.consistentBelow_of_children
      (.array ho (hts.1.eq_of_mem_operators (ho ▸ by decide))) fun _ _ hchild => ?_
    cases hchild with
    | element he => exact ih hts.2.1 _ he
  | operatorsEnd => exact id
  | infixed _ ho _ _ ihr ihe =>
    simp only [List.forall_mem_cons, List.forall_mem_append] at hts
    refine fun hl => ihe hts.2.2 (Node.consistentBelow_of_children
      (.infixOp (mem_infixOperators ho hts.1)) fun _ _ hchild => ?_)
    cases hchild with
    | leftOperand => exact hl
    | rightOperand => exact ihr hts.2.1
  | call _ ho _ _ _ ihes ihe =>
    simp only [List.forall_mem_cons, List.forall_mem_append] at hts
    refine fun hl => ihe hts.2.2.2 (Node.consistentBelow_of_children
      (.call ho (hts.1.eq_of_mem_operators (ho ▸ by decide))) fun _ _ hchild => ?_)
    cases hchild with
    | callee => exact hl
    | argument he => exact ihes hts.2.1 _ he
  | index _ ho _ _ _ ihi ihe =>
    simp only [List.forall_mem_cons, List.forall_mem_append] at hts
    refine fun hl => ihe hts.2.2.2 (Node.consistentBelow_of_children
      (.index ho (hts.1.eq_of_mem_operators (ho ▸ by decide))) fun _ _ hchild => ?_)
    cases hchild with
    | indexed => exact hl
    | index => exact ihi hts.2.1
  | noItem | itemsEnd => exact fun e he => absurd he List.not_mem_nil
  | items _ _ ihe ihes =>
    rw [List.forall_mem_append] at hts
    exact List.forall_mem_cons.2 ⟨ihe hts.1, ihes hts.2⟩
  | itemsTail _ _ _ ihe ihes =>
    simp only [List.forall_mem_cons, List.forall_mem_append] at hts
    exact List.forall_mem_cons.2 ⟨ihe hts.2.1, ihes hts.2.2⟩
  | noName | namesEnd => exact fun id hid => absurd hid List.not_mem_nil
  | names hx _ ih =>
    rw [List.forall_mem_cons] at hts
    exact List.forall_mem_cons.2 ⟨Identifier.wellFormed_of_hasText hx hts.1, ih hts.2⟩
  | namesTail _ hx _ ih =>
    simp only [List.forall_mem_cons] at hts
    exact List.forall_mem_cons.2 ⟨Identifier.wellFormed_of_hasText hx hts.2.1, ih hts.2.2⟩
  | noAlternative => exact fun b hb => by cases hb
  | alternative _ _ ih =>
    rw [List.forall_mem_cons] at hts
    intro b hb
    obtain rfl := Option.some.inj hb
    exact ih hts.2
  | block ho _ _ ih =>
    simp only [List.forall_mem_cons, List.forall_mem_append] at hts
    refine Node.consistentBelow_of_children
      (.block ho (hts.1.eq_of_mem_operators (ho ▸ by decide))) fun _ _ hchild => ?_
    cases hchild with
    | statement hs => exact ih hts.2.1 _ hs
  | noStatement => exact fun s hs => absurd hs List.not_mem_nil
  | statements _ _ ihs ihbody =>
    rw [List.forall_mem_append] at hts
    exact List.forall_mem_cons.2 ⟨ihs hts.1, ihbody hts.2⟩
  | letBinding ht hx _ _ _ ih =>
    simp only [List.forall_mem_cons, List.forall_mem_append] at hts
    obtain ⟨hword, hname, -, he, -⟩ := hts
    refine Node.consistentBelow_of_children
      (.letBinding ht (hword.eq_of_mem_reserved (ht ▸ by decide))) fun _ _ hchild => ?_
    cases hchild with
    | target => exact Node.consistentBelow_name (Identifier.wellFormed_of_hasText hx hname)
    | value => exact ih he
  | returnNothing ht _ =>
    rw [List.forall_mem_cons] at hts
    exact Node.consistentBelow_of_children
      (.return ht (hts.1.eq_of_mem_reserved (ht ▸ by decide))) fun _ _ hchild => by cases hchild
  | returnValue ht _ _ ih =>
    simp only [List.forall_mem_cons, List.forall_mem_append] at hts
    refine Node.consistentBelow_of_children
      (.return ht (hts.1.eq_of_mem_reserved (ht ▸ by decide))) fun _ _ hchild => ?_
    cases hchild with
    | returned => exact ih hts.2.1
  | closedExpression _ _ ih =>
    simp only [List.forall_mem_cons, List.forall_mem_append] at ih hts
    refine Node.consistentBelow_of_children .expression fun _ _ hchild => ?_
    cases hchild with
    | expression => exact ih ⟨hts.1, hts.2.1⟩
  | openExpression _ _ ih =>
    refine Node.consistentBelow_of_children .expression fun _ _ hchild => ?_
    cases hchild with
    | expression => exact ih hts

/-- The tokens of a source have texts of their kinds. -/
lemma hasText_of_mem_tokenize {source : String} {label? : Option String} {t : Token}
    (ht : t ∈ (tokenize source label?).dropLast) : t.kind.HasText t.text := by
  rw [Parser.tokenize_dropLast] at ht
  obtain ⟨l, hl, rfl⟩ := List.mem_map.1 ht
  exact hasText_of_mem_scan hl

variable (source : String) (label? : Option String)

/-- What is kept of a source is consistent, whatever was dropped. -/
lemma consistentBelow_of_mem_parse {s : Stmt} (hs : s ∈ (parse source label?).program) :
    (Node.stmt s).ConsistentBelow := by
  obtain ⟨n, ts, -, hsub, hreads, -⟩ := exists_reads_parse source label?
  exact hreads.consistent (fun _ ht => hasText_of_mem_tokenize (hsub.subset ht)) s hs

/-- Every node of the tree of a source says what its own token says, in a faulty source too: names,
operators and values are those of the tokens, and every token has the kind and the text of its
construct. -/
theorem parse_consistent :
    ∀ s ∈ (parse source label?).program, ∀ count node, (Node.stmt s).Path count node →
      node.Consistent :=
  fun _ hs count node hpath => consistentBelow_of_mem_parse source label? hs count node hpath

/-- Behind a faulty `let`, the value of `0042` is 42, three steps that count below its
statement. -/
theorem parse_consistent_zeros :
    (parse "let = 1; fn(y) \x7b -0042 \x7d" none).diagnostics ≠ [] ∧
      ∃ s ∈ (parse "let = 1; fn(y) \x7b -0042 \x7d" none).program, ∃ t : Token,
        t.text = "0042" ∧ (Node.stmt s).Path 3 (.expr (.integer t 42)) ∧
          (Node.expr (.integer t 42)).Consistent := by
  obtain ⟨t, t', ids, o, m, m', i, hi, hprogram⟩ :
      ∃ t t' ids o m m' i, i.text = "0042" ∧ (parse "let = 1; fn(y) \x7b -0042 \x7d" none).program =
        [.expression t (.function t' ids (.mk o [.expression m (.prefixOp m' "-" (.integer i 42))]))] :=
    ⟨_, _, _, _, _, _, _, rfl, rfl⟩
  have hpath : (Node.stmt (.expression t (.function t' ids
      (.mk o [.expression m (.prefixOp m' "-" (.integer i 42))])))).Path 3 (.expr (.integer i 42)) :=
    .cons .expression (.cons .body (.cons (.statement List.mem_cons_self)
      (.cons .expression (.cons .operand .refl))))
  refine ⟨by decide +kernel, _, hprogram ▸ List.mem_cons_self, i, hi, hpath, ?_⟩
  exact parse_consistent "let = 1; fn(y) \x7b -0042 \x7d" none _ (hprogram ▸ List.mem_cons_self) _ _
    hpath

end ScriptSyntax
