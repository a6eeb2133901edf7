import ScriptSyntax.Proofs.Acceptance
import ScriptSyntax.Proofs.Scanner.Spelling
import ScriptSyntax.Proofs.Tree.WellFormed
import ScriptSyntax.Tree.Render

/-!
# Rendering and parsing

The text of a well-formed program is parsed as this program.  Its tokens are those of the tree in order,
with parentheses around every operator, and a reading of them puts the tree together again.  Places are
those of the text, and so the tree is the same but for its places.

The text of an expression stands where an operand does, and only a call goes on with what was read
before.  What is shown of an expression is therefore that it can be read in front of any operators, as
the operand that they are applied to.

## Main statements

* `Expr.WellFormed.spells`, `Expr.WellFormed.readsAs`: the tokens of the text of an expression, and what
  they are read as.
* `parse_render`: the text of a well-formed program is parsed as the program if the levels of nesting
  suffice, and otherwise is said to nest too deep.
-/

namespace ScriptSyntax

open Grammar

/-! ## The tokens of a text -/

mutual

/-- The tokens of the text of an expression without conditionals and functions. -/
def Expr.tokens : Expr → List Token
  | .identifier id => [id.token.unplaced]
  | .integer t _ | .string t _ | .boolean t _ => [t.unplaced]
  | .conditional _ _ _ _ | .function _ _ _ => []
  | .prefixOp o _ r =>
    .mark '(' :: o.unplaced :: (r.tokens ++ [.mark ')'])
  | .infixOp o _ l r =>
    .mark '(' :: (l.tokens ++ o.unplaced :: (r.tokens ++ [.mark ')']))
  | .call o c es => c.tokens ++ o.unplaced :: (tokensEach es ++ [.mark ')'])
  | .array o es => o.unplaced :: (tokensEach es ++ [.mark ']'])
  | .index o l i =>
    .mark '(' ::
      (l.tokens ++ o.unplaced :: (i.tokens ++ [.mark ']', .mark ')']))

/-- The tokens of expressions that are separated by commas. -/
def tokensEach : List Expr → List Token
  | [] => []
  | e :: es => e.tokens ++ tokensTail es

/-- The tokens of expressions, each behind a comma. -/
def tokensTail : List Expr → List Token
  | [] => []
  | e :: es => .mark ',' :: (e.tokens ++ tokensTail es)

end

/-- The text of expressions, each behind a comma and a space. -/
def tailText (es : List Expr) : List Char := es.flatMap fun e => ',' :: ' ' :: e.render.toList

lemma toList_commaSeparated (e : Expr) (es : List Expr) :
    (commaSeparated (renderEach (e :: es))).toList = e.render.toList ++ tailText es := by
  rw [renderEach_eq_map, commaSeparated]
  induction es generalizing e with
  | nil => simp [tailText]
  | cons e' es ih =>
    rw [List.map_cons, List.map_cons, String.intercalate_cons_cons, ← List.map_cons,
      String.toList_append, String.toList_append, ih e', tailText, tailText, List.flatMap_cons]
    simp

lemma Identifier.WellFormed.spells {id : Identifier} (h : id.WellFormed) :
    Spells id.name.toList [id.token.unplaced] := by
  have hkind : TokenKind.ofWord id.name = .identifier := by
    have hlookup : TokenKind.reserved.lookup id.name = none := by
      rw [List.lookup_eq_none_iff]
      intro word hword
      rw [bne_iff_ne]
      intro hname
      exact h.isName.not_reserved (hname ▸ List.mem_map_of_mem hword)
    rw [TokenKind.ofWord, hlookup]
    rfl
  rw [Token.unplaced_eq, h.kind_eq, h.text_eq, ← hkind]
  exact spells_word h.isName.ne_empty h.isName.isWordChar

lemma spells_prefixOperator {o : Token} (h : (o.kind, o.text) ∈ prefixOperators) :
    Spells o.text.toList [o.unplaced] := by
  simp only [prefixOperators, List.mem_cons, Prod.mk.injEq, List.not_mem_nil, or_false] at h
  rcases h with ⟨hk, ht⟩ | ⟨hk, ht⟩ <;> rw [Token.unplaced_eq, hk, ht] <;>
    exact ⟨by decide, fun _ _ => rfl⟩

lemma spells_infixOperator {o : Token} (h : (o.kind, o.text) ∈ infixOperators) :
    Spells o.text.toList [o.unplaced] := by
  simp only [infixOperators, List.mem_cons, Prod.mk.injEq, List.not_mem_nil, or_false] at h
  rcases h with ⟨hk, ht⟩ | ⟨hk, ht⟩ | ⟨hk, ht⟩ | ⟨hk, ht⟩ | ⟨hk, ht⟩ | ⟨hk, ht⟩ | ⟨hk, ht⟩ | ⟨hk, ht⟩ <;>
    rw [Token.unplaced_eq, hk, ht] <;> exact ⟨by decide, fun _ _ => rfl⟩

/-- No text of an expression starts with an equals sign. -/
lemma Expr.WellFormed.head_ne {e : Expr} (h : e.WellFormed) :
    ∀ c ∈ e.render.toList.head?, c ≠ '=' := by
  induction h with
  | @identifier id hid =>
    rintro c hc rfl
    exact absurd (hid.isName.isWordChar '=' (List.mem_of_mem_head? hc)) (by decide)
  | @integer t value _ _ hdigits =>
    rintro c hc rfl
    exact absurd (hdigits '=' (List.mem_of_mem_head? hc)) (by decide)
  | @boolean t value _ ht =>
    intro c hc
    rw [render, ht] at hc
    cases value <;> simp at hc <;> rw [← hc] <;> decide
  | call _ _ _ _ ih _ =>
    intro c hc
    simp only [render, String.toList_append, List.append_assoc, List.head?_append] at hc
    rw [Option.mem_def, Option.or_eq_some_iff] at hc
    rcases hc with hc | ⟨-, hc⟩
    · exact ih c hc
    · obtain rfl : '(' = c := by simpa using hc
      decide
  | string | prefixOp | infixOp | array | index =>
    intro c hc
    simp only [render, String.toList_append, List.append_assoc, List.head?_append] at hc
    simp at hc
    rw [← hc]
    decide

/-- The text of expressions behind commas, from the texts of the expressions. -/
lemma spells_tailText {es : List Expr} (h : ∀ e ∈ es, Spells e.render.toList e.tokens) :
    Spells (tailText es) (tokensTail es) := by
  induction es with
  | nil => exact .nil
  | cons e es ih =>
    rw [List.forall_mem_cons] at h
    have htail := ih h.2
    have hhead : ∀ d ∈ (tailText es).head?, isBreak d = true := by
      cases es with
      | nil => exact fun d hd => absurd hd (by simp [tailText])
      | cons e' es =>
        intro d hd
        obtain rfl : ',' = d := by simpa [tailText] using hd
        decide
    have htext : tailText (e :: es) = ',' :: ' ' :: (e.render.toList ++ tailText es) := by
      simp [tailText]
    rw [htext]
    exact (h.1.append_of_head htail hhead).space_cons.mark_cons

/-- The text of expressions that are separated by commas, and a delimiter behind it. -/
lemma spells_list {es : List Expr} {c : Char} (h : ∀ e ∈ es, Spells e.render.toList e.tokens)
    (hc : c ∈ [')', ']']) :
    Spells ((commaSeparated (renderEach es)).toList ++ [c]) (tokensEach es ++ [.mark c]) := by
  have hmark : Spells [c] [.mark c] := by
    simp only [List.mem_cons, List.not_mem_nil, or_false] at hc
    rcases hc with rfl | rfl <;> exact spells_mark
  have hbreak : isBreak c = true := by
    simp only [List.mem_cons, List.not_mem_nil, or_false] at hc
    rcases hc with rfl | rfl <;> decide
  cases es with
  | nil => exact hmark
  | cons e es =>
    rw [List.forall_mem_cons] at h
    rw [toList_commaSeparated, tokensEach, List.append_assoc, List.append_assoc]
    refine h.1.append_of_head ((spells_tailText h.2).append_break hmark hbreak) fun d hd => ?_
    cases es with
    | nil =>
      obtain rfl : c = d := by simpa [tailText] using hd
      exact hbreak
    | cons e' es =>
      obtain rfl : ',' = d := by simpa [tailText] using hd
      decide

/-- The text of an expression has the tokens of the expression. -/
theorem Expr.WellFormed.spells {e : Expr} (h : e.WellFormed) : Spells e.render.toList e.tokens := by
  induction h with
  | identifier hid => exact hid.spells
  | @integer t value hk hne hdigits _ =>
    rw [render, tokens, Token.unplaced_eq, hk]
    exact spells_digits hne hdigits
  | @string t value hk ht hquote =>
    rw [tokens, Token.unplaced_eq, hk, ht]
    simpa [render] using spells_quoted hquote
  | @boolean t value hk ht =>
    rw [render, tokens, Token.unplaced_eq, hk, ht]
    cases value <;> exact spells_word (by decide) (List.all_eq_true.1 (by decide))
  | @prefixOp o r ho hr ih =>
    have hclose : Spells [')'] [.mark ')'] := spells_mark
    have hinner : Spells (o.text.toList ++ (r.render.toList ++ [')']))
        ([o.unplaced] ++ (r.tokens ++ [.mark ')'])) := by
      refine (spells_prefixOperator ho).append (ih.append_break hclose) fun c hc d hd => ?_
      have hne : d ≠ '=' := by
        rw [List.head?_append, Option.mem_def, Option.or_eq_some_iff] at hd
        rcases hd with hd | ⟨-, hd⟩
        · exact hr.head_ne d hd
        · obtain rfl : ')' = d := by simpa using hd
          decide
      have hword : isWordChar c = false ∧ c.isDigit = false := by
        simp only [prefixOperators, List.mem_cons, Prod.mk.injEq, List.not_mem_nil, or_false] at ho
        rcases ho with ⟨-, ht⟩ | ⟨-, ht⟩ <;> rw [ht] at hc <;> simp at hc <;> rw [← hc] <;> decide
      simp [joins, hword, hne]
    have htext : (Expr.prefixOp o o.text r).render.toList =
        '(' :: (o.text.toList ++ (r.render.toList ++ [')'])) := by
      simp [render]
    rw [htext]
    exact hinner.mark_cons
  | @infixOp o l r ho _ _ ihl ihr =>
    have hclose : Spells [')'] [.mark ')'] := spells_mark
    have hright := (ihr.append_break hclose).space_cons
    have hop := ((spells_infixOperator ho).append_break hright).space_cons
    have htext : (Expr.infixOp o o.text l r).render.toList =
        '(' :: (l.render.toList ++ ' ' :: (o.text.toList ++ ' ' :: (r.render.toList ++ [')']))) := by
      simp [render]
    rw [htext]
    exact (ihl.append_break hop).mark_cons
  | @call o c es hk ht _ _ ihc ihes =>
    have hlist := (spells_list ihes (show ')' ∈ [')', ']'] by decide)).mark_cons (c := '(')
    have htext : (Expr.call o c es).render.toList = c.render.toList ++
        '(' :: ((commaSeparated (renderEach es)).toList ++ [')']) := by
      simp [render]
    rw [htext, tokens, Token.unplaced_eq, hk, ht]
    exact ihc.append_break hlist
  | @array o es hk ht _ ih =>
    have htext : (Expr.array o es).render.toList =
        '[' :: ((commaSeparated (renderEach es)).toList ++ [']']) := by
      simp [render]
    rw [htext, tokens, Token.unplaced_eq, hk, ht]
    exact (spells_list ih (by decide)).mark_cons
  | @index o l i hk ht _ _ ihl ihi =>
    have hclose : Spells [')'] [.mark ')'] := spells_mark
    have hbracket : Spells [']', ')'] [.mark ']', .mark ')'] := hclose.mark_cons
    have hindex := (ihi.append_break hbracket).mark_cons (c := '[')
    have htext : (Expr.index o l i).render.toList =
        '(' :: (l.render.toList ++ '[' :: (i.render.toList ++ [']', ')'])) := by
      simp [render]
    rw [htext, tokens, Token.unplaced_eq, hk, ht]
    exact (ihl.append_break hindex).mark_cons

/-! ## The reading of a text -/

/-- The tokens are read as `e`, but for its places, in front of any operators, which then are applied to
`e`. -/
def ReadsAs (e : Expr) (ts : List Token) : Prop :=
  ∃ e', e'.unplaced = e.unplaced ∧ ∀ {n : Nat} {power : Power} {r : Expr} {us : List Token}
    {next : TokenKind}, power < .call → Reads n (.operators power e' r) us next →
      Reads (max e.need (n + 1)) (.expression power r) (ts ++ us) next

section Readings

variable {e e' : Expr} {n : Nat} {ts us : List Token} {o c : Token} {next : TokenKind}

/-- An operand is read in front of any operators. -/
lemma readsAs_of_operand (he : e'.unplaced = e.unplaced) (hneed : e.need = n + 1)
    (h : ∀ next, Reads n (.operand e') ts next) : ReadsAs e ts := by
  refine ⟨e', he, fun {m power r us next} _ hr => ?_⟩
  have hlevels : max e.need (m + 1) = max n m + 1 := by omega
  rw [hlevels]
  exact .expression (h _) hr

/-- A token that is an expression is an operand. -/
lemma readsAs_literal (he : e'.unplaced = e.unplaced) (hneed : e.need = 1)
    (h : Expr.ofToken o = .ok e') : ReadsAs e [o] :=
  readsAs_of_operand he hneed fun _ => .literal h

/-- So is an expression in parentheses. -/
lemma readsAs_group (he : e'.unplaced = e.unplaced) (hneed : e.need = n + 1)
    (ho : o.kind = .leftParen) (hc : c.kind = .rightParen)
    (h : Reads n (.expression .lowest e') ts .rightParen) : ReadsAs e (o :: (ts ++ [c])) :=
  readsAs_of_operand he hneed fun _ => .group ho h hc

/-- With no operators to come the tokens are read as an expression. -/
lemma ReadsAs.expression (h : ReadsAs e ts) :
    ∃ e', e'.unplaced = e.unplaced ∧ ∀ (power : Power) (next : TokenKind), power < .call →
      ¬power < next.power → Reads e.need (.expression power e') ts next := by
  obtain ⟨e', he, h⟩ := h
  refine ⟨e', he, fun power next hpower hnext => ?_⟩
  have hreads := h hpower (.operatorsEnd hnext)
  rw [List.append_nil, max_eq_left e.need_pos] at hreads
  exact hreads

end Readings

/-- Behind an expression in a list comes nothing that goes on with it. -/
lemma firstKind_tailTokens {es : List Expr} {us : List Token} {next : TokenKind}
    (hus : us.map Token.unplaced = tokensTail es) (hnext : ¬.lowest < next.power) :
    ¬.lowest < (firstKind us next).power := by
  cases es with
  | nil =>
    obtain rfl := List.map_eq_nil_iff.1 hus
    exact hnext
  | cons e es =>
    rw [tokensTail, List.map_eq_cons_iff] at hus
    obtain ⟨c, us, rfl, hc, -⟩ := hus
    rw [firstKind_cons, Token.kind_of_unplaced hc]
    decide

/-- Expressions behind commas are read as a list goes on. -/
lemma reads_tailTokens {es : List Expr} {ts : List Token}
    (h : ∀ e ∈ es, ∀ ts, ts.map Token.unplaced = e.tokens → ReadsAs e ts)
    (hts : ts.map Token.unplaced = tokensTail es) :
    ∃ n es', es'.map Expr.unplaced = es.map Expr.unplaced ∧ n + 1 = max 1 (needEach es) ∧
      ∀ {next : TokenKind}, ¬.lowest < next.power → Reads n (.itemsTail es') ts next := by
  induction es generalizing ts with
  | nil =>
    obtain rfl := List.map_eq_nil_iff.1 hts
    exact ⟨0, [], rfl, rfl, fun _ => .itemsEnd⟩
  | cons e es ih =>
    rw [List.forall_mem_cons] at h
    simp only [tokensTail, List.map_eq_cons_iff, List.map_eq_append_iff] at hts
    obtain ⟨c, -, rfl, hc, ts, us, rfl, hts, hus⟩ := hts
    obtain ⟨e', he, hreads⟩ := (h.1 ts hts).expression
    obtain ⟨n, es', hes, hn, htail⟩ := ih h.2 hus
    refine ⟨max e.need n, e' :: es', by simp [he, hes], ?_, fun hnext => ?_⟩
    · rw [needEach]
      omega
    · refine .itemsTail (Token.kind_of_unplaced hc) (hreads _ _ (by decide) ?_) (htail hnext)
      exact firstKind_tailTokens hus hnext

/-- Expressions with commas between them are read as a list. -/
lemma reads_listTokens {es : List Expr} {ts : List Token}
    (h : ∀ e ∈ es, ∀ ts, ts.map Token.unplaced = e.tokens → ReadsAs e ts)
    (hts : ts.map Token.unplaced = tokensEach es) :
    ∃ n es', es'.map Expr.unplaced = es.map Expr.unplaced ∧ n + 1 = max 1 (needEach es) ∧
      ∀ {next : TokenKind}, ¬.lowest < next.power → Reads n (.items es') ts next := by
  cases es with
  | nil =>
    obtain rfl := List.map_eq_nil_iff.1 hts
    exact ⟨0, [], rfl, rfl, fun _ => .noItem⟩
  | cons e es =>
    rw [List.forall_mem_cons] at h
    rw [tokensEach, List.map_eq_append_iff] at hts
    obtain ⟨ts, us, rfl, hts, hus⟩ := hts
    obtain ⟨e', he, hreads⟩ := (h.1 ts hts).expression
    obtain ⟨n, es', hes, hn, htail⟩ := reads_tailTokens h.2 hus
    refine ⟨max e.need n, e' :: es', by simp [he, hes], ?_, fun hnext => ?_⟩
    · rw [needEach]
      omega
    · exact .items (hreads _ _ (by decide) (firstKind_tailTokens hus hnext)) (htail hnext)

lemma Token.infix_of_unplaced {t o : Token} (h : t.unplaced = o.unplaced)
    (ho : (o.kind, o.text) ∈ infixOperators) : t.kind ∈ binaryOperators := by
  rw [Token.kind_of_unplaced h]
  have hmem := List.mem_map_of_mem (f := Prod.fst) ho
  simpa [infixOperators, binaryOperators] using hmem

/-- The digits of a value that fits an integer literal stand for this value. -/
lemma Expr.ofToken_integer {t : Token} {value : Int64} (hk : t.kind = .integer)
    (hvalue : (decimal t : Int) = value.toInt) : ofToken t = .ok (.integer t value) := by
  have hlt : decimal t < integerBound := by
    have := value.toInt_lt
    rw [integerBound]
    omega
  have hnat : Int64.ofNat (decimal t) = value := by
    rw [← value.ofInt_toInt, ← hvalue, Int64.ofInt_eq_ofNat]
  rw [decimal] at hlt hnat
  simp [ofToken, hk, hlt, hnat]

/-- The tokens of an expression are read as this expression. -/
theorem Expr.WellFormed.readsAs {e : Expr} (h : e.WellFormed) {ts : List Token}
    (hts : ts.map Token.unplaced = e.tokens) : ReadsAs e ts := by
  induction h generalizing ts with
  | @identifier id hid =>
    obtain ⟨t, rfl, ht⟩ := List.map_eq_singleton_iff.1 hts
    have hk : t.kind = .identifier := (Token.kind_of_unplaced ht).trans hid.kind_eq
    have htext : t.text = id.name := (Token.text_of_unplaced ht).trans hid.text_eq
    refine readsAs_literal (?_ : Expr.unplaced (.identifier ⟨t, id.name⟩) = _) rfl ?_
    · change Expr.identifier ⟨t.unplaced, id.name⟩ = .identifier ⟨id.token.unplaced, id.name⟩
      rw [ht]
    · simp [ofToken, hk, htext]
  | @integer t value hk _ _ hvalue =>
    obtain ⟨u, rfl, hu⟩ := List.map_eq_singleton_iff.1 hts
    have hk' : u.kind = .integer := (Token.kind_of_unplaced hu).trans hk
    have hdecimal : decimal u = decimal t := by rw [decimal, Token.text_of_unplaced hu, decimal]
    refine readsAs_literal (?_ : Expr.unplaced (.integer u value) = _) rfl
      (ofToken_integer hk' (hdecimal ▸ hvalue))
    change Expr.integer u.unplaced value = .integer t.unplaced value
    rw [hu]
  | @string t value hk htext _ =>
    obtain ⟨u, rfl, hu⟩ := List.map_eq_singleton_iff.1 hts
    have hk' : u.kind = .string := (Token.kind_of_unplaced hu).trans hk
    have htext' : u.text = value := (Token.text_of_unplaced hu).trans htext
    refine readsAs_literal (?_ : Expr.unplaced (.string u value) = _) rfl ?_
    · change Expr.string u.unplaced value = .string t.unplaced value
      rw [hu]
    · simp [ofToken, hk', htext']
  | @boolean t value hk _ =>
    obtain ⟨u, rfl, hu⟩ := List.map_eq_singleton_iff.1 hts
    have hk' : u.kind = if value then .trueWord else .falseWord :=
      (Token.kind_of_unplaced hu).trans hk
    refine readsAs_literal (?_ : Expr.unplaced (.boolean u value) = _) rfl ?_
    · change Expr.boolean u.unplaced value = .boolean t.unplaced value
      rw [hu]
    · cases value <;> simp [ofToken, hk']
  | @prefixOp o r ho _ ih =>
    simp only [tokens, List.map_eq_cons_iff, List.map_eq_append_iff, List.map_eq_nil_iff] at hts
    obtain ⟨p, -, rfl, hp, u, -, rfl, hu, rs, -, rfl, hrs, c, -, rfl, hc, rfl⟩ := hts
    obtain ⟨r', hr, hreads⟩ := (ih hrs).expression
    have hoperator : u.kind = .bang ∨ u.kind = .minus := by
      rw [Token.kind_of_unplaced hu]
      simp only [prefixOperators, List.mem_cons, Prod.mk.injEq, List.not_mem_nil, or_false] at ho
      exact ho.imp And.left And.left
    have hinner : Reads (r.need + 1) (.expression .lowest (.prefixOp u u.text r')) (u :: rs)
        .rightParen := by
      have hoperand := hreads .unary .rightParen (by decide) (by decide)
      simpa using Reads.expression (.prefixed hoperator hoperand) (.operatorsEnd (by decide))
    refine readsAs_group ?_ ?_ (Token.kind_of_unplaced hp) (Token.kind_of_unplaced hc) hinner
    · change Expr.prefixOp u.unplaced u.text r'.unplaced = .prefixOp o.unplaced o.text r.unplaced
      rw [hu, hr, Token.text_of_unplaced hu]
    · rw [need]
      omega
  | @infixOp o l r ho _ _ ihl ihr =>
    simp only [tokens, List.map_eq_cons_iff, List.map_eq_append_iff, List.map_eq_nil_iff] at hts
    obtain ⟨p, -, rfl, hp, ls, -, rfl, hls, u, -, rfl, hu, rs, -, rfl, hrs, c, -, rfl, hc, rfl⟩ := hts
    obtain ⟨l', hl, hleft⟩ := ihl hls
    obtain ⟨r', hr, hright⟩ := (ihr hrs).expression
    have hmem := Token.infix_of_unplaced hu ho
    obtain ⟨hlow, hunary⟩ := power_of_mem_binaryOperators hmem
    have hcall : u.kind.power < .call := by
      rw [Power.lt_iff_rank] at hunary ⊢
      exact hunary.trans (by decide)
    have hinner : Reads (max l.need (r.need + 1)) (.expression .lowest (.infixOp u u.text l' r'))
        (ls ++ u :: rs) .rightParen := by
      have hoperand := hright _ .rightParen hcall (Nat.not_lt_zero _)
      have hoperation : Reads (max r.need 0) (.operators .lowest l' (.infixOp u u.text l' r'))
          (u :: (rs ++ [])) .rightParen :=
        .infixed hlow hmem hoperand (.operatorsEnd (by decide))
      simpa using hleft (by decide) hoperation
    have happend : ls ++ u :: (rs ++ [c]) = ls ++ u :: rs ++ [c] := by simp
    rw [happend]
    refine readsAs_group ?_ ?_ (Token.kind_of_unplaced hp) (Token.kind_of_unplaced hc) hinner
    · change Expr.infixOp u.unplaced u.text l'.unplaced r'.unplaced =
        .infixOp o.unplaced o.text l.unplaced r.unplaced
      rw [hu, hl, hr, Token.text_of_unplaced hu]
    · rw [need]
      omega
  | @call o f es hk htext _ _ ihf ihes =>
    simp only [tokens, List.map_eq_cons_iff, List.map_eq_append_iff, List.map_eq_nil_iff] at hts
    obtain ⟨fs, -, rfl, hfs, u, -, rfl, hu, ess, -, rfl, hess, c, -, rfl, hc, rfl⟩ := hts
    obtain ⟨f', hf, hcallee⟩ := ihf hfs
    obtain ⟨n, es', hes, hn, hlist⟩ := reads_listTokens (fun e he ts => ihes e he) hess
    have hku : u.kind = .leftParen := (Token.kind_of_unplaced hu).trans hk
    refine ⟨.call u f' es', ?_, fun {m power r us next} hpower hr => ?_⟩
    · rw [unplaced_call, unplaced_call, hu, hf, hes]
    · have hoperation := Reads.call hpower hku (hlist (by decide)) (Token.kind_of_unplaced hc) hr
      have hlevels : max (Expr.call o f es).need (m + 1) = max f.need (max n m + 1) := by
        have := f.need_pos
        rw [need]
        omega
      rw [hlevels]
      simpa using hcallee hpower hoperation
  | @array o es hk htext _ ih =>
    simp only [tokens, List.map_eq_cons_iff, List.map_eq_append_iff, List.map_eq_nil_iff] at hts
    obtain ⟨u, -, rfl, hu, ess, -, rfl, hess, c, -, rfl, hc, rfl⟩ := hts
    obtain ⟨n, es', hes, hn, hlist⟩ := reads_listTokens (fun e he ts => ih e he) hess
    have hku : u.kind = .leftBracket := (Token.kind_of_unplaced hu).trans hk
    refine readsAs_of_operand ?_ ?_ fun _ =>
      .array hku (hlist (by decide)) (Token.kind_of_unplaced hc)
    · rw [unplaced_array, unplaced_array, hu, hes]
    · rw [need, hn]
  | @index o l i hk htext _ _ ihl ihi =>
    simp only [tokens, List.map_eq_cons_iff, List.map_eq_append_iff, List.map_eq_nil_iff] at hts
    obtain ⟨p, -, rfl, hp, ls, -, rfl, hls, u, -, rfl, hu, is, -, rfl, his, b, -, rfl, hb, c, -, rfl,
      hc, rfl⟩ := hts
    obtain ⟨l', hl, hleft⟩ := ihl hls
    obtain ⟨i', hi, hindex⟩ := (ihi his).expression
    have hku : u.kind = .leftBracket := (Token.kind_of_unplaced hu).trans hk
    have hinner : Reads (max l.need (i.need + 1)) (.expression .lowest (.index u l' i'))
        (ls ++ u :: (is ++ [b])) .rightParen := by
      have hplace := hindex .lowest .rightBracket (by decide) (by decide)
      have hoperation : Reads (max i.need 0) (.operators .lowest l' (.index u l' i'))
          (u :: (is ++ b :: [])) .rightParen :=
        .index (by decide) hku hplace (Token.kind_of_unplaced hb) (.operatorsEnd (by decide))
      simpa using hleft (by decide) hoperation
    have happend : ls ++ u :: (is ++ [b, c]) = ls ++ u :: (is ++ [b]) ++ [c] := by simp
    rw [happend]
    refine readsAs_group ?_ ?_ (Token.kind_of_unplaced hp) (Token.kind_of_unplaced hc) hinner
    · change Expr.index u.unplaced l'.unplaced i'.unplaced =
        .index o.unplaced l.unplaced i.unplaced
      rw [hu, hl, hi]
    · rw [need]
      omega

/-! ## Statements -/

/-- The tokens of the text of a statement. -/
def Stmt.tokens : Stmt → List Token
  | .letBinding t id e =>
    t.unplaced :: id.token.unplaced :: .mark '=' :: (e.tokens ++ [.mark ';'])
  | .return t none => [t.unplaced, .mark ';']
  | .return t (some e) => t.unplaced :: (e.tokens ++ [.mark ';'])
  | .expression _ e => e.tokens

/-- The tokens of the text of a program. -/
def Program.tokens (p : Program) : List Token := p.flatMap Stmt.tokens

/-- The statement as it is parsed from its text: an expression statement keeps the first token of the
text, the parenthesis of a group included. -/
def Stmt.asRendered : Stmt → Stmt
  | .expression _ e => .expression ((tokenize e.render none).headD default) e
  | s => s

/-- A statement that ends with a semicolon has its tokens in front of those of any text. -/
lemma Stmt.WellFormed.spells {s : Stmt} (h : s.WellFormed) {b : List Char} {us : List Token}
    (hb : Spells b us) : Spells (s.render.toList ++ b) (s.tokens ++ us) := by
  have hclose := hb.mark_cons (c := ';')
  cases h with
  | @letBinding t id e hk ht hid he =>
    have hword : Spells t.text.toList [t.unplaced] := by
      rw [Token.unplaced_eq, hk, ht]
      exact spells_word (by decide) (List.all_eq_true.1 (by decide))
    have hassign : Spells ['='] [.mark '='] := spells_mark
    have hvalue := (hassign.append_break (he.spells.append_break hclose).space_cons).space_cons
    have hspells := hword.append_break (hid.spells.append_break hvalue).space_cons
    simpa [Stmt.render, Stmt.tokens] using hspells
  | @«return» t e? hk ht he =>
    have hword : Spells t.text.toList [t.unplaced] := by
      rw [Token.unplaced_eq, hk, ht]
      exact spells_word (by decide) (List.all_eq_true.1 (by decide))
    cases e? with
    | none =>
      have hspells := hword.append_break hclose
      simpa [Stmt.render, renderValue, Stmt.tokens] using hspells
    | some e =>
      have hspells := hword.append_break ((he e rfl).spells.append_break hclose).space_cons
      simpa [Stmt.render, renderValue, Stmt.tokens] using hspells

/-- The text of a program has the tokens of the program. -/
theorem Program.WellFormed.spells {p : Program} (h : p.WellFormed) :
    Spells p.render.toList p.tokens := by
  induction h with
  | nil => exact .nil
  | @expression t e he =>
    simpa [Program.render, renderStmts, Stmt.render, tokens, Stmt.tokens] using he.spells
  | @cons s p hs _ ih =>
    simpa [Program.render, renderStmts, tokens] using hs.spells ih

/-- The tokens of a statement that ends with a semicolon are read as this statement. -/
lemma Stmt.WellFormed.reads {s : Stmt} (h : s.WellFormed) {ts : List Token}
    (hts : ts.map Token.unplaced = s.tokens) :
    ∃ s', s'.unplaced = s.unplaced ∧ ∀ next, Reads s.need (.statement s') ts next := by
  cases h with
  | @letBinding t id e hk _ hid he =>
    simp only [tokens, List.map_eq_cons_iff, List.map_eq_append_iff, List.map_eq_nil_iff] at hts
    obtain ⟨u, -, rfl, hu, x, -, rfl, hx, o, -, rfl, ho, es, -, rfl, hes, c, -, rfl, hc, rfl⟩ := hts
    obtain ⟨e', hee, hreads⟩ := (he.readsAs hes).expression
    have hku := (Token.kind_of_unplaced hu).trans hk
    have hkx := (Token.kind_of_unplaced hx).trans hid.kind_eq
    have hname : x.text = id.name := (Token.text_of_unplaced hx).trans hid.text_eq
    have hkc : c.kind = .semicolon := Token.kind_of_unplaced hc
    refine ⟨.letBinding u ⟨x, x.text⟩ e', ?_, fun next =>
      .letBinding hku hkx (Token.kind_of_unplaced ho) (hreads _ _ (by decide) ?_) (.semicolon hkc)⟩
    · change Stmt.letBinding u.unplaced ⟨x.unplaced, x.text⟩ e'.unplaced =
        .letBinding t.unplaced ⟨id.token.unplaced, id.name⟩ e.unplaced
      rw [hu, hx, hname, hee]
    · rw [firstKind_cons, hkc]
      decide
  | @«return» t e? hk _ he =>
    cases e? with
    | none =>
      simp only [tokens, List.map_eq_cons_iff, List.map_eq_nil_iff] at hts
      obtain ⟨u, -, rfl, hu, c, -, rfl, hc, rfl⟩ := hts
      have hku := (Token.kind_of_unplaced hu).trans hk
      refine ⟨.return u none, ?_, fun next =>
        .returnNothing hku (.semicolon (Token.kind_of_unplaced hc))⟩
      change Stmt.return u.unplaced none = .return t.unplaced none
      rw [hu]
    | some e =>
      simp only [tokens, List.map_eq_cons_iff, List.map_eq_append_iff, List.map_eq_nil_iff] at hts
      obtain ⟨u, -, rfl, hu, es, -, rfl, hes, c, -, rfl, hc, rfl⟩ := hts
      obtain ⟨e', hee, hreads⟩ := ((he e rfl).readsAs hes).expression
      have hku := (Token.kind_of_unplaced hu).trans hk
      have hkc : c.kind = .semicolon := Token.kind_of_unplaced hc
      refine ⟨.return u (some e'), ?_, fun next =>
        .returnValue hku (hreads _ _ (by decide) ?_) (.semicolon hkc)⟩
      · change Stmt.return u.unplaced (some e'.unplaced) = .return t.unplaced (some e.unplaced)
        rw [hu, hee]
      · rw [firstKind_cons, hkc]
        decide

/-- The tokens of a well-formed program are those of its text. -/
lemma Program.WellFormed.tokenize_eq {p : Program} (h : p.WellFormed) (label? : Option String) :
    (tokenize p.render label?).dropLast.map Token.unplaced = p.tokens := by
  rw [Parser.tokenize_dropLast, List.map_map]
  exact h.spells.tokens_eq _ _

/-- The text of an expression starts with the first token of the expression. -/
lemma Expr.WellFormed.head_tokenize {e : Expr} (h : e.WellFormed) {t : Token} {us : List Token}
    (ht : e.tokens = t.unplaced :: us) :
    ((tokenize e.render none).headD default).unplaced = t.unplaced := by
  have htokens := (Program.WellFormed.expression h (t := t)).tokenize_eq none
  have hrender : Program.render [.expression t e] = e.render := by
    simp [Program.render, renderStmts, Stmt.render]
  have hall : Program.tokens [.expression t e] = t.unplaced :: us := by
    simpa [Program.tokens, Stmt.tokens] using ht
  rw [hrender, hall, List.map_eq_cons_iff] at htokens
  obtain ⟨u, rest, hdrop, hu, -⟩ := htokens
  cases hlist : tokenize e.render none with
  | nil => simp [hlist] at hdrop
  | cons v vs =>
    cases vs with
    | nil => simp [hlist] at hdrop
    | cons w ws =>
      rw [hlist, List.dropLast_cons_cons, List.cons.injEq] at hdrop
      rw [List.headD_cons, hdrop.1, hu]

/-- An expression statement whose token is the first one of its text is parsed as it is. -/
lemma Expr.WellFormed.unplaced_asRendered {e : Expr} (h : e.WellFormed) {t : Token}
    {us : List Token} (ht : e.tokens = t.unplaced :: us) :
    (Stmt.expression t e).asRendered.unplaced = (Stmt.expression t e).unplaced := by
  change Stmt.expression ((tokenize e.render none).headD default).unplaced e.unplaced =
    .expression t.unplaced e.unplaced
  rw [h.head_tokenize ht]

/-- The tokens of a program are read as this program, within the levels that its statements need. -/
theorem Program.WellFormed.reads {p : Program} (h : p.WellFormed) {ts : List Token}
    (hts : ts.map Token.unplaced = p.tokens) :
    ∃ n p', Program.unplaced p' = Program.unplaced (p.map Stmt.asRendered) ∧
      (∀ k, n ≤ k ↔ ∀ s ∈ p, s.need ≤ k) ∧ Reads n (.statements p') ts .endOfInput := by
  induction h generalizing ts with
  | nil =>
    obtain rfl := List.map_eq_nil_iff.1 hts
    exact ⟨0, [], rfl, by simp, .noStatement⟩
  | @expression t e he =>
    have hts : ts.map Token.unplaced = e.tokens := by simpa [tokens, Stmt.tokens] using hts
    obtain ⟨e', hee, hreads⟩ := (he.readsAs hts).expression
    have hexpression := hreads .lowest .endOfInput (by decide) (by decide)
    obtain ⟨u, us, rfl, -⟩ := hexpression.startsWith
    have hstatement := Reads.openExpression hexpression (by decide)
    refine ⟨e.need, [.expression u e'], ?_, by simp [Stmt.need], ?_⟩
    · change [Stmt.expression u.unplaced e'.unplaced] = [(Stmt.expression u e).asRendered.unplaced]
      rw [he.unplaced_asRendered hts.symm, hee]
      rfl
    · simpa using Reads.statements hstatement .noStatement
  | @cons s p hs _ ih =>
    rw [tokens, List.flatMap_cons, List.map_eq_append_iff] at hts
    obtain ⟨ts, us, rfl, hts, hus⟩ := hts
    obtain ⟨s', hss, hs'⟩ := hs.reads hts
    obtain ⟨n, p', hpp, hn, hp'⟩ := ih hus
    refine ⟨max s.need n, s' :: p', ?_, fun k => ?_, .statements (hs' _) hp'⟩
    · have hkeep : s.asRendered = s := by cases hs <;> rfl
      change s'.unplaced :: Program.unplaced p' = s.asRendered.unplaced :: Program.unplaced _
      rw [hss, hpp, hkeep]
    · rw [max_le_iff, hn, List.forall_mem_cons]

/-- Parsing undoes rendering.  If the levels of nesting suffice, the text of a well-formed program is
accepted and parsed as this program, but for its places; if they do not, this is the first thing that is
found wrong with the text. -/
theorem parse_render (p : Program) (label? : Option String) (h : p.WellFormed) :
    ((∀ s ∈ p, s.need ≤ maxNesting) →
      (parse p.render label?).diagnostics = [] ∧
        (parse p.render label?).program.unplaced = Program.unplaced (p.map Stmt.asRendered)) ∧
    ((∃ s ∈ p, maxNesting < s.need) →
      (parse p.render label?).diagnostics.head?.map Diagnostic.fault =
        some (.nestingTooDeep maxNesting)) := by
  obtain ⟨n, p', hp, hn, hreads⟩ := h.reads (h.tokenize_eq label?)
  obtain ⟨hfits, hdeep⟩ := parse_of_reads h.spells.even_count hreads
  constructor
  · intro hneed
    obtain ⟨hprogram, hdiagnostics⟩ := hfits ((hn _).2 hneed)
    exact ⟨hdiagnostics, by rw [hprogram, hp]⟩
  · rintro ⟨s, hs, hlt⟩
    refine hdeep fun hle => ?_
    have := (hn _).1 hle s hs
    omega

/-- The program with the text `let x = (1 + 2);(-x)`. -/
def letAndNegation : Program :=
  [.letBinding (.bare .letWord "let") ⟨.bare .identifier "x", "x"⟩
      (.infixOp (.bare .plus "+") "+" (.integer (.bare .integer "1") 1)
        (.integer (.bare .integer "2") 2)),
    .expression (.mark '(')
      (.prefixOp (.bare .minus "-") "-" (.identifier ⟨.bare .identifier "x", "x"⟩))]

/-- A `let` of a sum and a negation are parsed from their text, and since the token of the negation is
the first one of its text, nothing changes but the places. -/
theorem parse_render_letAndNegation : letAndNegation.WellFormed ∧
    (parse letAndNegation.render none).diagnostics = [] ∧
      (parse letAndNegation.render none).program.unplaced = letAndNegation.unplaced := by
  have hx : Identifier.WellFormed ⟨.bare .identifier "x", "x"⟩ :=
    ⟨rfl, rfl, by decide, List.all_eq_true.1 (by decide), by decide⟩
  have hone : Expr.WellFormed (.integer (.bare .integer "1") 1) :=
    .integer rfl (by decide) (List.all_eq_true.1 (by decide)) (by decide +kernel)
  have htwo : Expr.WellFormed (.integer (.bare .integer "2") 2) :=
    .integer rfl (by decide) (List.all_eq_true.1 (by decide)) (by decide +kernel)
  have hsum := Expr.WellFormed.infixOp (o := .bare .plus "+") (by decide) hone htwo
  have hnegation := Expr.WellFormed.prefixOp (o := .bare .minus "-") (by decide) (.identifier hx)
  have h : letAndNegation.WellFormed := .cons (.letBinding rfl rfl hx hsum) (.expression hnegation)
  obtain ⟨hdiagnostics, hprogram⟩ := (parse_render letAndNegation none h).1 (by decide)
  refine ⟨h, hdiagnostics, hprogram.trans ?_⟩
  have hopening := hnegation.unplaced_asRendered (t := .mark '(') rfl
  exact List.cons_eq_cons.2 ⟨rfl, List.cons_eq_cons.2 ⟨hopening, rfl⟩⟩

end ScriptSyntax
