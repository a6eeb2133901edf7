import ScriptSyntax.Proofs.Acceptance
import ScriptSyntax.Proofs.Tree.Node

/-!
# How deep a tree goes

A reading counts the levels of nesting that it takes, and a path down its tree has no more counted steps
than that.  Each counted step goes to an expression that was read one level further in.  What is not
counted are the steps to what an operator was applied to: this was read before, at the same level.

Every tree that a parse gives has a reading within the levels that there are, whatever was dropped on
the way, so that the bound holds of faulty sources too.

## Main statements

* `Grammar.Phrase.below_of_reads`: what a reading says of the paths down its tree, and of the blocks in it.
* `parse_path_lt`: paths down a tree that was parsed have fewer than `maxNesting` counted steps.
-/

namespace ScriptSyntax

namespace Grammar

/-- The statements of the block are read from tokens in a row of `ts`. -/
def BlockRead (ts : List Token) (b : Block) : Prop :=
  ∃ n us, us <:+: ts ∧ Reads n (.statements b.body) us .rightBrace

/-- Paths from the node have fewer counted steps than `bound`, and end in no block but those that were
read from tokens of `ts`. -/
structure Below (bound : Nat) (ts : List Token) (a : Node) : Prop where
  count_lt : ∀ k b, a.Path k b → k < bound
  blockRead : ∀ k b, a.Path k (.block b) → BlockRead ts b

namespace Below

variable {bound bound' : Nat} {ts us : List Token} {a : Node}

lemma mono (h : Below bound ts a) (hbound : bound ≤ bound') (hts : ts <:+: us) :
    Below bound' us a where
  count_lt k b hpath := (h.count_lt k b hpath).trans_le hbound
  blockRead k b hpath := by
    obtain ⟨n, vs, hvs, hreads⟩ := h.blockRead k b hpath
    exact ⟨n, vs, hvs.trans hts, hreads⟩

/-- A path steps to a child first, unless it is over. -/
theorem of_children (hpos : 0 < bound) (hblock : ∀ b, a = .block b → BlockRead ts b)
    (h : ∀ k b, a.Child k b → ∃ m, k + m ≤ bound ∧ Below m ts b) : Below bound ts a where
  count_lt k b hpath := by
    cases hpath with
    | refl => exact hpos
    | cons hchild hrest =>
      obtain ⟨m, hm, hbelow⟩ := h _ _ hchild
      exact (Nat.add_lt_add_left (hbelow.count_lt _ _ hrest) _).trans_le hm
  blockRead k b hpath := by
    generalize hnode : Node.block b = node at hpath
    cases hpath with
    | refl => exact hblock b hnode.symm
    | cons hchild hrest =>
      obtain ⟨m, -, hbelow⟩ := h _ _ hchild
      exact hbelow.blockRead _ b (hnode ▸ hrest)

/-- What lies below an expression, told child by child. -/
lemma expr {e : Expr} (hpos : 0 < bound)
    (h : ∀ k b, (Node.expr e).Child k b → ∃ m, k + m ≤ bound ∧ Below m ts b) :
    Below bound ts (.expr e) :=
  of_children hpos (fun _ heq => by cases heq) h

/-- Nothing lies below a name. -/
lemma name (hpos : 0 < bound) (id : Identifier) : Below bound ts (.name id) :=
  of_children hpos (fun _ heq => by cases heq) fun _ _ hchild => by cases hchild

end Below

/-- What a phrase that takes `n` levels says of the paths down its tree. -/
def Phrase.Below (n : Nat) (ts : List Token) : Phrase → Prop
  | .expression _ e => Grammar.Below n ts (.expr e)
  | .operand e => Grammar.Below (n + 1) ts (.expr e)
  -- the left operand was read before, from other tokens
  | .operators _ l e => ∀ bound us, n < bound → Grammar.Below bound us (.expr l) →
      Grammar.Below bound (us ++ ts) (.expr e)
  | .items es | .itemsTail es => ∀ e ∈ es, Grammar.Below n ts (.expr e)
  | .names _ | .namesTail _ => True
  | .alternative block? => ∀ b ∈ block?, Grammar.Below (n + 1) ts (.block b)
  | .block b => Grammar.Below (n + 1) ts (.block b)
  | .statement s => Grammar.Below (n + 1) ts (.stmt s)
  | .statements body => ∀ s ∈ body, Grammar.Below (n + 1) ts (.stmt s)

/-! ## Productions -/

section Productions

variable {n m bound : Nat} {t o c : Token} {ts us vs : List Token} {text : String} {e l r : Expr}
  {es : List Expr} {b : Block} {alt : Option Block} {ids : List Identifier} {body : List Stmt}

lemma below_of_ofToken (h : Expr.ofToken t = .ok e) : Below 1 ts (.expr e) := by
  refine .expr Nat.one_pos fun k b hchild => ?_
  rcases expr_of_ofToken_eq_ok h with rfl | ⟨value, rfl⟩ | rfl | ⟨value, rfl⟩ <;> cases hchild
  exact ⟨1, le_rfl, .name Nat.one_pos _⟩

lemma below_prefixed (h : Below n ts (.expr r)) :
    Below (n + 1) (o :: ts) (.expr (.prefixOp o text r)) := by
  refine .expr (Nat.succ_pos n) fun k b hchild => ?_
  cases hchild with
  | operand => exact ⟨n, (Nat.add_comm 1 n).le, h.mono le_rfl ⟨[o], [], by simp⟩⟩

/-- An operator with its operands, the right one behind the operator. -/
lemma below_infixed (hn : n < bound) (hl : Below bound us (.expr l)) (hr : Below n ts (.expr r)) :
    Below bound (us ++ o :: ts) (.expr (.infixOp o text l r)) := by
  refine .expr (Nat.zero_lt_of_lt hn) fun k b hchild => ?_
  cases hchild with
  | leftOperand => exact ⟨bound, (Nat.zero_add _).le, hl.mono le_rfl ⟨[], o :: ts, by simp⟩⟩
  | rightOperand => exact ⟨n, by omega, hr.mono le_rfl ⟨us ++ [o], [], by simp⟩⟩

lemma below_call (hn : n < bound) (hl : Below bound us (.expr l))
    (hes : ∀ e ∈ es, Below n ts (.expr e)) :
    Below bound (us ++ o :: (ts ++ [c])) (.expr (.call o l es)) := by
  refine .expr (Nat.zero_lt_of_lt hn) fun k b hchild => ?_
  cases hchild with
  | callee => exact ⟨bound, (Nat.zero_add _).le, hl.mono le_rfl ⟨[], o :: (ts ++ [c]), by simp⟩⟩
  | argument he => exact ⟨n, by omega, (hes _ he).mono le_rfl ⟨us ++ [o], [c], by simp⟩⟩

lemma below_index (hn : n < bound) (hl : Below bound us (.expr l)) (hr : Below n ts (.expr r)) :
    Below bound (us ++ o :: (ts ++ [c])) (.expr (.index o l r)) := by
  refine .expr (Nat.zero_lt_of_lt hn) fun k b hchild => ?_
  cases hchild with
  | indexed => exact ⟨bound, (Nat.zero_add _).le, hl.mono le_rfl ⟨[], o :: (ts ++ [c]), by simp⟩⟩
  | index => exact ⟨n, by omega, hr.mono le_rfl ⟨us ++ [o], [c], by simp⟩⟩

lemma below_conditional {k : Nat} (he : Below n ts (.expr e)) (hb : Below (m + 1) us (.block b))
    (halt : ∀ b ∈ alt, Below (k + 1) vs (.block b)) :
    Below (max n (max m k) + 1) (t :: o :: (ts ++ c :: (us ++ vs)))
      (.expr (.conditional t e b alt)) := by
  refine .expr (Nat.succ_pos _) fun k' b' hchild => ?_
  cases hchild with
  | condition => exact ⟨n, by omega, he.mono le_rfl ⟨[t, o], c :: (us ++ vs), by simp⟩⟩
  | consequence => exact ⟨m + 1, by omega, hb.mono le_rfl ⟨t :: o :: (ts ++ [c]), vs, by simp⟩⟩
  | alternative =>
    exact ⟨k + 1, by omega, (halt _ rfl).mono le_rfl ⟨t :: o :: (ts ++ c :: us), [], by simp⟩⟩

lemma below_function (hb : Below (n + 1) us (.block b)) :
    Below (n + 1) (t :: o :: (ts ++ c :: us)) (.expr (.function t ids b)) := by
  refine .expr (Nat.succ_pos n) fun k b hchild => ?_
  cases hchild with
  | parameter _ => exact ⟨1, by omega, .name Nat.one_pos _⟩
  | body =>
    exact ⟨n + 1, (Nat.zero_add _).le, hb.mono le_rfl ⟨t :: o :: (ts ++ [c]), [], by simp⟩⟩

lemma below_array (hes : ∀ e ∈ es, Below n ts (.expr e)) :
    Below (n + 1) (o :: (ts ++ [c])) (.expr (.array o es)) := by
  refine .expr (Nat.succ_pos n) fun k b hchild => ?_
  cases hchild with
  | element he => exact ⟨n, by omega, (hes _ he).mono le_rfl ⟨[o], [c], by simp⟩⟩

lemma below_block (hreads : Reads n (.statements body) ts .rightBrace)
    (hbody : ∀ s ∈ body, Below (n + 1) ts (.stmt s)) :
    Below (n + 1) (o :: (ts ++ [c])) (.block (.mk o body)) := by
  have hts : ts <:+: o :: (ts ++ [c]) := ⟨[o], [c], by simp⟩
  refine .of_children (Nat.succ_pos n) (fun b heq => ?_) fun k b hchild => ?_
  · cases heq
    exact ⟨n, ts, hts, hreads⟩
  · cases hchild with
    | statement hs => exact ⟨n + 1, (Nat.zero_add _).le, (hbody _ hs).mono le_rfl hts⟩

/-- What lies below a statement lies below its expression, or is a name. -/
lemma below_stmt {s : Stmt} (he : ∀ e, s.expr? = some e → Below n ts (.expr e)) :
    Below (n + 1) ts (.stmt s) := by
  refine .of_children (Nat.succ_pos n) (fun _ heq => by cases heq) fun k b hchild => ?_
  cases hchild with
  | target => exact ⟨1, by omega, .name Nat.one_pos _⟩
  | value | returned | expression => exact ⟨n, (Nat.add_comm 1 n).le, he _ rfl⟩

end Productions

/-- What a reading says of the paths down its tree: a counted step takes a level, and the blocks were
read from tokens of the phrase. -/
theorem Phrase.below_of_reads {n : Nat} {phrase : Phrase} {ts : List Token} {next : TokenKind}
    (h : Reads n phrase ts next) : phrase.Below n ts := by
  induction h with
  | @expression n m power l e ts us next _ _ ihl ihe =>
    exact ihe _ ts (by omega) (ihl.mono (by omega) (List.infix_refl ts))
  | literal ht => exact below_of_ofToken ht
  | prefixed _ _ ih => exact below_prefixed ih
  | @group n o c e ts next _ _ _ ih => exact ih.mono (Nat.le_succ n) ⟨[o], [c], by simp⟩
  | conditional _ _ _ _ _ _ ih ihb ihalt => exact below_conditional ih ihb ihalt
  | function _ _ _ _ _ _ ihb => exact below_function ihb
  | array _ _ _ ih => exact below_array ih
  | operatorsEnd _ =>
    intro bound us _ hl
    rwa [List.append_nil]
  | infixed _ _ _ _ ihr ihe =>
    intro bound us hn hl
    have hnext := ihe bound _ (by omega) (below_infixed (by omega) hl ihr)
    simpa using hnext
  | @call n m power o c l e es ts us next _ _ _ _ _ ihes ihe =>
    intro bound vs hn hl
    have hnext := ihe bound _ (by omega) (below_call (c := c) (by omega) hl ihes)
    simpa using hnext
  | @index n m power o c l r e ts us next _ _ _ _ _ ihr ihe =>
    intro bound vs hn hl
    have hnext := ihe bound _ (by omega) (below_index (c := c) (by omega) hl ihr)
    simpa using hnext
  | noItem | itemsEnd => exact fun e he => absurd he List.not_mem_nil
  | @items n m e es ts us next _ _ ih ihes =>
    refine List.forall_mem_cons.2 ⟨ih.mono (le_max_left n m) ⟨[], us, by simp⟩, fun e he => ?_⟩
    exact (ihes e he).mono (le_max_right n m) ⟨ts, [], by simp⟩
  | @itemsTail n m c e es ts us next _ _ _ ih ihes =>
    refine List.forall_mem_cons.2 ⟨ih.mono (le_max_left n m) ⟨[c], us, by simp⟩, fun e he => ?_⟩
    exact (ihes e he).mono (le_max_right n m) ⟨c :: ts, [], by simp⟩
  | noName | names | namesEnd | namesTail => trivial
  | noAlternative _ => exact fun b hb => by cases hb
  | @alternative n t b ts next _ _ ih =>
    intro b' hb
    obtain rfl := Option.some.inj hb
    exact ih.mono le_rfl ⟨[t], [], by simp⟩
  | block _ hbody _ ih => exact below_block hbody ih
  | noStatement => exact fun s hs => absurd hs List.not_mem_nil
  | @statements n m s body ts us next _ _ ih ihbody =>
    refine List.forall_mem_cons.2 ⟨ih.mono (by omega) ⟨[], us, by simp⟩, fun s hs => ?_⟩
    exact (ihbody s hs).mono (by omega) ⟨ts, [], by simp⟩
  | @letBinding n t x o e ts us next _ _ _ _ _ ih =>
    refine below_stmt fun e he => ?_
    obtain rfl := Option.some.inj he
    exact ih.mono le_rfl ⟨[t, x, o], us, by simp⟩
  | returnNothing _ _ => exact below_stmt fun e he => by cases he
  | @returnValue n t e ts us next _ _ _ ih =>
    refine below_stmt fun e he => ?_
    obtain rfl := Option.some.inj he
    exact ih.mono le_rfl ⟨[t], us, by simp⟩
  | @closedExpression n t c e ts next _ _ ih =>
    refine below_stmt fun e he => ?_
    obtain rfl := Option.some.inj he
    exact ih.mono le_rfl ⟨[], [c], by simp⟩
  | openExpression _ _ ih =>
    refine below_stmt fun e he => ?_
    obtain rfl := Option.some.inj he
    exact ih

end Grammar

open Grammar

variable (source : String) (label? : Option String)

/-- What a parse says of the paths down its tree, and of the blocks in it. -/
theorem below_of_mem_parse {s : Stmt} (hs : s ∈ (parse source label?).program) :
    ∃ ts, ts.Sublist (tokenize source label?).dropLast ∧ Below (maxNesting + 1) ts (.stmt s) := by
  obtain ⟨n, ts, hn, hsub, hreads, -⟩ := exists_reads_parse source label?
  exact ⟨ts, hsub, (Phrase.below_of_reads hreads s hs).mono (Nat.succ_le_succ hn) (List.infix_refl ts)⟩

/-- The limit on nesting bounds the depth of every tree, of faulty sources too: a path from the
expression of a statement down to any node has fewer counted steps than the limit. -/
theorem parse_path_lt :
    ∀ s ∈ (parse source label?).program, ∀ e, s.expr? = some e →
      ∀ count node, (Node.expr e).Path count node → count < maxNesting := by
  intro s hs e he count node hpath
  obtain ⟨ts, -, hbelow⟩ := below_of_mem_parse source label? hs
  have hcount := hbelow.count_lt _ _ (.cons (Node.child_of_expr? he) hpath)
  omega

/-- A negation in the body of a function: the path to its operand counts the step into the body and the
step to the operand. -/
theorem parse_path_lt_negation :
    ∃ s ∈ (parse "fn() \x7b -x \x7d" none).program, ∃ e, s.expr? = some e ∧
      ∃ node, (Node.expr e).Path 2 node ∧ 2 < maxNesting := by
  obtain ⟨t, t', ids, o, m, m', text, r, hprogram⟩ :
      ∃ t t' ids o m m' text r, (parse "fn() \x7b -x \x7d" none).program =
        [.expression t (.function t' ids (.mk o [.expression m (.prefixOp m' text r)]))] :=
    ⟨_, _, _, _, _, _, _, _, rfl⟩
  have hpath : (Node.expr (.function t' ids (.mk o [.expression m (.prefixOp m' text r)]))).Path 2
      (.expr r) :=
    .cons .body (.cons (.statement List.mem_cons_self) (.cons .expression (.cons .operand .refl)))
  refine ⟨_, hprogram ▸ List.mem_cons_self, _, rfl, _, hpath, ?_⟩
  exact parse_path_lt "fn() \x7b -x \x7d" none _ (hprogram ▸ List.mem_cons_self) _ rfl _ _ hpath

end ScriptSyntax
