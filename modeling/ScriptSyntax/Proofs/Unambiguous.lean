import ScriptSyntax.Proofs.Parser.Simulation
import ScriptSyntax.Proofs.RoundTrip

/-!
# Texts that tell expressions apart

Two well-formed expressions of one text are the same but for their places, however deep they nest.  What
the parser makes of the text does not say so, since it gives up on a text that nests too deep; here the
tokens of the two expressions are compared.

An expression is an operand and the calls behind it.  The tokens of an operand show where the operand
ends, whatever stands behind it.  Those of a call do not, since another call may follow, but they do in
front of anything that is no opening parenthesis.

## Main statements

* `Expr.WellFormed.spine`: the operand and the calls that an expression is made of.
* `Expr.IsOperand.delimited`: operands are told apart by their tokens, whatever stands behind them.
* `Expr.WellFormed.told`: expressions are told apart by their tokens in front of what opens no call.
* `Expr.render_eq_iff`: two expressions have the same text exactly if they differ in places only.
-/

namespace ScriptSyntax

open Grammar

/-! ## Operands and the calls behind them -/

/-- What is called in the first place: the expression itself unless it is a call. -/
def Expr.head : Expr → Expr
  | .call _ f _ => f.head
  | e => e

/-- The calls behind the head of an expression, each with its parenthesis and its arguments. -/
def Expr.calls : Expr → List (Token × List Expr)
  | .call o f es => f.calls ++ [(o, es)]
  | _ => []

/-- The expression with calls behind it. -/
def Expr.applied (f : Expr) (calls : List (Token × List Expr)) : Expr :=
  calls.foldl (fun f c => .call c.1 f c.2) f

/-- A call without its places. -/
def unplacedCall (c : Token × List Expr) : Token × List Expr :=
  (c.1.unplaced, c.2.map Expr.unplaced)

/-- The tokens of the texts of calls. -/
def callTokens (calls : List (Token × List Expr)) : List Token :=
  calls.flatMap fun c => c.1.unplaced :: (tokensEach c.2 ++ [.mark ')'])

/-- The expressions that are no calls, made of expressions with `P`. -/
inductive Expr.IsOperand (P : Expr → Prop) : Expr → Prop where
  | literal {e : Expr} :
      e.tokens = [e.token.unplaced] → Expr.ofToken e.token = .ok e → IsOperand P e
  | prefixOp {o : Token} {r : Expr} :
      (o.kind, o.text) ∈ prefixOperators → P r → IsOperand P (.prefixOp o o.text r)
  | infixOp {o : Token} {l r : Expr} :
      (o.kind, o.text) ∈ infixOperators → P l → P r → IsOperand P (.infixOp o o.text l r)
  | array {o : Token} {es : List Expr} :
      o.unplaced = .mark '[' → (∀ e ∈ es, P e) → IsOperand P (.array o es)
  | index {o : Token} {l i : Expr} :
      o.unplaced = .mark '[' → P l → P i → IsOperand P (.index o l i)

/-- Calls whose arguments are expressions with `P`. -/
def AreCalls (P : Expr → Prop) (calls : List (Token × List Expr)) : Prop :=
  ∀ c ∈ calls, c.1.unplaced = .mark '(' ∧ ∀ a ∈ c.2, P a

lemma areCalls_cons {P : Expr → Prop} {c : Token × List Expr} {calls : List (Token × List Expr)} :
    AreCalls P (c :: calls) ↔ (c.1.unplaced = .mark '(' ∧ ∀ a ∈ c.2, P a) ∧ AreCalls P calls :=
  List.forall_mem_cons

lemma Expr.unplaced_applied (f : Expr) (calls : List (Token × List Expr)) :
    (f.applied calls).unplaced = f.unplaced.applied (calls.map unplacedCall) := by
  induction calls generalizing f with
  | nil => rfl
  | cons c calls ih =>
    change (Expr.applied (.call c.1 f c.2) calls).unplaced = _
    rw [ih, unplaced_call]
    rfl

/-- A token without its place stands for the same expression without its places. -/
lemma Expr.ofToken_unplaced {t : Token} {e : Expr} (h : ofToken t = .ok e) :
    ofToken t.unplaced = .ok e.unplaced := by
  rw [Token.unplaced, Simulation.ofToken_relocate, h]
  rfl

namespace Expr.WellFormed

variable {e : Expr}

/-- An expression is its head with its calls behind it. -/
lemma applied_head (h : e.WellFormed) : e.head.applied e.calls = e := by
  induction h with
  | @call o f es _ _ _ _ ih _ =>
    rw [head, calls, applied, List.foldl_append]
    change Expr.call o (f.head.applied f.calls) es = _
    rw [ih]
  | _ => rfl

/-- The tokens of an expression are those of its head and of its calls. -/
lemma tokens_eq (h : e.WellFormed) : e.tokens = e.head.tokens ++ callTokens e.calls := by
  induction h with
  | @call o f es _ _ _ _ ih _ => simp [tokens, head, calls, ih, callTokens]
  | _ => simp [head, calls, callTokens]

/-- An expression is an operand with calls behind it, and what passes from such parts to the whole holds
of the parts. -/
theorem spine {P : Expr → Prop}
    (step : ∀ {e : Expr}, e.WellFormed → e.head.IsOperand P → AreCalls P e.calls → P e)
    (h : e.WellFormed) : e.head.IsOperand P ∧ AreCalls P e.calls := by
  have hmark {o : Token} {c : Char} (hk : o.kind = Munch.markKind c)
      (htext : o.text = .ofList [c]) : o.unplaced = .mark c := by
    rw [Token.unplaced_eq, hk, htext]
    rfl
  have hnone : AreCalls P [] := fun _ hc => absurd hc List.not_mem_nil
  induction h with
  | @identifier id hid =>
    refine ⟨.literal rfl ?_, hnone⟩
    simp [head, token, ofToken, hid.kind_eq, hid.text_eq]
  | integer hk _ _ hvalue => exact ⟨.literal rfl (ofToken_integer hk hvalue), hnone⟩
  | string hk htext _ =>
    refine ⟨.literal rfl ?_, hnone⟩
    simp [head, token, ofToken, hk, htext]
  | @boolean t value hk _ =>
    refine ⟨.literal rfl ?_, hnone⟩
    cases value <;> simp [head, token, ofToken, hk]
  | prefixOp ho hr ihr => exact ⟨.prefixOp ho (step hr ihr.1 ihr.2), hnone⟩
  | infixOp ho hl hr ihl ihr =>
    exact ⟨.infixOp ho (step hl ihl.1 ihl.2) (step hr ihr.1 ihr.2), hnone⟩
  | @call o f es hk htext _ hes ihf ihes =>
    refine ⟨ihf.1, List.forall_mem_append.2 ⟨ihf.2, List.forall_mem_singleton.2 ⟨?_, ?_⟩⟩⟩
    · exact hmark hk htext
    · exact fun a ha => step (hes a ha) (ihes a ha).1 (ihes a ha).2
  | array hk htext hes ihes =>
    exact ⟨.array (hmark hk htext) fun a ha => step (hes a ha) (ihes a ha).1 (ihes a ha).2, hnone⟩
  | index hk htext hl hi ihl ihi =>
    exact ⟨.index (hmark hk htext) (step hl ihl.1 ihl.2) (step hi ihi.1 ihi.2), hnone⟩

lemma isOperand_head (h : e.WellFormed) : e.head.IsOperand WellFormed :=
  (h.spine fun he _ _ => he).1

lemma areCalls (h : e.WellFormed) : AreCalls WellFormed e.calls :=
  (h.spine fun he _ _ => he).2

end Expr.WellFormed

/-! ## How expressions start -/

/-- The tokens that the text of an expression starts with. -/
def openingKinds : List TokenKind :=
  [.identifier, .integer, .string, .trueWord, .falseWord, .leftParen, .leftBracket]

lemma Expr.IsOperand.tokens_eq_cons {P : Expr → Prop} {e : Expr} (h : e.IsOperand P) :
    ∃ t ts, e.tokens = t :: ts ∧ t.kind ∈ openingKinds := by
  cases h with
  | literal htokens he =>
    refine ⟨_, [], htokens, ?_⟩
    have hk := kind_mem_of_ofToken_eq_ok he
    change e.token.kind ∈ _
    simp only [List.mem_cons, List.not_mem_nil, or_false] at hk
    simp only [openingKinds, List.mem_cons]
    tauto
  | prefixOp | infixOp | index => exact ⟨_, _, rfl, by decide⟩
  | array ho => exact ⟨_, _, rfl, by rw [ho]; decide⟩

/-- What starts with a token that starts no expression does not start with an expression. -/
lemma Expr.WellFormed.cons_ne {e : Expr} (h : e.WellFormed) {t : Token} {ts us : List Token}
    (ht : t.kind ∉ openingKinds) : t :: ts ≠ e.tokens ++ us := by
  intro heq
  obtain ⟨u, us', hu, hk⟩ := h.isOperand_head.tokens_eq_cons
  rw [h.tokens_eq, hu] at heq
  obtain ⟨rfl, -⟩ := List.cons.inj heq
  exact ht hk

section Operators

variable {e : Expr} {o t : Token}

/-- What is an expression by itself is no opening delimiter. -/
lemma unplaced_ne_mark_of_ofToken (h : Expr.ofToken t = .ok e) {c : Char} (hc : c ∈ ['(', '[']) :
    t.unplaced ≠ .mark c := by
  have hopening : ∀ c ∈ ['(', '['], Munch.markKind c ∉
      [TokenKind.identifier, .integer, .string, .trueWord, .falseWord] :=
    List.forall_mem_cons.2 ⟨by decide, List.forall_mem_singleton.2 (by decide)⟩
  intro ht
  have hk := kind_mem_of_ofToken_eq_ok h
  rw [Token.kind_of_unplaced ht] at hk
  exact hopening c hc hk

lemma kind_not_mem_of_prefixOperators (ho : (o.kind, o.text) ∈ prefixOperators) :
    o.unplaced.kind ∉ openingKinds := by
  change o.kind ∉ _
  simp only [prefixOperators, List.mem_cons, Prod.mk.injEq, List.not_mem_nil, or_false] at ho
  rcases ho with ⟨hk, -⟩ | ⟨hk, -⟩ <;> rw [hk] <;> decide

lemma kind_ne_of_infixOperators (ho : (o.kind, o.text) ∈ infixOperators) :
    o.kind ≠ .leftParen ∧ o.unplaced ≠ .mark '[' := by
  have hk := Token.infix_of_unplaced rfl ho
  refine ⟨fun h => ?_, fun h => ?_⟩
  · exact absurd (h ▸ hk) (by decide)
  · exact absurd (Token.kind_of_unplaced h ▸ hk) (by decide)

lemma kind_ne_of_bracket (ho : o.unplaced = .mark '[') : o.kind ≠ .leftParen := by
  rw [Token.kind_of_unplaced ho]
  decide

end Operators

/-! ## Tokens that tell what they are of -/

/-- No call follows. -/
def Stops (us : List Token) : Prop := ∀ u ∈ us.head?, u.kind ≠ .leftParen

lemma stops_cons {t : Token} (ht : t.kind ≠ .leftParen) (ts : List Token) : Stops (t :: ts) := by
  intro u hu
  obtain rfl : t = u := by simpa using hu
  exact ht

/-- The tokens tell the expression, in front of anything that opens no call. -/
structure Expr.Told (e : Expr) : Prop where
  wellFormed : e.WellFormed
  inj : ∀ ⦃e' : Expr⦄ ⦃us us' : List Token⦄, e'.WellFormed → Stops us → Stops us' →
    e.tokens ++ us = e'.tokens ++ us' → e.unplaced = e'.unplaced ∧ us = us'

/-- The tokens tell the operand, in front of anything. -/
def Expr.Delimited (e : Expr) : Prop :=
  ∀ ⦃e' : Expr⦄ ⦃us us' : List Token⦄, e'.IsOperand Expr.WellFormed →
    e.tokens ++ us = e'.tokens ++ us' → e.unplaced = e'.unplaced ∧ us = us'

section Parts

variable {l l' : Expr} {o o' t : Token} {us us' : List Token}

/-- A left operand and the operator behind it are told. -/
lemma Expr.Told.operator (h : l.Told) (h' : l'.WellFormed) (ho : o.kind ≠ .leftParen)
    (ho' : o'.kind ≠ .leftParen)
    (heq : l.tokens ++ o.unplaced :: us = l'.tokens ++ o'.unplaced :: us') :
    l.unplaced = l'.unplaced ∧ o.unplaced = o'.unplaced ∧ us = us' := by
  obtain ⟨hl, hrest⟩ := h.inj h' (stops_cons (t := o.unplaced) ho us)
    (stops_cons (t := o'.unplaced) ho' us') heq
  exact ⟨hl, List.cons.inj hrest⟩

/-- An expression in front of a closing delimiter is told. -/
lemma Expr.Told.closed (h : l.Told) (h' : l'.WellFormed) (ht : t.kind ≠ .leftParen)
    (heq : l.tokens ++ t :: us = l'.tokens ++ t :: us') : l.unplaced = l'.unplaced ∧ us = us' := by
  obtain ⟨hl, hrest⟩ := h.inj h' (stops_cons ht us) (stops_cons ht us') heq
  exact ⟨hl, (List.cons.inj hrest).2⟩

end Parts

section Lists

variable {es es' : List Expr} {c : Char} {us us' : List Token}

lemma tokensTail_cons (e : Expr) (es : List Expr) :
    tokensTail (e :: es) = .mark ',' :: tokensEach (e :: es) := by
  rw [tokensTail, tokensEach]

/-- Behind an expression in a list comes nothing that calls it. -/
lemma stops_tokensTail (hc : c ∈ [')', ']']) : Stops (tokensTail es ++ .mark c :: us) := by
  have hclosing : ∀ c ∈ [')', ']'], (Token.mark c).kind ≠ .leftParen :=
    List.forall_mem_cons.2 ⟨by decide, List.forall_mem_singleton.2 (by decide)⟩
  cases es with
  | nil => exact stops_cons (hclosing c hc) us
  | cons e es => exact stops_cons (by decide) _

/-- The tokens of a list tell the list in front of its closing delimiter. -/
lemma tokensEach_inj (h : ∀ e ∈ es, e.Told) (h' : ∀ e ∈ es', e.WellFormed) (hc : c ∈ [')', ']'])
    (heq : tokensEach es ++ .mark c :: us = tokensEach es' ++ .mark c :: us') :
    es.map Expr.unplaced = es'.map Expr.unplaced ∧ us = us' := by
  have hclosing : ∀ c ∈ [')', ']'], (Token.mark c).kind ∉ openingKinds ∧
      Token.mark ',' ≠ .mark c :=
    List.forall_mem_cons.2 ⟨by decide, List.forall_mem_singleton.2 (by decide)⟩
  obtain ⟨hclose, hcomma⟩ := hclosing c hc
  induction es generalizing es' with
  | nil =>
    cases es' with
    | nil => exact ⟨rfl, (List.cons.inj heq).2⟩
    | cons e' es' =>
      rw [tokensEach, tokensEach, List.append_assoc] at heq
      exact absurd heq ((h' e' List.mem_cons_self).cons_ne hclose)
  | cons e es ih =>
    cases es' with
    | nil =>
      rw [tokensEach, tokensEach, List.append_assoc] at heq
      exact absurd heq.symm ((h e List.mem_cons_self).wellFormed.cons_ne hclose)
    | cons e' es' =>
      rw [List.forall_mem_cons] at h h'
      rw [tokensEach, tokensEach, List.append_assoc, List.append_assoc] at heq
      obtain ⟨he, hrest⟩ := h.1.inj h'.1 (stops_tokensTail hc) (stops_tokensTail hc) heq
      suffices htail : es.map Expr.unplaced = es'.map Expr.unplaced ∧ us = us' by
        rw [List.map_cons, List.map_cons, he, htail.1]
        exact ⟨rfl, htail.2⟩
      -- Either both lists end here, or both go on behind a comma.
      cases es with
      | nil =>
        cases es' with
        | nil => exact ⟨rfl, (List.cons.inj hrest).2⟩
        | cons => exact absurd (List.cons.inj hrest).1.symm hcomma
      | cons =>
        cases es' with
        | nil => exact absurd (List.cons.inj hrest).1 hcomma
        | cons =>
          rw [tokensTail_cons, tokensTail_cons] at hrest
          exact ih h.2 h'.2 (List.cons.inj hrest).2

/-- The tokens of calls tell the calls in front of anything that opens no other. -/
lemma callTokens_inj {calls calls' : List (Token × List Expr)} (h : AreCalls Expr.Told calls)
    (h' : AreCalls Expr.WellFormed calls') (hus : Stops us) (hus' : Stops us')
    (heq : callTokens calls ++ us = callTokens calls' ++ us') :
    calls.map unplacedCall = calls'.map unplacedCall ∧ us = us' := by
  have hopens {c : Token × List Expr} {calls : List (Token × List Expr)} {us vs : List Token}
      (hc : c.1.unplaced = .mark '(') (hvs : callTokens (c :: calls) ++ us = vs) : ¬Stops vs := by
    subst hvs
    intro h
    exact h c.1.unplaced rfl (Token.kind_of_unplaced hc)
  induction calls generalizing calls' with
  | nil =>
    cases calls' with
    | nil => exact ⟨rfl, heq⟩
    | cons c' calls' => exact absurd hus (hopens (areCalls_cons.1 h').1.1 heq.symm)
  | cons c calls ih =>
    cases calls' with
    | nil => exact absurd hus' (hopens (areCalls_cons.1 h).1.1 heq)
    | cons c' calls' =>
      obtain ⟨⟨ho, hes⟩, hcalls⟩ := areCalls_cons.1 h
      obtain ⟨⟨ho', hes'⟩, hcalls'⟩ := areCalls_cons.1 h'
      have harguments : tokensEach c.2 ++ .mark ')' :: (callTokens calls ++ us) =
          tokensEach c'.2 ++ .mark ')' :: (callTokens calls' ++ us') := by
        simpa [callTokens, ho, ho'] using heq
      obtain ⟨hargs, hrest⟩ := tokensEach_inj hes hes' (by decide) harguments
      obtain ⟨hmore, hend⟩ := ih hcalls hcalls' hrest
      rw [List.map_cons, List.map_cons, hmore, unplacedCall, unplacedCall, hargs, ho, ho']
      exact ⟨rfl, hend⟩

end Lists

/-! ## Operands -/

/-- What stands behind the parenthesis that an operand starts with, and what it is part of. -/
inductive Inside (ts us : List Token) : Expr → Prop where
  | prefixOp {o : Token} {r : Expr} :
      (o.kind, o.text) ∈ prefixOperators → r.WellFormed →
      ts = o.unplaced :: (r.tokens ++ .mark ')' :: us) → Inside ts us (.prefixOp o o.text r)
  | infixOp {o : Token} {l r : Expr} :
      (o.kind, o.text) ∈ infixOperators → l.WellFormed → r.WellFormed →
      ts = l.tokens ++ o.unplaced :: (r.tokens ++ .mark ')' :: us) →
      Inside ts us (.infixOp o o.text l r)
  | index {o : Token} {l i : Expr} :
      o.unplaced = .mark '[' → l.WellFormed → i.WellFormed →
      ts = l.tokens ++ o.unplaced :: (i.tokens ++ .mark ']' :: .mark ')' :: us) →
      Inside ts us (.index o l i)

section Operands

variable {e l r i : Expr} {o : Token} {ts us : List Token}

/-- An operand that starts with a parenthesis is an operation, or an element of something. -/
lemma Expr.IsOperand.inside (h : e.IsOperand Expr.WellFormed)
    (heq : .mark '(' :: ts = e.tokens ++ us) : Inside ts us e := by
  cases h with
  | literal htokens he =>
    rw [htokens] at heq
    exact absurd (List.cons.inj heq).1.symm (unplaced_ne_mark_of_ofToken he (by decide))
  | array ho => exact absurd ((List.cons.inj heq).1.trans ho) (by decide)
  | prefixOp ho hr => exact .prefixOp ho hr (by simpa [Expr.tokens] using heq)
  | infixOp ho hl hr => exact .infixOp ho hl hr (by simpa [Expr.tokens] using heq)
  | index ho hl hi => exact .index ho hl hi (by simpa [Expr.tokens] using heq)

lemma delimited_literal (htokens : e.tokens = [e.token.unplaced])
    (he : Expr.ofToken e.token = .ok e) : e.Delimited := by
  intro e' us us' h' heq
  rw [htokens] at heq
  cases h' with
  | literal htokens' he' =>
    rw [htokens'] at heq
    obtain ⟨htoken, hus⟩ := List.cons.inj heq
    have hsame := Expr.ofToken_unplaced he
    rw [htoken, Expr.ofToken_unplaced he'] at hsame
    exact ⟨(Except.ok.inj hsame).symm, hus⟩
  | prefixOp | infixOp | index =>
    exact absurd (List.cons.inj heq).1 (unplaced_ne_mark_of_ofToken he (by decide))
  | array ho' =>
    exact absurd ((List.cons.inj heq).1.trans ho') (unplaced_ne_mark_of_ofToken he (by decide))

lemma delimited_array {es : List Expr} (ho : o.unplaced = .mark '[') (h : ∀ e ∈ es, e.Told) :
    (Expr.array o es).Delimited := by
  intro e' us us' h' heq
  have htokens : (Expr.array o es).tokens ++ us =
      .mark '[' :: (tokensEach es ++ .mark ']' :: us) := by
    simp [Expr.tokens, ho]
  rw [htokens] at heq
  cases h' with
  | literal htokens' he' =>
    rw [htokens'] at heq
    exact absurd (List.cons.inj heq).1.symm (unplaced_ne_mark_of_ofToken he' (by decide))
  | prefixOp | infixOp | index => exact absurd (List.cons.inj heq).1 (by decide)
  | @array o' es' ho' hes' =>
    have hlist : tokensEach es ++ .mark ']' :: us = tokensEach es' ++ .mark ']' :: us' := by
      simpa [Expr.tokens] using (List.cons.inj heq).2
    obtain ⟨hes, hus⟩ := tokensEach_inj h hes' (by decide) hlist
    rw [Expr.unplaced_array, Expr.unplaced_array, ho, ho', hes]
    exact ⟨rfl, hus⟩

lemma delimited_prefixOp (ho : (o.kind, o.text) ∈ prefixOperators) (hr : r.Told) :
    (Expr.prefixOp o o.text r).Delimited := by
  intro e' us us' h' heq
  have htokens : (Expr.prefixOp o o.text r).tokens ++ us =
      .mark '(' :: o.unplaced :: (r.tokens ++ .mark ')' :: us) := by
    simp [Expr.tokens]
  cases h'.inside (htokens ▸ heq) with
  | @prefixOp o' r' _ hr' hinside =>
    obtain ⟨hoo, hrest⟩ := List.cons.inj hinside
    obtain ⟨hrr, hus⟩ := hr.closed hr' (by decide) hrest
    change Expr.prefixOp o.unplaced o.text r.unplaced = .prefixOp o'.unplaced o'.text r'.unplaced ∧ _
    rw [hoo, hrr, Token.text_of_unplaced hoo]
    exact ⟨rfl, hus⟩
  | infixOp _ hl' _ hinside | index _ hl' _ hinside =>
    exact absurd hinside (hl'.cons_ne (kind_not_mem_of_prefixOperators ho))

lemma delimited_infixOp (ho : (o.kind, o.text) ∈ infixOperators) (hl : l.Told) (hr : r.Told) :
    (Expr.infixOp o o.text l r).Delimited := by
  intro e' us us' h' heq
  have hne := kind_ne_of_infixOperators ho
  have htokens : (Expr.infixOp o o.text l r).tokens ++ us =
      .mark '(' :: (l.tokens ++ o.unplaced :: (r.tokens ++ .mark ')' :: us)) := by
    simp [Expr.tokens]
  cases h'.inside (htokens ▸ heq) with
  | prefixOp ho' _ hinside =>
    exact absurd hinside.symm (hl.wellFormed.cons_ne (kind_not_mem_of_prefixOperators ho'))
  | @infixOp o' l' r' ho' hl' hr' hinside =>
    obtain ⟨hll, hoo, hrest⟩ := hl.operator hl' hne.1 (kind_ne_of_infixOperators ho').1 hinside
    obtain ⟨hrr, hus⟩ := hr.closed hr' (by decide) hrest
    change Expr.infixOp o.unplaced o.text l.unplaced r.unplaced =
      .infixOp o'.unplaced o'.text l'.unplaced r'.unplaced ∧ _
    rw [hoo, hll, hrr, Token.text_of_unplaced hoo]
    exact ⟨rfl, hus⟩
  | index ho' hl' _ hinside =>
    obtain ⟨-, hoo, -⟩ := hl.operator hl' hne.1 (kind_ne_of_bracket ho') hinside
    exact absurd (hoo.trans ho') hne.2

lemma delimited_index (ho : o.unplaced = .mark '[') (hl : l.Told) (hi : i.Told) :
    (Expr.index o l i).Delimited := by
  intro e' us us' h' heq
  have hne := kind_ne_of_bracket ho
  have htokens : (Expr.index o l i).tokens ++ us =
      .mark '(' :: (l.tokens ++ o.unplaced :: (i.tokens ++ .mark ']' :: .mark ')' :: us)) := by
    simp [Expr.tokens]
  cases h'.inside (htokens ▸ heq) with
  | prefixOp ho' _ hinside =>
    exact absurd hinside.symm (hl.wellFormed.cons_ne (kind_not_mem_of_prefixOperators ho'))
  | infixOp ho' hl' _ hinside =>
    obtain ⟨hparen', hbracket'⟩ := kind_ne_of_infixOperators ho'
    obtain ⟨-, hoo, -⟩ := hl.operator hl' hne hparen' hinside
    exact absurd (hoo.symm.trans ho) hbracket'
  | @index o' l' i' ho' hl' hi' hinside =>
    obtain ⟨hll, hoo, hrest⟩ := hl.operator hl' hne (kind_ne_of_bracket ho') hinside
    obtain ⟨hii, hclose⟩ := hi.closed hi' (by decide) hrest
    change Expr.index o.unplaced l.unplaced i.unplaced =
      .index o'.unplaced l'.unplaced i'.unplaced ∧ _
    rw [hoo, hll, hii]
    exact ⟨rfl, (List.cons.inj hclose).2⟩

/-- An operand whose parts are told is told, whatever stands behind it. -/
theorem Expr.IsOperand.delimited (h : e.IsOperand Expr.Told) : e.Delimited := by
  cases h with
  | literal htokens he => exact delimited_literal htokens he
  | prefixOp ho hr => exact delimited_prefixOp ho hr
  | infixOp ho hl hr => exact delimited_infixOp ho hl hr
  | array ho hes => exact delimited_array ho hes
  | index ho hl hi => exact delimited_index ho hl hi

end Operands

/-! ## Expressions -/

/-- An expression is told by its tokens if its head and the arguments of its calls are. -/
lemma Expr.WellFormed.told_of_parts {e : Expr} (h : e.WellFormed) (hhead : e.head.IsOperand Told)
    (hcalls : AreCalls Told e.calls) : e.Told := by
  refine ⟨h, fun e' us us' h' hus hus' heq => ?_⟩
  rw [h.tokens_eq, h'.tokens_eq, List.append_assoc, List.append_assoc] at heq
  obtain ⟨hf, hrest⟩ := hhead.delimited h'.isOperand_head heq
  obtain ⟨hcc, hend⟩ := callTokens_inj hcalls h'.areCalls hus hus' hrest
  refine ⟨?_, hend⟩
  calc e.unplaced = (e.head.applied e.calls).unplaced := by rw [h.applied_head]
    _ = (e'.head.applied e'.calls).unplaced := by rw [unplaced_applied, unplaced_applied, hf, hcc]
    _ = e'.unplaced := by rw [h'.applied_head]

/-- The tokens of an expression tell the expression, in front of anything that opens no call. -/
theorem Expr.WellFormed.told {e : Expr} (h : e.WellFormed) : e.Told := by
  obtain ⟨hhead, hcalls⟩ := h.spine told_of_parts
  exact h.told_of_parts hhead hcalls

/-- Rendering is unambiguous.  Two well-formed expressions, however deep, have the same text exactly if
they are the same but for their places. -/
theorem Expr.render_eq_iff {e e' : Expr} (h : e.WellFormed) (h' : e'.WellFormed) :
    e.render = e'.render ↔ e.unplaced = e'.unplaced := by
  constructor
  · intro hrender
    have htokens : e.tokens = e'.tokens := by
      rw [← h.spells.tokens_eq default 0, hrender, h'.spells.tokens_eq default 0]
    have hstops : Stops [] := fun _ hu => absurd hu (by simp)
    exact (h.told.inj h' hstops hstops (congrArg (· ++ []) htokens)).1
  · intro hunplaced
    rw [← Expr.render_relocate (fun _ => default) e, ← Expr.render_relocate (fun _ => default) e']
    exact congrArg Expr.render hunplaced

/-- The call `f("), (")`, all of it at one place. -/
def callOnDelimiters (p : Position) : Expr :=
  .call ⟨.leftParen, "(", ⟨p, p⟩⟩ (.identifier ⟨⟨.identifier, "f", ⟨p, p⟩⟩, "f"⟩)
    [.string ⟨.string, "), (", ⟨p, p⟩⟩ "), ("]

lemma callOnDelimiters_wellFormed (p : Position) : (callOnDelimiters p).WellFormed := by
  have hname : IsName "f" := ⟨by decide, List.all_eq_true.1 (by decide), by decide⟩
  refine .call rfl rfl (.identifier ⟨rfl, rfl, hname⟩) ?_
  exact List.forall_mem_singleton.2 (.string rfl rfl (by decide))

/-- A string that reads like the end of a list, in calls at two places. -/
theorem render_callOnDelimiters :
    callOnDelimiters ⟨0, "a"⟩ ≠ callOnDelimiters ⟨7, "b"⟩ ∧
      (callOnDelimiters ⟨0, "a"⟩).WellFormed ∧ (callOnDelimiters ⟨7, "b"⟩).WellFormed ∧
      (callOnDelimiters ⟨0, "a"⟩).render = (callOnDelimiters ⟨7, "b"⟩).render ∧
      (callOnDelimiters ⟨0, "a"⟩).unplaced = (callOnDelimiters ⟨7, "b"⟩).unplaced := by
  have h := callOnDelimiters_wellFormed ⟨0, "a"⟩
  have h' := callOnDelimiters_wellFormed ⟨7, "b"⟩
  have hrender : (callOnDelimiters ⟨0, "a"⟩).render = (callOnDelimiters ⟨7, "b"⟩).render := by
    decide +kernel
  refine ⟨fun heq => ?_, h, h', hrender, (Expr.render_eq_iff h h').1 hrender⟩
  have hoffset := congrArg (fun e => e.token.span.start.offset) heq
  exact absurd hoffset (by decide)

end ScriptSyntax
