import ScriptSyntax.Proofs.Grammar.Reading
import ScriptSyntax.Proofs.Parser.Success

/-!
# Where a rule stops

A rule that ends well stops on the last token of what it parsed, so that the token behind it is the
lookahead.  What this token is depends on the rule: an expression ends with a constant or with a closing
delimiter, and a statement with the end of its expression or with a semicolon; only a `return` that
returns nothing may end with the word itself.  An expression goes on as long as it can: the token behind
it holds no tighter than was asked for.  A block ends on its closing brace, and fails just where there is
none.

Nothing here depends on what was found wrong on the way.

## Main statements

* `Rule.stops_expressionAt`: the last token of an expression, and the token behind it.
* `Rule.kind_of_block_eq_ok`, `Rule.of_block_eq_error`: the two ways in which a block ends.
* `Rule.rules_stop`: where expressions, statements and blocks stop.
-/

namespace ScriptSyntax

lemma Power.not_lt {a b : Power} : ¬a < b ↔ b ≤ a := Nat.not_lt

namespace Rule

open Grammar

/-- What `sub` parses well ends with a token that an expression ends with, and the token behind it does
not go on with it. -/
def StopsExpressions (sub : Subparser) : Prop :=
  ∀ ⦃power : Power⦄ ⦃p : Parser⦄ ⦃e : Expr⦄ ⦃q : Parser⦄, sub power p = .ok e q →
    q.current.kind ∈ endKinds ∧ q.lookahead.kind.power ≤ power

variable {sub : Subparser} {power : Power} {p q : Parser} {e left : Expr} {es : List Expr} {b : Block}
  {alt : Option Block} {s : Stmt} {d : Diagnostic} {close : TokenKind}

/-! ## Statements -/

/-- A statement ends with a semicolon, which may be missing in front of a closer. -/
lemma stops_expectEnd {u : Unit} (h : expectEnd p = .ok u q) :
    q.current.kind = .semicolon ∨ q = p ∧ q.lookahead.kind ∈ closers := by
  rw [expectEnd_apply] at h
  split at h
  · rename_i hsemi
    cases h
    rw [Parser.current_advance]
    exact .inl (by simpa [Parser.lookaheadIs] using hsemi)
  · split at h
    · rename_i hcloser
      cases h
      exact .inr ⟨rfl, by simpa [Token.isOneOf] using hcloser⟩
    · cases h

/-- What is behind a `let`, and what its value ends with. -/
lemma stops_letStatement (hsub : StopsExpressions sub) (h : letStatement sub p = .ok s q) :
    q.current.kind = .semicolon ∨ q.current.kind ∈ endKinds ∧ q.lookahead.kind ∈ closers := by
  rw [letStatement, get_bind] at h
  obtain ⟨-, h⟩ := identifier_bind_eq_ok_iff.1 h
  obtain ⟨-, h⟩ := expect_bind_eq_ok_iff.1 h
  rw [advance_bind] at h
  obtain ⟨value, r, hvalue, h⟩ := bind_eq_ok_iff.1 h
  obtain ⟨u, r', hend, h⟩ := bind_eq_ok_iff.1 h
  obtain ⟨-, rfl⟩ := pure_eq_ok_iff.1 h
  rcases stops_expectEnd hend with hsemi | ⟨rfl, hcloser⟩
  · exact .inl hsemi
  · exact .inr ⟨(hsub hvalue).1, hcloser⟩

/-- What is behind a `return`, and what it ends with: the end of its value, or the word itself. -/
lemma stops_returnStatement (hsub : StopsExpressions sub) (h : returnStatement sub p = .ok s q) :
    q.current.kind = .semicolon ∨
      (q.current.kind ∈ endKinds ∨ q = p ∧ s = .return p.current none) ∧
        q.lookahead.kind ∈ closers := by
  rw [returnStatement, get_bind] at h
  obtain ⟨value, r, hvalue, h⟩ := bind_eq_ok_iff.1 h
  obtain ⟨u, r', hend, h⟩ := bind_eq_ok_iff.1 h
  obtain ⟨rfl, rfl⟩ := pure_eq_ok_iff.1 h
  rcases stops_expectEnd hend with hsemi | ⟨rfl, hcloser⟩
  · exact .inl hsemi
  · refine .inr ⟨?_, hcloser⟩
    rw [returnValue, get_bind] at hvalue
    split at hvalue
    · obtain ⟨rfl, rfl⟩ := pure_eq_ok_iff.1 hvalue
      exact .inr ⟨rfl, rfl⟩
    · rw [advance_bind] at hvalue
      obtain ⟨e, he, -⟩ := map_eq_ok_iff.1 hvalue
      exact .inl (hsub he).1

lemma stops_expressionStatement (hsub : StopsExpressions sub)
    (h : expressionStatement sub p = .ok s q) :
    q.current.kind = .semicolon ∨ q.current.kind ∈ endKinds := by
  rw [expressionStatement, get_bind] at h
  obtain ⟨e, r, he, h⟩ := bind_eq_ok_iff.1 h
  rw [get_bind] at h
  split at h
  · rename_i hsemi
    obtain ⟨-, rfl⟩ := pure_eq_ok_iff.1 h
    rw [Parser.current_advance]
    exact .inl (by simpa [Parser.lookaheadIs] using hsemi)
  · obtain ⟨-, rfl⟩ := pure_eq_ok_iff.1 h
    exact .inr (hsub he).1

/-- The last token of a statement. -/
theorem stops_statement (hsub : StopsExpressions sub) (h : statement sub p = .ok s q) :
    q.current.kind ∈ endKinds ∨ q.current.kind = .semicolon ∨
      s = .return q.current none ∧ q.current.kind = .returnWord ∧ q.lookahead.kind ∈ closers := by
  rw [statement, get_bind] at h
  by_cases hl : p.current.kind = .letWord
  · rw [hl] at h
    rcases stops_letStatement hsub h with hsemi | ⟨hlast, -⟩
    · exact .inr (.inl hsemi)
    · exact .inl hlast
  · by_cases hr : p.current.kind = .returnWord
    · rw [hr] at h
      rcases stops_returnStatement hsub h with hsemi | ⟨hlast | ⟨rfl, hs⟩, hcloser⟩
      · exact .inr (.inl hsemi)
      · exact .inl hlast
      · exact .inr (.inr ⟨hs, hr, hcloser⟩)
    · have hnone : statement? sub p.current.kind = none := by
        generalize p.current.kind = kind at hl hr
        cases kind <;> first | rfl | contradiction
      rw [hnone] at h
      rcases stops_expressionStatement hsub h with hsemi | hlast
      · exact .inr (.inl hsemi)
      · exact .inl hlast

/-! ## Blocks -/

section Blocks

variable [∀ power, Moves (sub power)]

/-- A block ends well on its closing brace. -/
theorem kind_of_block_eq_ok (h : block sub p = .ok b q) : q.current.kind = .rightBrace := by
  have hend := atListEnd_statementList sub true p.advance
  rw [block_eq] at h
  split at h
  · cases h
  · rename_i hopen
    cases h
    have hbrace : (statementList sub true p.advance).2.currentIs .rightBrace = true := by
      simpa [atListEnd, hopen] using hend
    exact beq_iff_eq.1 hbrace

omit [∀ power, Moves (sub power)] in
/-- A block fails at the end of the source, for want of its closing brace. -/
theorem of_block_eq_error (h : block sub p = .error d q) :
    q.current.kind = .endOfInput ∧ d = ⟨.expectedToken .rightBrace .endOfInput, q.position⟩ := by
  rw [block_eq] at h
  split at h
  · rename_i hend
    cases h
    exact ⟨by simpa [Parser.currentIs] using hend, rfl⟩
  · cases h

lemma kind_of_alternative_eq_ok (h : alternative sub p = .ok alt q) :
    q = p ∨ q.current.kind = .rightBrace := by
  rw [alternative, get_bind] at h
  split at h
  · rw [advance_bind] at h
    obtain ⟨-, h⟩ := expect_bind_eq_ok_iff.1 h
    obtain ⟨b, hb, -⟩ := map_eq_ok_iff.1 h
    exact .inr (kind_of_block_eq_ok hb)
  · obtain ⟨-, rfl⟩ := pure_eq_ok_iff.1 h
    exact .inl rfl

end Blocks

/-! ## Operands and operators -/

/-- Insisting on a token as the last step of a rule. -/
lemma kind_of_expect_pure {α : Type} {kind : TokenKind} {a a' : α}
    (h : (expect kind >>= fun _ => pure a) p = .ok a' q) : q.current.kind = kind := by
  obtain ⟨hk, h⟩ := expect_bind_eq_ok_iff.1 h
  obtain ⟨-, rfl⟩ := pure_eq_ok_iff.1 h
  rwa [Parser.current_advance]

/-- A list of expressions ends with its closing delimiter. -/
lemma kind_of_items_eq_ok (h : items sub close p = .ok es q) : q.current.kind = close := by
  rw [items, get_bind, advance_bind] at h
  split at h
  · rename_i hempty
    obtain ⟨-, rfl⟩ := pure_eq_ok_iff.1 h
    rw [Parser.current_advance]
    simpa [Parser.lookaheadIs] using hempty
  · obtain ⟨e, r, -, h⟩ := bind_eq_ok_iff.1 h
    rw [get_bind] at h
    obtain ⟨es', r', -, h⟩ := bind_eq_ok_iff.1 h
    exact kind_of_expect_pure h

/-- An expression of one token stays on it. -/
lemma eq_of_literal_eq_ok (h : literal p = .ok e q) : q = p := by
  rw [literal, get_bind] at h
  cases he : Expr.ofToken p.current with
  | ok e' =>
    rw [he] at h
    exact (pure_eq_ok_iff.1 h).2.symm
  | error fault =>
    rw [he] at h
    cases h

variable [∀ power, Moves (sub power)]

/-- The last token of an operand. -/
lemma stops_operand (hsub : StopsExpressions sub) {rule : ParseM Expr}
    (hrule : operand? sub p.current.kind = some rule) (h : rule p = .ok e q) :
    q.current.kind ∈ endKinds := by
  rcases operand?_eq_some sub hrule with ⟨hk, rfl⟩ | ⟨-, rfl⟩ | ⟨-, rfl⟩ | ⟨-, rfl⟩ | ⟨-, rfl⟩ |
    ⟨-, rfl⟩
  · rw [eq_of_literal_eq_ok h]
    exact List.mem_append_left [.rightParen, .rightBracket, .rightBrace] hk
  · rw [prefixed, get_bind, advance_bind] at h
    obtain ⟨right, r, hright, h⟩ := bind_eq_ok_iff.1 h
    obtain ⟨-, rfl⟩ := pure_eq_ok_iff.1 h
    exact (hsub hright).1
  · rw [group, advance_bind] at h
    obtain ⟨inner, r, -, h⟩ := bind_eq_ok_iff.1 h
    rw [kind_of_expect_pure h]
    decide
  · rw [conditional, get_bind] at h
    obtain ⟨-, h⟩ := expect_bind_eq_ok_iff.1 h
    rw [advance_bind] at h
    obtain ⟨condition, r, -, h⟩ := bind_eq_ok_iff.1 h
    obtain ⟨-, h⟩ := expect_bind_eq_ok_iff.1 h
    obtain ⟨-, h⟩ := expect_bind_eq_ok_iff.1 h
    obtain ⟨consequence, r', hconsequence, h⟩ := bind_eq_ok_iff.1 h
    obtain ⟨alt, r'', halt, h⟩ := bind_eq_ok_iff.1 h
    obtain ⟨-, rfl⟩ := pure_eq_ok_iff.1 h
    have hk : r''.current.kind = .rightBrace := by
      rcases kind_of_alternative_eq_ok halt with rfl | hk
      · exact kind_of_block_eq_ok hconsequence
      · exact hk
    rw [hk]
    decide
  · rw [function, get_bind] at h
    obtain ⟨-, h⟩ := expect_bind_eq_ok_iff.1 h
    obtain ⟨ids, r, -, h⟩ := bind_eq_ok_iff.1 h
    obtain ⟨-, h⟩ := expect_bind_eq_ok_iff.1 h
    obtain ⟨body, r', hbody, h⟩ := bind_eq_ok_iff.1 h
    obtain ⟨-, rfl⟩ := pure_eq_ok_iff.1 h
    rw [kind_of_block_eq_ok hbody]
    decide
  · rw [array, get_bind] at h
    obtain ⟨elements, r, helements, h⟩ := bind_eq_ok_iff.1 h
    obtain ⟨-, rfl⟩ := pure_eq_ok_iff.1 h
    rw [kind_of_items_eq_ok helements]
    decide

omit [∀ power, Moves (sub power)] in
/-- The last token of what an operator is applied to behind it. -/
lemma stops_operator (hsub : StopsExpressions sub) {kind : TokenKind}
    {rule : Expr → Power → ParseM Expr} (hrule : operator? sub kind = some rule)
    (h : rule left power p = .ok e q) : q.current.kind ∈ endKinds := by
  rcases operator?_eq_some sub hrule with ⟨-, rfl⟩ | ⟨-, rfl⟩ | ⟨-, rfl⟩
  · rw [infixed, get_bind, advance_bind] at h
    obtain ⟨right, r, hright, h⟩ := bind_eq_ok_iff.1 h
    obtain ⟨-, rfl⟩ := pure_eq_ok_iff.1 h
    exact (hsub hright).1
  · dsimp only at h
    rw [call, get_bind] at h
    obtain ⟨arguments, r, harguments, h⟩ := bind_eq_ok_iff.1 h
    obtain ⟨-, rfl⟩ := pure_eq_ok_iff.1 h
    rw [kind_of_items_eq_ok harguments]
    decide
  · dsimp only at h
    rw [index, get_bind, advance_bind] at h
    obtain ⟨place, r, -, h⟩ := bind_eq_ok_iff.1 h
    rw [kind_of_expect_pure h]
    decide

/-- A chain of operators stops where the next token does not hold tighter than `power`. -/
lemma stops_operatorChain (hsub : StopsExpressions sub) (hp : p.current.kind ∈ endKinds)
    (h : operatorChain sub power left p = .ok e q) :
    q.current.kind ∈ endKinds ∧ q.lookahead.kind.power ≤ power := by
  induction hlen : p.lexemes.length using Nat.strong_induction_on generalizing p left with
  | h n ih =>
    subst hlen
    rw [operatorChain_eq, operatorRound] at h
    split at h
    · rename_i hpower
      cases hrule : operator? sub p.lookahead.kind with
      | none =>
        -- a token without a rule of its own holds no tighter than anything
        have hlow : ¬Power.lowest < p.lookahead.kind.power := by
          rw [← isSome_operator?_iff sub, hrule]
          exact Bool.false_ne_true
        exact absurd ((Nat.zero_le _).trans_lt hpower) hlow
      | some rule =>
        rw [hrule] at h
        obtain ⟨combined, r, hcombined, h⟩ := bind_eq_ok_iff.1 h
        exact ih _ (length_lt_of_operator hrule hcombined) (stops_operator hsub hrule hcombined) h rfl
    · rename_i hpower
      cases h
      exact ⟨hp, Power.not_lt.1 hpower⟩

omit [∀ power, Moves (sub power)] in
/-- The last token of an expression, and the token behind it. -/
theorem stops_expressionAt (levels : Nat) : StopsExpressions (expressionAt levels) := by
  induction levels with
  | zero =>
    intro power p e q h
    rw [expressionAt_zero] at h
    cases h
  | succ levels ih =>
    intro power p e q h
    obtain ⟨q, hq, rfl⟩ := nested_eq_ok h
    rw [chain_eq] at hq
    split at hq
    · cases hq
    · rename_i rule hrule
      obtain ⟨left, r, hleft, hchain⟩ := bind_eq_ok_iff.1 hq
      have hstops := stops_operatorChain ih (stops_operand ih hrule hleft) hchain
      exact hstops

omit [∀ power, Moves (sub power)] in
theorem stops_expression : StopsExpressions expression := fun _ p _ _ h =>
  stops_expressionAt (maxNesting - p.depth) h

omit [∀ power, Moves (sub power)] in
/-- Where rules stop, whatever was found wrong on the way.  An expression stops on its last token, and
goes on as long as it can; so does a statement, behind its semicolon if there is one; a `let` or `return`
that is without one has a closer behind it; and a block ends on its closing brace, or fails at the end of
the source. -/
theorem rules_stop (p : Parser) :
    (∀ power e q, expression power p = .ok e q →
      q.current.kind ∈ endKinds ∧ q.lookahead.kind.power ≤ power) ∧
    (∀ s q, statement expression p = .ok s q →
      q.current.kind ∈ endKinds ∨ q.current.kind = .semicolon ∨
        s = .return q.current none ∧ q.current.kind = .returnWord ∧ q.lookahead.kind ∈ closers) ∧
    (∀ s q, letStatement expression p = .ok s q →
      q.current.kind = .semicolon ∨ q.lookahead.kind ∈ closers) ∧
    (∀ s q, returnStatement expression p = .ok s q →
      q.current.kind = .semicolon ∨ q.lookahead.kind ∈ closers) ∧
    (∀ b q, block expression p = .ok b q → q.current.kind = .rightBrace) ∧
    ∀ d q, block expression p = .error d q →
      q.current.kind = .endOfInput ∧ d = ⟨.expectedToken .rightBrace .endOfInput, q.position⟩ :=
  ⟨fun _ _ _ h => stops_expression h, fun _ _ h => stops_statement stops_expression h,
    fun _ _ h => (stops_letStatement stops_expression h).imp_right And.right,
    fun _ _ h => (stops_returnStatement stops_expression h).imp_right And.right,
    fun _ _ h => kind_of_block_eq_ok h, fun _ _ h => of_block_eq_error h⟩

/-- A call of a function with a faulty statement in its body, asked for what holds tighter than a sum; a
`return` in front of a brace; a block that a missing operand closes, and one that nothing closes. -/
theorem rules_stop_recovered :
    (∃ e q, expression .additive (.ofSource "fn() \x7b let = 1; x \x7d(a) * b + c" none) = .ok e q ∧
      q.current.kind ∈ endKinds ∧ q.lookahead.kind.power ≤ .additive) ∧
    (∃ s q, statement expression (.ofSource "return \x7d" none) = .ok s q ∧
      (q.current.kind ∈ endKinds ∨ q.current.kind = .semicolon ∨
        s = .return q.current none ∧ q.current.kind = .returnWord ∧ q.lookahead.kind ∈ closers)) ∧
    (∃ s q, letStatement expression (.ofSource "let x = 1 \x7d" none) = .ok s q ∧
      (q.current.kind = .semicolon ∨ q.lookahead.kind ∈ closers)) ∧
    (∃ s q, returnStatement expression (.ofSource "return x;" none) = .ok s q ∧
      (q.current.kind = .semicolon ∨ q.lookahead.kind ∈ closers)) ∧
    (∃ b q, block expression (.ofSource "\x7b x + \x7d" none) = .ok b q ∧
      q.current.kind = .rightBrace) ∧
    ∃ d q, block expression (.ofSource "\x7b let = 1; x" none) = .error d q ∧
      q.current.kind = .endOfInput ∧ d = ⟨.expectedToken .rightBrace .endOfInput, q.position⟩ := by
  obtain ⟨e, q₁, he⟩ : ∃ e q, expression .additive
      (.ofSource "fn() \x7b let = 1; x \x7d(a) * b + c" none) = .ok e q := ⟨_, _, rfl⟩
  obtain ⟨s₂, q₂, hs⟩ : ∃ s q, statement expression (.ofSource "return \x7d" none) = .ok s q :=
    ⟨_, _, rfl⟩
  obtain ⟨s₃, q₃, hlet⟩ : ∃ s q,
      letStatement expression (.ofSource "let x = 1 \x7d" none) = .ok s q := ⟨_, _, rfl⟩
  obtain ⟨s₄, q₄, hreturn⟩ : ∃ s q,
      returnStatement expression (.ofSource "return x;" none) = .ok s q := ⟨_, _, rfl⟩
  obtain ⟨b, q₅, hclosed⟩ : ∃ b q, block expression (.ofSource "\x7b x + \x7d" none) = .ok b q :=
    ⟨_, _, rfl⟩
  obtain ⟨d, q₆, hopen⟩ : ∃ d q,
      block expression (.ofSource "\x7b let = 1; x" none) = .error d q := ⟨_, _, rfl⟩
  exact ⟨⟨e, q₁, he, (rules_stop _).1 _ e q₁ he⟩, ⟨s₂, q₂, hs, (rules_stop _).2.1 s₂ q₂ hs⟩,
    ⟨s₃, q₃, hlet, (rules_stop _).2.2.1 s₃ q₃ hlet⟩,
    ⟨s₄, q₄, hreturn, (rules_stop _).2.2.2.1 s₄ q₄ hreturn⟩,
    ⟨b, q₅, hclosed, (rules_stop _).2.2.2.2.1 b q₅ hclosed⟩,
    d, q₆, hopen, (rules_stop _).2.2.2.2.2 d q₆ hopen⟩

end Rule

end ScriptSyntax
