import ScriptSyntax.Proofs.Grammar.Predicted
import ScriptSyntax.Proofs.Parser.Course
import ScriptSyntax.Proofs.Parser.Outcome

/-!
# What a parser awaits

As long as it has found nothing wrong, the parser is a reader with goals: `s.Awaits gs p` says that `p`
has come from `s` with the goals `gs` left before its current token.  Each rule takes its goal away, or
the first diagnostic about the grammar that it leaves behind is about a token with which the goals
cannot go on, or about levels of nesting.  What happens after that does not matter here: diagnostics are
only added, so that the first one stays the first.

A rule begins on the first token of its construct and ends on the last, so that the goals left behind a
rule that ends at `q` are those of `q.advance`.

## Main statements

* `Rule.Meets.bind`: what a sequence of two rules meets.
* `Rule.meets_expressionAt`: the expression that a parser awaits is met.
* `Rule.statementList_awaits`: a list of statements goes on until it ends, or something is wrong.
-/

namespace ScriptSyntax

open Grammar

/-- The first diagnostic about the grammar. -/
def firstFault? (ds : List Diagnostic) : Option Diagnostic := ds.find? fun d => !d.isLexical

lemma firstFault?_of_isPrefix {ds es : List Diagnostic} {d : Diagnostic}
    (h : firstFault? ds = some d) (hmore : ds <+: es) : firstFault? es = some d := by
  obtain ⟨more, rfl⟩ := hmore
  rw [firstFault?, List.find?_append]
  rw [firstFault?] at h
  rw [h, Option.some_or]

/-- Behind diagnostics about tokens by themselves the first one about the grammar is the next. -/
lemma firstFault?_concat {ds : List Diagnostic} {d : Diagnostic}
    (hds : ∀ e ∈ ds, e.isLexical = true) (hd : d.isLexical = false) :
    firstFault? (ds ++ [d]) = some d := by
  have hnone : ds.find? (fun d => !d.isLexical) = none :=
    List.find?_eq_none.2 fun e he => by simp [hds e he]
  rw [firstFault?, List.find?_append, hnone]
  simp [hd]

namespace Parser

/-! ## Goals of a parser -/

/-- The parser `p` has come from `s`, has found nothing wrong but with tokens by themselves, and has
the goals `gs` left, from its current token on. -/
structure Awaits (s : Parser) (gs : List Goal) (p : Parser) : Prop where
  finish_eq : p.finish = s.finish
  isLexical : ∀ d ∈ p.diagnostics.toList, d.isLexical = true
  run : ∃ ts, s.tokens = ts ++ p.tokens ∧ Run p.current.kind [.program] ts gs

/-- The diagnostic is about the current token of a parser whose goals do not go on with that token, or
about levels of nesting. -/
def Blames (s : Parser) (d : Diagnostic) : Prop :=
  ∃ gs p, s.Awaits gs p ∧ d.position = p.position ∧
    ((∃ limit, d.fault = .nestingTooDeep limit) ∨ Rejects gs p.current)

lemma lookaheadIs_iff {p : Parser} {kind : TokenKind} :
    p.lookaheadIs kind = true ↔ p.advance.current.kind = kind := by
  rw [current_advance, lookaheadIs, beq_iff_eq]

lemma isOneOf_iff {p : Parser} {kinds : List TokenKind} :
    p.lookahead.isOneOf kinds = true ↔ p.advance.current.kind ∈ kinds := by
  rw [current_advance, Token.isOneOf, List.contains_iff_mem]

namespace Awaits

variable {s p : Parser} {g : Goal} {gs hs : List Goal} {kind : TokenKind}

/-- The nearest goal comes down to others in front of the current token. -/
lemma predict (h : s.Awaits (g :: gs) p) (hp : g.predict p.current.kind = some hs) :
    s.Awaits (hs ++ gs) p := by
  obtain ⟨ts, hts, hrun⟩ := h.run
  exact ⟨h.finish_eq, h.isLexical, ts, hts, hrun.predict_end hp⟩

lemma drop (h : s.Awaits (g :: gs) p) (hp : g.predict p.current.kind = some []) : s.Awaits gs p :=
  h.predict hp

lemma isLexical_advance (h : ∀ d ∈ p.diagnostics.toList, d.isLexical = true) :
    ∀ d ∈ p.advance.diagnostics.toList, d.isLexical = true := by
  have hadvance : p.advance.diagnostics.toList =
      p.diagnostics.toList ++ p.lexemes[1]?.toList.filterMap Lexeme.diagnostic? := by
    simp [Parser.advance]
  rw [hadvance, List.forall_mem_append]
  refine ⟨h, fun d hd => ?_⟩
  obtain ⟨l, -, hl⟩ := List.mem_filterMap.1 hd
  exact Lexeme.isLexical_of_diagnostic? hl

lemma isLexical_of_advance (h : s.Awaits gs p.advance) :
    ∀ d ∈ p.diagnostics.toList, d.isLexical = true :=
  fun d hd => h.isLexical d ((Trail.refl.advance).diagnostics_isPrefix.subset hd)

/-- The current token meets the nearest goal. -/
lemma token (h : s.Awaits (.token kind :: gs) p) (ht : Fits kind p.current)
    (hend : kind ≠ .endOfInput) : s.Awaits gs p.advance := by
  obtain ⟨ts, hts, hrun⟩ := h.run
  have htokens : p.tokens = p.current :: p.advance.tokens := p.tokens_eq_cons (ht.1 ▸ hend)
  refine ⟨h.finish_eq, isLexical_advance h.isLexical, ts ++ [p.current], ?_, hrun.token_end ht _⟩
  rw [hts, htokens, List.append_assoc, List.singleton_append]

/-- The nearest goal comes down to one that the current token meets. -/
lemma take (h : s.Awaits (g :: gs) p) (ht : p.current.kind = kind)
    (hp : g.predict kind = some (.token kind :: hs))
    (hkind : kind ≠ .integer ∧ kind ≠ .endOfInput) :
    s.Awaits (hs ++ gs) p.advance :=
  (h.predict (by rw [ht, hp])).token (.of_ne ht hkind.1) hkind.2

/-- The nesting has no part in it. -/
lemma with_depth (h : s.Awaits gs p) (depth : Nat) : s.Awaits gs { p with depth := depth } :=
  ⟨h.finish_eq, h.isLexical, h.run⟩

end Awaits

end Parser

namespace Rule

variable {α β : Type} {s p : Parser} {g : Goal} {gs : List Goal} {kind close : TokenKind}
  {power : Power} {left : Expr}

/-! ## Outcomes -/

/-- The outcome is a value at a parser with the property `post`, or the first diagnostic about the
grammar that was found on the way is where the goals cannot go on. -/
inductive Meets (s : Parser) (post : Parser → Prop) : EStateM.Result Diagnostic Parser α → Prop where
  | ok {a : α} {q : Parser} : post q → Meets s post (.ok a q)
  | fault {r : EStateM.Result Diagnostic Parser α} {d : Diagnostic} :
      firstFault? (found r) = some d → s.Blames d → Meets s post r

/-- The parser behind `q` has these goals left. -/
def Leaves (s : Parser) (gs : List Goal) (q : Parser) : Prop := s.Awaits gs q.advance

namespace Meets

variable {mid post : Parser → Prop}

/-- What a sequence of two rules meets. -/
theorem bind {x : ParseM α} {f : α → ParseM β} [∀ a, Moves (f a)] (hx : Meets s mid (x p))
    (hf : ∀ a q, x p = .ok a q → mid q → Meets s post (f a q)) : Meets s post ((x >>= f) p) := by
  have hprefix := found_isPrefix_bind x f p
  rw [bind_apply] at hprefix ⊢
  generalize x p = r at hx hf hprefix
  cases hx with
  | ok hq => exact hf _ _ rfl hq
  | fault hd hblames => exact .fault (firstFault?_of_isPrefix hd hprefix) hblames

/-- A rule that makes a value of what another one meets. -/
lemma bind_pure {x : ParseM α} {f : α → β} (hx : Meets s post (x p)) :
    Meets s post ((x >>= fun a => pure (f a)) p) :=
  hx.bind fun _ _ _ hq => .ok hq

lemma map {x : ParseM α} (hx : Meets s post (x p)) (f : α → β) : Meets s post ((f <$> x) p) := by
  rw [map_apply]
  generalize x p = r at hx
  cases hx with
  | ok hq => exact .ok hq
  | @fault r d hd hblames =>
    refine .fault ?_ hblames
    cases r with
    | ok a q => exact hd
    | error e q => exact hd

lemma mono {r : EStateM.Result Diagnostic Parser α} (h : Meets s mid r)
    (hpost : ∀ q, mid q → post q) : Meets s post r := by
  cases h with
  | ok hq => exact .ok (hpost _ hq)
  | fault hd hblames => exact .fault hd hblames

/-- A rule that fails at once. -/
lemma of_error {d : Diagnostic} {q : Parser} (hq : ∀ e ∈ q.diagnostics.toList, e.isLexical = true)
    (hd : d.isLexical = false) (h : s.Blames d) :
    Meets s post (.error d q : EStateM.Result Diagnostic Parser α) :=
  .fault (firstFault?_concat hq hd) h

end Meets

/-! ## Steps -/

/-- The goals do not go on with a token of another kind than the nearest of them. -/
lemma rejects_token {t : Token} (h : t.kind ≠ kind) : Rejects (.token kind :: gs) t :=
  ⟨_, _, rfl, rfl, fun _ heq hfits => h (Goal.token.inj heq ▸ hfits.1)⟩

/-- Insisting on a token meets the goal for it. -/
lemma meets_expect (h : Leaves s (.token kind :: gs) p)
    (hkind : kind ≠ .integer ∧ kind ≠ .endOfInput) :
    Meets s (Leaves s gs) (expect kind p) := by
  rw [expect_apply]
  by_cases ht : p.advance.current.kind = kind
  · rw [if_pos (Parser.lookaheadIs_iff.2 ht)]
    exact .ok (h.token (.of_ne ht hkind.1) hkind.2)
  · rw [if_neg (mt Parser.lookaheadIs_iff.1 ht)]
    refine .of_error h.isLexical_of_advance rfl ⟨_, p.advance, h, ?_, .inr (rejects_token ht)⟩
    rw [Parser.position, Parser.current_advance]
    rfl

lemma meets_identifier (h : Leaves s (.token .identifier :: gs) p) :
    Meets s (Leaves s gs) (identifier p) := by
  rw [identifier]
  exact (meets_expect h (by decide)).bind fun _ q _ hq => .ok hq

/-- Ending a statement meets the goal for its end. -/
lemma meets_expectEnd (h : Leaves s (.ending :: gs) p) : Meets s (Leaves s gs) (expectEnd p) := by
  rw [expectEnd_apply]
  by_cases hsemi : p.advance.current.kind = .semicolon
  · rw [if_pos (Parser.lookaheadIs_iff.2 hsemi)]
    exact .ok (h.take hsemi rfl (by decide))
  · rw [if_neg (mt Parser.lookaheadIs_iff.1 hsemi)]
    by_cases hclose : p.advance.current.kind ∈ closers
    · rw [if_pos (Parser.isOneOf_iff.2 hclose)]
      exact .ok (h.drop ((if_neg hsemi).trans (if_pos hclose)))
    · rw [if_neg (mt Parser.isOneOf_iff.1 hclose)]
      have hreject : Rejects (.ending :: gs) p.advance.current :=
        ⟨_, _, rfl, (if_neg hsemi).trans (if_neg hclose), fun _ heq => by cases heq⟩
      refine .of_error h.isLexical_of_advance rfl ⟨_, p.advance, h, ?_, .inr hreject⟩
      rw [Parser.position, Parser.current_advance]
      rfl

/-! ## Expressions inside -/

/-- The expressions that `sub` parses are met. -/
def MeetsExpressions (s : Parser) (sub : Subparser) : Prop :=
  ∀ (power : Power) ⦃gs : List Goal⦄ ⦃p : Parser⦄, s.Awaits (.expression :: gs) p →
    Meets s (fun q => Leaves s (.tail :: gs) q ∧ ¬power < q.lookahead.kind.power) (sub power p)

section Sub

variable {sub : Subparser} [∀ power, Moves (sub power)] (hsub : MeetsExpressions s sub)
include hsub

omit [∀ power, Moves (sub power)] in
lemma meets_open (power : Power) (h : s.Awaits (.expression :: gs) p) :
    Meets s (Leaves s (.tail :: gs)) (sub power p) :=
  (hsub power h).mono fun _ => And.left

omit [∀ power, Moves (sub power)] in
/-- A whole expression is not gone on with. -/
lemma meets_lowest (h : s.Awaits (.expression :: gs) p) :
    Meets s (fun q => Leaves s gs q ∧ q.lookahead.kind ∉ continuations) (sub .lowest p) := by
  refine (hsub .lowest h).mono fun q hq => ?_
  have hnext : q.lookahead.kind ∉ continuations := by
    rw [← power_eq_lowest_iff, ← not_lowest_lt_iff]
    exact hq.2
  exact ⟨hq.1.drop (Goal.predict_tail (by rwa [Parser.current_advance])), hnext⟩

omit [∀ power, Moves (sub power)] in
lemma meets_expression (h : s.Awaits (.expression :: gs) p) :
    Meets s (Leaves s gs) (sub .lowest p) :=
  (meets_lowest hsub h).mono fun _ => And.left

/-! ## Lists behind commas -/

omit hsub [∀ power, Moves (sub power)] in
lemma length_advance_lt_of_comma (h : p.advance.current.kind = .comma) :
    p.advance.lexemes.length < p.lexemes.length := by
  rw [Parser.current_advance] at h
  exact p.length_advance_lt (by simp [h])

omit hsub [∀ power, Moves (sub power)] in
lemma meets_identifiersTail (h : Leaves s (.moreNames :: gs) p) :
    Meets s (Leaves s (.token .rightParen :: gs)) (identifiersTail p) := by
  induction hlen : p.lexemes.length using Nat.strong_induction_on generalizing p with
  | h n ih =>
    subst hlen
    rw [identifiersTail_eq, tailRound, get_bind]
    by_cases ht : p.advance.current.kind = .comma
    · rw [if_pos (Parser.lookaheadIs_iff.2 ht), advance_bind]
      have hnext : Leaves s (.token .identifier :: .moreNames :: gs) p.advance :=
        h.take ht rfl (by decide)
      refine (meets_identifier hnext).bind fun id q hq hleaves => ?_
      have hlt := ((Moves.ok _ hq).length_le).trans_lt (length_advance_lt_of_comma ht)
      exact (ih _ hlt hleaves rfl).bind_pure
    · rw [if_neg (mt Parser.lookaheadIs_iff.1 ht)]
      exact .ok (h.predict (if_neg ht))

omit hsub [∀ power, Moves (sub power)] in
lemma meets_parameters (h : Leaves s (.names :: gs) p) : Meets s (Leaves s gs) (parameters p) := by
  rw [parameters, get_bind]
  by_cases ht : p.advance.current.kind = .rightParen
  · rw [if_pos (Parser.lookaheadIs_iff.2 ht), advance_bind]
    exact .ok (h.take ht rfl (by decide))
  · rw [if_neg (mt Parser.lookaheadIs_iff.1 ht)]
    have hgoal : Leaves s (.token .identifier :: .moreNames :: gs) p := h.predict (if_neg ht)
    refine (meets_identifier hgoal).bind fun id q _ hq => ?_
    rw [get_bind]
    have htail : Meets s (Leaves s (.token .rightParen :: gs)) (moreIdentifiers q.lexemes q) :=
      meets_identifiersTail hq
    refine htail.bind fun ids r _ hr => ?_
    exact (meets_expect hr (by decide)).bind_pure

lemma meets_itemsTail (h : Leaves s (.moreItems close :: gs) p) :
    Meets s (Leaves s (.token close :: gs)) (itemsTail sub p) := by
  induction hlen : p.lexemes.length using Nat.strong_induction_on generalizing p with
  | h n ih =>
    subst hlen
    rw [itemsTail_eq, tailRound, get_bind]
    by_cases ht : p.advance.current.kind = .comma
    · rw [if_pos (Parser.lookaheadIs_iff.2 ht), advance_bind]
      have hnext : Leaves s (.expression :: .moreItems close :: gs) p.advance :=
        h.take ht rfl (by decide)
      have hitem : Meets s (Leaves s (.moreItems close :: gs)) (item sub p.advance) := by
        rw [item, advance_bind]
        exact meets_expression hsub hnext
      refine hitem.bind fun e q hq hleaves => ?_
      have hlt := ((Moves.ok _ hq).length_le).trans_lt (length_advance_lt_of_comma ht)
      exact (ih _ hlt hleaves rfl).bind_pure
    · rw [if_neg (mt Parser.lookaheadIs_iff.1 ht)]
      exact .ok (h.predict (if_neg ht))

lemma meets_items (hclose : close = .rightParen ∨ close = .rightBracket)
    (h : Leaves s (.items close :: gs) p) : Meets s (Leaves s gs) (items sub close p) := by
  have hkind : close ≠ .integer ∧ close ≠ .endOfInput := by rcases hclose with rfl | rfl <;> decide
  rw [items, get_bind, advance_bind]
  by_cases ht : p.advance.current.kind = close
  · rw [if_pos (Parser.lookaheadIs_iff.2 ht)]
    exact .ok (h.take ht (if_pos rfl) hkind)
  · rw [if_neg (mt Parser.lookaheadIs_iff.1 ht)]
    have hgoal : s.Awaits (.expression :: .moreItems close :: gs) p.advance := h.predict (if_neg ht)
    refine (meets_expression hsub hgoal).bind fun e q _ hq => ?_
    rw [get_bind]
    have htail : Meets s (Leaves s (.token close :: gs)) (moreItems sub q.lexemes q) :=
      meets_itemsTail hsub hq
    refine htail.bind fun es r _ hr => ?_
    exact (meets_expect hr hkind).bind_pure

/-! ## Statements and blocks -/

lemma meets_letStatement
    (h : Leaves s (.token .identifier :: .token .assign :: .expression :: .ending :: gs) p) :
    Meets s (Leaves s gs) (letStatement sub p) := by
  rw [letStatement, get_bind]
  refine (meets_identifier h).bind fun id q _ hq => ?_
  refine (meets_expect hq (by decide)).bind fun _ r _ hr => ?_
  rw [advance_bind]
  refine (meets_expression hsub hr).bind fun e t _ ht => ?_
  exact (meets_expectEnd ht).bind_pure

omit [∀ power, Moves (sub power)] in
lemma meets_returnValue (h : Leaves s (.returned :: gs) p) :
    Meets s (Leaves s (.ending :: gs)) (returnValue sub p) := by
  rw [returnValue, get_bind]
  by_cases hstop : p.advance.current.kind ∈ .semicolon :: closers
  · rw [if_pos (Parser.isOneOf_iff.2 hstop)]
    exact .ok (h.predict (if_pos hstop))
  · rw [if_neg (mt Parser.isOneOf_iff.1 hstop), advance_bind]
    have hgoal : s.Awaits (.expression :: .ending :: gs) p.advance := h.predict (if_neg hstop)
    exact (meets_expression hsub hgoal).map some

omit [∀ power, Moves (sub power)] in
lemma meets_returnStatement (h : Leaves s (.returned :: gs) p) :
    Meets s (Leaves s gs) (returnStatement sub p) := by
  rw [returnStatement, get_bind]
  refine (meets_returnValue hsub h).bind fun value q _ hq => ?_
  exact (meets_expectEnd hq).bind_pure

omit [∀ power, Moves (sub power)] in
lemma meets_expressionStatement (h : s.Awaits (.expression :: .separator :: gs) p) :
    Meets s (Leaves s gs) (expressionStatement sub p) := by
  rw [expressionStatement, get_bind]
  refine (meets_lowest hsub h).bind fun e q _ hq => ?_
  obtain ⟨hleaves, hnext⟩ := hq
  rw [← Parser.current_advance] at hnext
  rw [get_bind]
  by_cases ht : q.advance.current.kind = .semicolon
  · rw [if_pos (Parser.lookaheadIs_iff.2 ht)]
    exact .ok (hleaves.take ht rfl (by decide))
  · rw [if_neg (mt Parser.lookaheadIs_iff.1 ht)]
    exact .ok (hleaves.drop (by rw [Goal.predict, if_neg ht, if_neg hnext]))

lemma meets_statement (h : s.Awaits (Goal.statement p.current.kind ++ gs) p) :
    Meets s (Leaves s gs) (statement sub p) := by
  rw [statement, get_bind]
  generalize hk : p.current.kind = kind at h ⊢
  cases kind
  case letWord => exact meets_letStatement hsub (h.token (.of_ne hk (by decide)) (by decide))
  case returnWord => exact meets_returnStatement hsub (h.token (.of_ne hk (by decide)) (by decide))
  all_goals exact meets_expressionStatement hsub h

/-- The goal of a list of statements. -/
def listGoal (inBlock : Bool) : Goal := if inBlock then .body else .program

omit hsub [∀ power, Moves (sub power)] in
/-- Before its end a list comes down to a statement and the list again. -/
lemma predict_listGoal {inBlock : Bool} (h : atListEnd inBlock p = false) :
    (listGoal inBlock).predict p.current.kind =
      some (Goal.statement p.current.kind ++ [listGoal inBlock]) := by
  simp only [atListEnd, Parser.currentIs, Bool.or_eq_false_iff, beq_eq_false_iff_ne] at h
  cases inBlock with
  | false => exact if_neg h.1
  | true => exact if_neg (by simpa using h.2)

/-- A list of statements goes on until it ends, or something is wrong. -/
theorem statementList_awaits (inBlock : Bool) (h : s.Awaits (listGoal inBlock :: gs) p) :
    (∃ d, firstFault? (statementList sub inBlock p).2.diagnostics.toList = some d ∧ s.Blames d) ∨
      s.Awaits (listGoal inBlock :: gs) (statementList sub inBlock p).2 ∧
        atListEnd inBlock (statementList sub inBlock p).2 = true := by
  induction hlen : p.lexemes.length using Nat.strong_induction_on generalizing p with
  | h n ih =>
    subst hlen
    cases hend : atListEnd inBlock p with
    | true =>
      rw [statementList_eq, if_pos hend]
      exact .inr ⟨h, hend⟩
    | false =>
      have hgoal : s.Awaits (Goal.statement p.current.kind ++ (listGoal inBlock :: gs)) p := by
        simpa using h.predict (predict_listGoal hend)
      have hstatement := meets_statement hsub hgoal
      have hfound := found_isPrefix_statementList sub hend
      rw [statementList_eq, if_neg (by simp [hend])] at hfound ⊢
      have hopen : ¬atListEnd inBlock p = true := by simp [hend]
      have hlt : ∀ s q, statement sub p = .ok s q → q.advance.lexemes.length < p.lexemes.length :=
        fun s q hq => length_advance_lt_of_not_atListEnd hopen (Moves.ok _ hq)
      generalize statement sub p = r at hstatement hfound hlt ⊢
      cases hstatement with
      | ok hleaves => exact ih _ (hlt _ _ rfl) hleaves rfl
      | fault hd hblames => exact .inl ⟨_, firstFault?_of_isPrefix hd hfound, hblames⟩

/-- A block meets the goal for its statements and its closing brace. -/
lemma meets_block (h : Leaves s (.body :: gs) p) : Meets s (Leaves s gs) (block sub p) := by
  have hlist := statementList_awaits hsub true h
  rw [block_eq]
  generalize (statementList sub true p.advance).1 = body,
    (statementList sub true p.advance).2 = q at hlist
  rcases hlist with ⟨d, hd, hblames⟩ | ⟨hawaits, hend⟩
  · refine .fault ?_ hblames
    split
    · exact firstFault?_of_isPrefix hd (List.prefix_append _ _)
    · exact hd
  · by_cases ht : q.current.kind = .endOfInput
    · rw [if_pos (by simp [Parser.currentIs, ht])]
      have hgoal : s.Awaits (.expression :: .separator :: .body :: gs) q :=
        hawaits.predict (by rw [ht]; rfl)
      have hreject : Rejects (.expression :: .separator :: .body :: gs) q.current :=
        ⟨_, _, rfl, by rw [ht]; rfl, fun _ heq => by cases heq⟩
      exact .of_error hawaits.isLexical rfl ⟨_, q, hgoal, rfl, .inr hreject⟩
    · rw [if_neg (by simp [Parser.currentIs, ht])]
      have hbrace : q.current.kind = .rightBrace := by
        simpa [atListEnd, Parser.currentIs, ht] using hend
      exact .ok (hawaits.take hbrace rfl (by decide))

/-! ## Operands -/

omit hsub [∀ power, Moves (sub power)] in
/-- A constant that is no expression is an integer out of range. -/
lemma not_fits_of_ofToken {t : Token} {fault : Fault}
    (hk : t.kind ∈ [TokenKind.identifier, .integer, .string, .trueWord, .falseWord])
    (h : Expr.ofToken t = .error fault) : ¬Fits t.kind t := by
  rintro ⟨-, hfits⟩
  unfold Expr.ofToken at h
  cases ht : t.kind <;> rw [ht] at h hk hfits <;> simp only [reduceCtorEq] at h
  case integer =>
    split at h
    · cases h
    · exact absurd (hfits rfl) ‹_›
  all_goals exact absurd hk (by decide)

omit hsub [∀ power, Moves (sub power)] in
/-- An expression of one token is met by a fitting token. -/
lemma meets_literal (hk : p.current.kind ∈ [.identifier, .integer, .string, .trueWord, .falseWord])
    (h : s.Awaits (.expression :: gs) p) : Meets s (Leaves s (.tail :: gs)) (literal p) := by
  have hgoal : s.Awaits (.token p.current.kind :: .tail :: gs) p := by
    have hp : Goal.expression.predict p.current.kind = some [.token p.current.kind, .tail] := by
      revert hk
      cases p.current.kind <;> decide
    exact h.predict hp
  rw [literal, get_bind]
  cases he : Expr.ofToken p.current with
  | ok e => exact .ok (hgoal.token (fits_of_ofToken he) (ne_of_mem_of_not_mem hk (by decide)))
  | error fault =>
    have hreject : Rejects (.token p.current.kind :: .tail :: gs) p.current :=
      ⟨_, _, rfl, rfl, fun _ heq => Goal.token.inj heq ▸ not_fits_of_ofToken hk he⟩
    exact .of_error h.isLexical (isLexical_of_ofToken he _) ⟨_, p, hgoal, rfl, .inr hreject⟩

omit [∀ power, Moves (sub power)] in
lemma meets_prefixed (hk : p.current.kind = .bang ∨ p.current.kind = .minus)
    (h : s.Awaits (.expression :: gs) p) : Meets s (Leaves s (.tail :: gs)) (prefixed sub p) := by
  have hnext : s.Awaits (.expression :: gs) p.advance := by
    rcases hk with hk | hk
    · exact h.take hk rfl (by decide)
    · exact h.take hk rfl (by decide)
  rw [prefixed, get_bind, advance_bind]
  exact (meets_open hsub .unary hnext).bind_pure

omit [∀ power, Moves (sub power)] in
lemma meets_group (hk : p.current.kind = .leftParen) (h : s.Awaits (.expression :: gs) p) :
    Meets s (Leaves s (.tail :: gs)) (group sub p) := by
  have hnext : Leaves s (.expression :: .token .rightParen :: .tail :: gs) p :=
    h.take hk rfl (by decide)
  rw [group, advance_bind]
  refine (meets_expression hsub hnext).bind fun e q _ hq => ?_
  exact (meets_expect hq (by decide)).bind_pure

lemma meets_alternative (h : Leaves s (.alternative :: gs) p) :
    Meets s (Leaves s (.tail :: gs)) (alternative sub p) := by
  rw [alternative, get_bind]
  by_cases ht : p.advance.current.kind = .elseWord
  · rw [if_pos (Parser.lookaheadIs_iff.2 ht), advance_bind]
    have hnext : Leaves s (.token .leftBrace :: .body :: .tail :: gs) p.advance :=
      h.take ht rfl (by decide)
    refine (meets_expect hnext (by decide)).bind fun _ q _ hq => ?_
    exact (meets_block hsub hq).map some
  · rw [if_neg (mt Parser.lookaheadIs_iff.1 ht)]
    exact .ok (h.predict (if_neg ht))

lemma meets_conditional (hk : p.current.kind = .ifWord) (h : s.Awaits (.expression :: gs) p) :
    Meets s (Leaves s (.tail :: gs)) (conditional sub p) := by
  have hnext : Leaves s (.token .leftParen :: .expression :: .token .rightParen ::
      .token .leftBrace :: .body :: .alternative :: gs) p :=
    h.take hk rfl (by decide)
  rw [conditional, get_bind]
  refine (meets_expect hnext (by decide)).bind fun _ q _ hq => ?_
  rw [advance_bind]
  refine (meets_expression hsub hq).bind fun condition q _ hq => ?_
  refine (meets_expect hq (by decide)).bind fun _ q _ hq => ?_
  refine (meets_expect hq (by decide)).bind fun _ q _ hq => ?_
  refine (meets_block hsub hq).bind fun consequence q _ hq => ?_
  exact (meets_alternative hsub hq).bind_pure

lemma meets_function (hk : p.current.kind = .fnWord) (h : s.Awaits (.expression :: gs) p) :
    Meets s (Leaves s (.tail :: gs)) (function sub p) := by
  have hnext : Leaves s (.token .leftParen :: .names :: .token .leftBrace :: .body :: .tail :: gs) p :=
    h.take hk rfl (by decide)
  rw [function, get_bind]
  refine (meets_expect hnext (by decide)).bind fun _ q _ hq => ?_
  refine (meets_parameters hq).bind fun ids q _ hq => ?_
  refine (meets_expect hq (by decide)).bind fun _ q _ hq => ?_
  exact (meets_block hsub hq).bind_pure

lemma meets_array (hk : p.current.kind = .leftBracket) (h : s.Awaits (.expression :: gs) p) :
    Meets s (Leaves s (.tail :: gs)) (array sub p) := by
  have hnext : Leaves s (.items .rightBracket :: .tail :: gs) p :=
    h.take hk rfl (by decide)
  rw [array, get_bind]
  exact (meets_items hsub (.inr rfl) hnext).bind_pure

/-- Every operand is met, up to what the expression goes on with. -/
lemma meets_operand {rule : ParseM Expr} (hrule : operand? sub p.current.kind = some rule)
    (h : s.Awaits (.expression :: gs) p) : Meets s (Leaves s (.tail :: gs)) (rule p) := by
  rcases operand?_eq_some sub hrule with ⟨hk, rfl⟩ | ⟨hk, rfl⟩ | ⟨hk, rfl⟩ | ⟨hk, rfl⟩ |
    ⟨hk, rfl⟩ | ⟨hk, rfl⟩
  · exact meets_literal hk h
  · exact meets_prefixed hsub hk h
  · exact meets_group hsub hk h
  · exact meets_conditional hsub hk h
  · exact meets_function hsub hk h
  · exact meets_array hsub hk h

/-! ## Operators -/

omit hsub [∀ power, Moves (sub power)] in
/-- No goals start with a token that no rule for operands starts with. -/
lemma goal_operand?_eq_none (h : operand? sub kind = none) : Goal.operand? kind = none := by
  revert h
  cases kind <;> simp [operand?, Goal.operand?]

/-- Every operator is met with its right operand, up to what the expression goes on with. -/
lemma meets_operator {rule : Expr → Power → ParseM Expr}
    (hrule : operator? sub p.current.kind = some rule) (h : s.Awaits (.tail :: gs) p)
    (left : Expr) (power : Power) : Meets s (Leaves s (.tail :: gs)) (rule left power p) := by
  rcases operator?_eq_some sub hrule with ⟨hk, rfl⟩ | ⟨hk, rfl⟩ | ⟨hk, rfl⟩
  · have hnext : Leaves s (.expression :: gs) p :=
      h.take rfl (if_pos hk)
        ⟨ne_of_mem_of_not_mem hk (by decide), ne_of_mem_of_not_mem hk (by decide)⟩
    rw [infixed, get_bind, advance_bind]
    exact (meets_open hsub power hnext).bind_pure
  · have hnext : Leaves s (.items .rightParen :: .tail :: gs) p := h.take hk rfl (by decide)
    simp only
    rw [call, get_bind]
    exact (meets_items hsub (.inl rfl) hnext).bind_pure
  · have hnext : Leaves s (.expression :: .token .rightBracket :: .tail :: gs) p :=
      h.take hk rfl (by decide)
    simp only
    rw [index, get_bind, advance_bind]
    refine (meets_expression hsub hnext).bind fun e q _ hq => ?_
    exact (meets_expect hq (by decide)).bind_pure

lemma meets_operatorChain (left : Expr) (h : Leaves s (.tail :: gs) p) :
    Meets s (fun q => Leaves s (.tail :: gs) q ∧ ¬power < q.lookahead.kind.power)
      (operatorChain sub power left p) := by
  induction hlen : p.lexemes.length using Nat.strong_induction_on generalizing p left with
  | h n ih =>
    subst hlen
    rw [operatorChain_eq, operatorRound]
    by_cases hpower : power < p.lookahead.kind.power
    · rw [if_pos hpower]
      cases hrule : operator? sub p.lookahead.kind with
      | none =>
        have hlowest : p.lookahead.kind.power = .lowest := by
          rw [← not_lowest_lt_iff, ← isSome_operator?_iff sub, hrule]
          decide
        rw [hlowest, Power.lt_iff_rank] at hpower
        exact absurd hpower (Nat.not_lt_zero _)
      | some rule =>
        have hrule' : operator? sub p.advance.current.kind = some rule := by
          rwa [Parser.current_advance]
        refine (meets_operator hsub hrule' h left _).bind fun e q hq hleaves => ?_
        exact ih _ (length_lt_of_operator hrule hq) _ hleaves rfl
    · rw [if_neg hpower]
      exact .ok ⟨h, hpower⟩

lemma meets_chain (power : Power) (h : s.Awaits (.expression :: gs) p) :
    Meets s (fun q => Leaves s (.tail :: gs) q ∧ ¬power < q.lookahead.kind.power)
      (chain sub power p) := by
  rw [chain_eq]
  cases hrule : operand? sub p.current.kind with
  | none =>
    have hreject : Rejects (.expression :: gs) p.current :=
      ⟨_, _, rfl, goal_operand?_eq_none hrule, fun _ heq => by cases heq⟩
    exact .of_error h.isLexical rfl ⟨_, p, h, rfl, .inr hreject⟩
  | some rule =>
    exact (meets_operand hsub hrule h).bind fun left q _ hq => meets_operatorChain hsub left hq

end Sub

/-- The expression that a parser awaits is met. -/
theorem meets_expressionAt (s : Parser) (levels : Nat) :
    MeetsExpressions s (expressionAt levels) := by
  induction levels with
  | zero => exact fun power gs p h => .of_error h.isLexical rfl ⟨_, p, h, rfl, .inl ⟨_, rfl⟩⟩
  | succ levels ih =>
    intro power gs p h
    rw [expressionAt, nested_apply]
    split
    · have hchain := meets_chain ih power (h.with_depth (p.depth + 1))
      generalize chain (expressionAt levels) power { p with depth := p.depth + 1 } = r at hchain
      cases hchain with
      | @ok e q hq => exact .ok ⟨hq.1.with_depth _, hq.2⟩
      | @fault r d hd hblames => cases r <;> exact .fault hd hblames
    · exact .of_error h.isLexical rfl ⟨_, p, h, rfl, .inl ⟨_, rfl⟩⟩

end Rule

end ScriptSyntax
