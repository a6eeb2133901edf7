import ScriptSyntax.Proofs.Diagnostics

/-!
# How often the window moves

A move of the window takes a token away, as long as there is one.  So the moves made and the tokens
left add up to the same number all along a parse, except that each move made at the end of the source
is one more.  Such a move has a cause: a statement failed there, and the list it belongs to steps over
the place.  The list ends at once, and its block fails in turn, so that there is one such move for
each block still open and one for the program.  A block lies one level of nesting further in than the
list of statements around it, and the levels are bounded.

A rule that ends well ends on a token.  This is what keeps the account exact up to the end of the
source: `Rule.Costs` says of an outcome that it has this form, and what a failure at the end of the
source may have cost on top.

## Main statements

* `Rule.Costs.bind`: what a sequence of two rules costs.
* `Rule.frugal_expressionAt`: a failing expression costs one more move at most for each level left.
* `parse_advances`: the window moves once for each token, and at most `maxNesting + 1` times more.
-/

namespace ScriptSyntax

/-- Whether the event is the move of the window onto a new current token, for which a transcript has
the line `current token`. -/
def Event.isReached : Event → Bool
  | reached _ => true
  | _ => false

namespace Parser

/-! ## The account of moves and tokens -/

/-- How often the window has moved so far. -/
def advances (p : Parser) : Nat := p.transcript.toList.countP Event.isReached

/-- The moves made and the tokens left. -/
def effort (p : Parser) : Nat := p.advances + p.lexemes.length

variable {p q : Parser}

/-- Moving the window is told once. -/
@[simp] lemma advances_advance (p : Parser) : p.advance.advances = p.advances + 1 := by
  simp [advances, advance, Event.isReached]

/-- A move takes a token away, as long as there is one. -/
lemma effort_advance (h : p.lexemes ≠ []) : p.advance.effort = p.effort := by
  have hpos : 0 < p.lexemes.length := List.length_pos_iff.2 h
  simp only [effort, advances_advance, lexemes_advance, List.length_tail]
  omega

lemma effort_advance_of_eq_nil (h : p.lexemes = []) : p.advance.effort = p.effort + 1 := by
  simp [effort, h]

@[simp] lemma effort_record (p : Parser) (d : Diagnostic) : (p.record d).effort = p.effort := by
  simp [effort, advances, record, Event.isReached]

/-- The tokens are passed one by one, so that no move is saved. -/
lemma Trail.effort_le (h : p.Trail q) : p.effort ≤ q.effort := by
  induction h with
  | refl => exact le_rfl
  | @advance q _ ih =>
    by_cases hnil : q.lexemes = []
    · rw [effort_advance_of_eq_nil hnil]
      exact ih.trans (Nat.le_succ _)
    · rwa [effort_advance hnil]
  | record d _ ih => rwa [effort_record]

/-- A token that is not the end marker is one of those left. -/
lemma lexemes_ne_nil_of_current (h : p.current.kind ≠ .endOfInput) : p.lexemes ≠ [] :=
  mt current_of_lexemes_eq_nil h

lemma lexemes_advance_ne_nil (h : p.lookahead.kind ≠ .endOfInput) : p.advance.lexemes ≠ [] :=
  lexemes_ne_nil_of_current (by rwa [current_advance])

/-- Skipping to a boundary stops on a token if it starts on one. -/
lemma effort_synchronize (h : p.lexemes ≠ []) (inBlock : Bool) :
    (p.synchronize inBlock).lexemes ≠ [] ∧ (p.synchronize inBlock).effort = p.effort := by
  induction hlen : p.lexemes.length using Nat.strong_induction_on generalizing p with
  | h n ih =>
    subst hlen
    rw [synchronize_eq]
    split
    · exact ⟨h, rfl⟩
    · rename_i hbound
      have hlook : p.lookahead.kind ≠ .endOfInput := by
        intro hend
        simp [atBoundary, lookaheadIs, hend] at hbound
      have hnext := ih _ (p.length_advance_lt hlook) (lexemes_advance_ne_nil hlook) rfl
      rwa [effort_advance h] at hnext

/-- Stepping over a fault on a token. -/
lemma effort_recover (h : p.lexemes ≠ []) (inBlock : Bool) :
    (p.synchronize inBlock).advance.effort = p.effort := by
  have hskip := effort_synchronize h inBlock
  rw [effort_advance hskip.1, hskip.2]

/-- Stepping over a fault at the end of the source stays there, at the cost of a move. -/
lemma recover_of_eq_nil (h : p.lexemes = []) (inBlock : Bool) :
    (p.synchronize inBlock).advance.lexemes = [] ∧
      (p.synchronize inBlock).advance.effort = p.effort + 1 := by
  rw [synchronize_eq, if_pos (atBoundary_of_lexemes_eq_nil h inBlock)]
  exact ⟨by rw [lexemes_advance, h, List.tail_nil], effort_advance_of_eq_nil h⟩

/-- The account is at `cost`, or at the end of the source `extra` more at most. -/
structure Within (cost extra : Nat) (q : Parser) : Prop where
  le : q.effort ≤ cost + extra
  eq_of_ne : q.lexemes ≠ [] → q.effort = cost

lemma Within.of_eq {cost : Nat} (h : p.effort = cost) (extra : Nat) : Within cost extra p where
  le := h.le.trans (Nat.le_add_right _ _)
  eq_of_ne _ := h

lemma Within.mono {cost extra more : Nat} (h : Within cost extra p) (hmore : extra ≤ more) :
    Within cost more p where
  le := h.le.trans (Nat.add_le_add_left hmore _)
  eq_of_ne := h.eq_of_ne

lemma Within.record {cost extra : Nat} (h : Within cost extra p) (d : Diagnostic) :
    Within cost extra (p.record d) where
  le := by rw [effort_record]; exact h.le
  eq_of_ne hne := by rw [effort_record]; exact h.eq_of_ne hne

end Parser

namespace Rule

/-! ## What a rule costs -/

/-- The outcome of a rule that started with the account at `cost`: the account has not changed, or the
rule failed at the end of the source after `extra` more moves at most. -/
inductive Costs (cost extra : Nat) {α : Type} : EStateM.Result Diagnostic Parser α → Prop where
  | ok {a : α} {q : Parser} : q.lexemes ≠ [] → q.effort = cost → Costs cost extra (.ok a q)
  | error {d : Diagnostic} {q : Parser} : q.Within cost extra → Costs cost extra (.error d q)

/-- A rule that keeps the account on every parser. -/
class Frugal (extra : Nat) {α : Type} (rule : ParseM α) : Prop where
  costs : ∀ p : Parser, Costs p.effort extra (rule p)

/-- A rule that keeps the account on every parser with a token left. -/
class FrugalInside (extra : Nat) {α : Type} (rule : ParseM α) : Prop where
  costs : ∀ p : Parser, p.lexemes ≠ [] → Costs p.effort extra (rule p)

lemma FrugalInside.outcome {extra : Nat} {α : Type} (rule : ParseM α) [h : FrugalInside extra rule]
    {p : Parser} (hp : p.lexemes ≠ []) : Costs p.effort extra (rule p) := h.costs p hp

section Combinators

variable {α β : Type} {cost extra more : Nat} {p : Parser}

namespace Costs

lemma mono {r : EStateM.Result Diagnostic Parser α} (h : Costs cost extra r)
    (hmore : extra ≤ more) : Costs cost more r := by
  cases h with
  | ok hq hcost => exact .ok hq hcost
  | error hq => exact .error (hq.mono hmore)

/-- What a sequence of two rules costs: the second one starts on a token. -/
theorem bind {x : ParseM α} {f : α → ParseM β} (hx : Costs cost extra (x p))
    (hf : ∀ a q, q.lexemes ≠ [] → Costs q.effort extra (f a q)) :
    Costs cost extra ((x >>= f) p) := by
  rw [bind_apply]
  generalize x p = r at hx
  cases hx with
  | ok hq hcost => exact hcost ▸ hf _ _ hq
  | error hq => exact .error hq

lemma map {x : ParseM α} (hx : Costs cost extra (x p)) (g : α → β) :
    Costs cost extra ((g <$> x) p) := by
  rw [map_apply]
  generalize x p = r at hx
  cases hx with
  | ok hq hcost => exact .ok hq hcost
  | error hq => exact .error hq

/-- A rule that fails where it started. -/
lemma throw (d : Diagnostic) :
    Costs p.effort extra (.error d p : EStateM.Result Diagnostic Parser α) :=
  .error (.of_eq rfl extra)

/-- A rule that goes on with the next token. -/
lemma of_advance {r : EStateM.Result Diagnostic Parser α} (hp : p.lexemes ≠ [])
    (h : Costs p.advance.effort extra r) : Costs p.effort extra r := by
  rwa [Parser.effort_advance hp] at h

end Costs

instance (x : ParseM α) [h : Frugal extra x] : FrugalInside extra x := ⟨fun p _ => h.costs p⟩

instance (x : ParseM α) [h : Frugal extra x] : Frugal (extra + 1) x :=
  ⟨fun p => (h.costs p).mono (Nat.le_succ _)⟩

instance (a : α) : FrugalInside extra (pure a : ParseM α) := ⟨fun _ hp => .ok hp rfl⟩

instance (f : Parser → ParseM β) [h : ∀ p, FrugalInside extra (f p)] :
    FrugalInside extra (get >>= f) :=
  ⟨fun p hp => (h p).costs p hp⟩

/-- What comes after a move of the window has to start on every parser. -/
instance (f : Unit → ParseM β) [h : ∀ u, Frugal extra (f u)] : FrugalInside extra (advance >>= f) :=
  ⟨fun p hp => .of_advance hp ((h ()).costs p.advance)⟩

instance (x : ParseM α) (f : α → ParseM β) [hx : Frugal extra x] [hf : ∀ a, FrugalInside extra (f a)] :
    Frugal extra (x >>= f) :=
  ⟨fun p => (hx.costs p).bind fun a => (hf a).costs⟩

instance (x : ParseM α) (f : α → ParseM β) [hx : FrugalInside extra x]
    [hf : ∀ a, FrugalInside extra (f a)] : FrugalInside extra (x >>= f) :=
  ⟨fun p hp => (hx.costs p hp).bind fun a => (hf a).costs⟩

instance (g : α → β) (x : ParseM α) [h : Frugal extra x] : Frugal extra (g <$> x) :=
  ⟨fun p => (h.costs p).map g⟩

instance (g : α → β) (x : ParseM α) [h : FrugalInside extra x] : FrugalInside extra (g <$> x) :=
  ⟨fun p hp => (h.costs p hp).map g⟩

instance (c : Prop) [Decidable c] (x y : ParseM α) [FrugalInside extra x] [FrugalInside extra y] :
    FrugalInside extra (if c then x else y) := by
  split <;> assumption

/-- The levels of nesting are no part of the account. -/
instance (x : ParseM α) [h : Frugal extra x] : Frugal extra (nested x) where
  costs p := by
    rw [nested_apply]
    split
    · have hx : Costs p.effort extra (x { p with depth := p.depth + 1 }) :=
        h.costs { p with depth := p.depth + 1 }
      generalize x { p with depth := p.depth + 1 } = r at hx
      cases hx with
      | ok hq hcost => exact .ok hq hcost
      | error hq => exact .error ⟨hq.le, hq.eq_of_ne⟩
    · exact .throw _

end Combinators

/-! ## The rules -/

variable {extra : Nat} {p : Parser}

/-- A token that comes next is not the end marker. -/
lemma lookahead_ne_of_lookaheadIs {kind : TokenKind} (h : p.lookaheadIs kind = true)
    (hkind : kind ≠ .endOfInput) : p.lookahead.kind ≠ .endOfInput := by
  rw [Parser.lookaheadIs, beq_iff_eq] at h
  rwa [h]

/-- Moving onto a token that is there. -/
lemma costs_advance (hp : p.lexemes ≠ []) (hlook : p.lookahead.kind ≠ .endOfInput) :
    Costs p.effort extra (advance p) :=
  .ok (Parser.lexemes_advance_ne_nil hlook) (Parser.effort_advance hp)

/-- A token that has to come next is there if the rule ends well. -/
lemma frugal_expect (extra : Nat) {kind : TokenKind} (hkind : kind ≠ .endOfInput) :
    Frugal extra (expect kind) where
  costs p := by
    rw [expect_apply]
    split
    · rename_i h
      have hlook := lookahead_ne_of_lookaheadIs h hkind
      exact costs_advance (fun hnil => hlook (Parser.lookahead_of_lexemes_eq_nil hnil)) hlook
    · exact .throw _

instance : Frugal extra (expect .identifier) := frugal_expect _ (by decide)
instance : Frugal extra (expect .assign) := frugal_expect _ (by decide)
instance : Frugal extra (expect .leftParen) := frugal_expect _ (by decide)
instance : Frugal extra (expect .rightParen) := frugal_expect _ (by decide)
instance : Frugal extra (expect .leftBrace) := frugal_expect _ (by decide)
instance : Frugal extra (expect .rightBracket) := frugal_expect _ (by decide)

instance : Frugal extra identifier := by unfold identifier; infer_instance

instance : FrugalInside extra expectEnd where
  costs p hp := by
    rw [expectEnd_apply]
    split
    · rename_i h
      exact costs_advance hp (lookahead_ne_of_lookaheadIs h (by decide))
    · split
      · exact .ok hp rfl
      · exact .throw _

instance : FrugalInside extra literal where
  costs p hp := by
    simp only [literal, bind_apply, get_apply]
    cases Expr.ofToken p.current with
    | ok e => exact .ok hp rfl
    | error fault => exact .throw _

section Statements

variable (sub : Subparser) [hsub : ∀ power, Frugal extra (sub power)]

instance : FrugalInside extra (letStatement sub) := by unfold letStatement; infer_instance

instance : FrugalInside extra (returnValue sub) := by unfold returnValue; infer_instance

instance : FrugalInside extra (returnStatement sub) := by unfold returnStatement; infer_instance

instance : Frugal extra (expressionStatement sub) where
  costs p := by
    rw [expressionStatement_apply]
    have hcosts := (hsub .lowest).costs p
    generalize sub .lowest p = r at hcosts
    cases hcosts with
    | error hq => exact .error hq
    | @ok e q hq hcost =>
      simp only
      split
      · rename_i h
        have hlook := lookahead_ne_of_lookaheadIs h (by decide)
        exact .ok (Parser.lexemes_advance_ne_nil hlook) ((Parser.effort_advance hq).trans hcost)
      · exact .ok hq hcost

instance (kind : TokenKind) :
    FrugalInside extra ((statement? sub kind).getD (expressionStatement sub)) := by
  unfold statement?
  split <;> simp only [Option.getD_some, Option.getD_none] <;> infer_instance

instance : FrugalInside extra (statement sub) := by unfold statement; infer_instance

omit hsub in
/-- At the end of the source a list of statements is over. -/
lemma statements_of_lexemes_eq_nil {inBlock : Bool} {rounds : List Lexeme} {p : Parser}
    (h : p.lexemes = []) : statements sub inBlock rounds p = ([], p) := by
  cases rounds with
  | nil => rfl
  | cons _ rounds => rw [statements, if_pos (atListEnd_of_lexemes_eq_nil h inBlock)]

variable (extra) in
/-- A list of statements keeps the account, unless a statement failed at the end of the source: then
the list steps over that place and ends. -/
theorem within_statements (inBlock : Bool) (rounds : List Lexeme) (p : Parser) :
    (statements sub inBlock rounds p).2.Within p.effort (extra + 1) := by
  induction rounds generalizing p with
  | nil => exact .of_eq rfl _
  | cons _ rounds ih =>
    unfold statements
    split
    · exact .of_eq rfl _
    · rename_i hend
      have hp : p.lexemes ≠ [] := fun hnil => hend (atListEnd_of_lexemes_eq_nil hnil inBlock)
      have hcosts : Costs p.effort extra (statement sub p) := FrugalInside.outcome _ hp
      generalize statement sub p = r at hcosts
      cases hcosts with
      | @ok s q hq hcost =>
        have hnext := ih q.advance
        rwa [Parser.effort_advance hq, hcost] at hnext
      | @error d q hq =>
        have hrecord := hq.record d
        simp only
        split
        · exact hrecord.mono (Nat.le_succ _)
        · by_cases hnil : (q.record d).lexemes = []
          · obtain ⟨hover, hmore⟩ := Parser.recover_of_eq_nil hnil inBlock
            rw [statements_of_lexemes_eq_nil sub hover]
            exact ⟨hmore.trans_le (Nat.succ_le_succ hrecord.le), fun hne => absurd hover hne⟩
          · have hnext := ih ((q.record d).synchronize inBlock).advance
            rwa [Parser.effort_recover hnil, hrecord.eq_of_ne hnil] at hnext

/-- A block that the source does not close fails at the end of the source. -/
instance : FrugalInside (extra + 1) (block sub) where
  costs p hp := by
    refine .of_advance hp ?_
    have hbody : (statementList sub true p.advance).2.Within p.advance.effort (extra + 1) :=
      within_statements extra sub true p.advance.lexemes p.advance
    rw [block_eq]
    split
    · exact .error hbody
    · rename_i hclosed
      have hne : (statementList sub true p.advance).2.lexemes ≠ [] := by
        refine fun hnil => hclosed ?_
        simp [Parser.currentIs, Parser.current_of_lexemes_eq_nil hnil]
      exact .ok hne (hbody.eq_of_ne hne)

end Statements

section Expressions

variable (sub : Subparser) [hsub : ∀ power, Frugal extra (sub power)]

instance : FrugalInside extra (prefixed sub) := by unfold prefixed; infer_instance

instance : FrugalInside extra (group sub) := by unfold group; infer_instance

instance : FrugalInside (extra + 1) (alternative sub) := by unfold alternative; infer_instance

set_option synthInstance.maxSize 512 in
instance : FrugalInside (extra + 1) (conditional sub) := by unfold conditional; infer_instance

instance (rounds : List Lexeme) : FrugalInside extra (moreIdentifiers rounds) := by
  induction rounds with
  | nil => unfold moreIdentifiers; infer_instance
  | cons _ rounds ih => unfold moreIdentifiers; infer_instance

/-- A closing delimiter that comes next is taken. -/
lemma costs_close {α : Type} {kind : TokenKind} (hkind : kind ≠ .endOfInput) (hp : p.lexemes ≠ [])
    (h : p.lookaheadIs kind = true) (x : ParseM α) [hx : FrugalInside extra x] :
    Costs p.effort extra ((advance >>= fun _ => x) p) :=
  (costs_advance hp (lookahead_ne_of_lookaheadIs h hkind)).bind fun _ => hx.costs

instance : FrugalInside extra parameters where
  costs p hp := by
    rw [parameters, get_bind]
    split
    · rename_i h
      exact costs_close (by decide) hp h (pure [])
    · exact FrugalInside.outcome (do
        let id ← identifier
        let ids ← moreIdentifiers (← get).lexemes
        expect .rightParen
        pure (id :: ids)) hp

instance : FrugalInside (extra + 1) (function sub) := by unfold function; infer_instance

instance (rounds : List Lexeme) : FrugalInside extra (moreItems sub rounds) := by
  induction rounds with
  | nil => unfold moreItems; infer_instance
  | cons _ rounds ih =>
    constructor
    intro p hp
    rw [moreItems, get_bind]
    split
    · rename_i h
      exact costs_close (by decide) hp h (do
        advance
        let item ← sub .lowest
        let items ← moreItems sub rounds
        pure (item :: items))
    · exact .ok hp rfl

/-- Lists of expressions end with their closing delimiter. -/
lemma frugal_items {close : TokenKind} (hclose : close ≠ .endOfInput) :
    FrugalInside extra (items sub close) where
  costs p hp := by
    rw [items, get_bind]
    cases h : p.lookaheadIs close with
    | true => exact costs_close hclose hp h (pure [])
    | false =>
      have := frugal_expect extra hclose
      exact FrugalInside.outcome (do
        advance
        let item ← sub .lowest
        let items ← moreItems sub (← get).lexemes
        expect close
        pure (item :: items)) hp

instance : FrugalInside extra (items sub .rightParen) := frugal_items sub (by decide)

instance : FrugalInside extra (items sub .rightBracket) := frugal_items sub (by decide)

instance : FrugalInside extra (array sub) := by unfold array; infer_instance

instance (left : Expr) (power : Power) : FrugalInside extra (infixed sub left power) := by
  unfold infixed; infer_instance

instance (left : Expr) : FrugalInside extra (call sub left) := by unfold call; infer_instance

instance (left : Expr) : FrugalInside extra (index sub left) := by unfold index; infer_instance

variable (extra) in
lemma frugal_operand {kind : TokenKind} {rule : ParseM Expr} (h : operand? sub kind = some rule) :
    FrugalInside (extra + 1) rule := by
  rcases operand?_eq_some sub h with ⟨-, rfl⟩ | ⟨-, rfl⟩ | ⟨-, rfl⟩ | ⟨-, rfl⟩ | ⟨-, rfl⟩ | ⟨-, rfl⟩ <;>
    infer_instance

variable (extra) in
lemma frugal_operator {kind : TokenKind} {rule : Expr → Power → ParseM Expr}
    (h : operator? sub kind = some rule) (left : Expr) (power : Power) :
    FrugalInside extra (rule left power) := by
  rcases operator?_eq_some sub h with ⟨-, rfl⟩ | ⟨-, rfl⟩ | ⟨-, rfl⟩ <;> infer_instance

instance (power : Power) (rounds : List Lexeme) (left : Expr) :
    FrugalInside extra (operators sub power rounds left) := by
  induction rounds generalizing left with
  | nil => unfold operators; infer_instance
  | cons _ rounds ih =>
    constructor
    intro p hp
    rw [operators_cons, operatorRound]
    split
    · cases hrule : operator? sub p.lookahead.kind with
      | none => exact .ok hp rfl
      | some rule =>
        have := frugal_operator extra sub hrule
        exact .of_advance hp (FrugalInside.outcome
          (rule left p.lookahead.kind.power >>= operators sub power rounds)
          (Parser.lexemes_advance_ne_nil (kind_ne_of_operator hrule)))
    · exact .ok hp rfl

/-- An expression begins on a token, or fails. -/
instance (power : Power) : Frugal (extra + 1) (chain sub power) where
  costs p := by
    simp only [chain, get_bind]
    cases hrule : operand? sub p.current.kind with
    | none => exact .throw _
    | some rule =>
      have := frugal_operand extra sub hrule
      exact FrugalInside.outcome (do
        let left ← rule
        operators sub power (← get).lexemes left) (lexemes_ne_nil_of_operand hrule)

end Expressions

/-- A failing expression costs one more move at most for each level left: each level may have a block
that is open at the end of the source. -/
instance frugal_expressionAt (levels : Nat) (power : Power) :
    Frugal levels (expressionAt levels power) := by
  induction levels generalizing power with
  | zero => exact ⟨fun _ => .throw _⟩
  | succ levels ih => unfold expressionAt; infer_instance

/-! ## Progress of lists -/

/-- An iteration of a list of statements that starts on `p` ends the list, or leaves it to go on with
fewer tokens left, whatever comes then. -/
def Progresses (sub : Subparser) (inBlock : Bool) (p : Parser) : Prop :=
  (∃ done, ∀ next, statementRound sub inBlock next () p = ([], done)) ∨
    ∃ stmts q, q.lexemes.length < p.lexemes.length ∧
      ∀ next, statementRound sub inBlock next () p = (stmts ++ (next () q).1, (next () q).2)

/-- Each iteration passes a token or ends the list. -/
theorem progresses (sub : Subparser) [∀ power, Moves (sub power)] (inBlock : Bool) (p : Parser) :
    Progresses sub inBlock p := by
  unfold Progresses statementRound
  by_cases hend : atListEnd inBlock p = true
  · exact .inl ⟨p, fun _ => if_pos hend⟩
  · simp only [if_neg hend]
    have hlt : ∀ q, p.Trail q → q.advance.lexemes.length < p.lexemes.length := fun _ =>
      length_advance_lt_of_not_atListEnd hend
    cases hs : statement sub p with
    | ok s q => exact .inr ⟨[s], q.advance, hlt q (Moves.ok _ hs), fun _ => rfl⟩
    | error d q =>
      have hq := ((Moves.error _ hs).record d).synchronize inBlock
      by_cases hclose : (inBlock && closesBlock d q) = true
      · exact .inl ⟨q.record d, fun _ => by simp only [if_pos hclose]⟩
      · exact .inr ⟨[], ((q.record d).synchronize inBlock).advance, hlt _ hq, fun _ => by
          simp only [if_neg hclose, List.nil_append]⟩

end Rule

variable (source : String) (label? : Option String)

/-- Before the parse of a source begins its window has not moved. -/
lemma Parser.effort_start :
    (start source label?).effort = (tokenize source label?).countP (·.kind != .endOfInput) := by
  have hadvances : (start source label?).advances = 0 := rfl
  have htokens : (tokenize source label?).countP (·.kind != .endOfInput) =
      (start source label?).tokens.countP (·.kind != .endOfInput) := by
    rw [tokenize_eq_start, List.countP_append]
    simp [Token.endOfInput]
  have hcount : (start source label?).tokens.countP (·.kind != .endOfInput) =
      (start source label?).tokens.length := by
    refine List.countP_eq_length.2 fun t ht => ?_
    obtain ⟨l, hl, rfl⟩ := List.mem_map.1 ht
    simpa using kind_ne_of_mem_start source label? hl
  rw [htokens, hcount, effort, hadvances, Nat.zero_add, tokens, List.length_map]

/-- The transcript of a parse tells how often the window moved on the way through the program. -/
lemma countP_transcript_parse :
    (parse source label?).transcript.countP Event.isReached =
      (Rule.statementList (Rule.expressionAt maxNesting) false (.start source label?)).2.advances := by
  rw [← Rule.statementList_expression maxNesting (by simp)]
  change ((Rule.statementList Rule.expression false (.start source label?)).2.note
    (.finished _ _)).transcript.toList.countP Event.isReached = _
  simp [Parser.note, Parser.advances, Event.isReached]

/-- Parsing takes a linear number of steps.  The lists of statements go on until they end by themselves,
the program at the end of the source, and each of their iterations passes a token or is the last one.
The window moves once for each token at least, and at most `maxNesting + 1` times more. -/
theorem parse_advances :
    (∀ levels inBlock p,
      Rule.statementList (Rule.expressionAt levels) inBlock p =
          Rule.statementRound (Rule.expressionAt levels) inBlock
            (fun _ => Rule.statementList (Rule.expressionAt levels) inBlock) () p ∧
        Rule.Progresses (Rule.expressionAt levels) inBlock p) ∧
      (Rule.statementList (Rule.expressionAt maxNesting) false (.start source label?)).2.lexemes =
        [] ∧
      (tokenize source label?).countP (·.kind != .endOfInput) ≤
        (parse source label?).transcript.countP Event.isReached ∧
      (parse source label?).transcript.countP Event.isReached ≤
        (tokenize source label?).countP (·.kind != .endOfInput) + maxNesting + 1 := by
  have hnil := lexemes_statementList_start source label? maxNesting
  have heffort : ∀ p : Parser, p.lexemes = [] → p.advances = p.effort := by
    intro p hp
    rw [Parser.effort, hp, List.length_nil, Nat.add_zero]
  rw [countP_transcript_parse, heffort _ hnil, ← Parser.effort_start]
  refine ⟨fun levels inBlock p => ?_, hnil, ?_, ?_⟩
  · exact ⟨Rule.statementList_eq _ inBlock p, Rule.progresses _ inBlock p⟩
  · exact (Rule.statements_trail (Rule.expressionAt maxNesting) false _ _).effort_le
  · exact (Rule.within_statements maxNesting (Rule.expressionAt maxNesting) false _ _).le

end ScriptSyntax
