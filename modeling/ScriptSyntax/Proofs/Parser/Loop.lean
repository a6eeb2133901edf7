import ScriptSyntax.Proofs.Parser.Trail

/-!
# Loops without rounds

The loops of the rules take a list of rounds, one for each token left when they start.  Every round
moves the window, so the rounds never run out before the loop ends by itself: `loop_eq` says so of
any function that counts its rounds in this way.  Each loop started with all its rounds gets a name
here, and an equation that unrolls it by one round.

## Main statements

* `Rule.statementList_eq`, `Rule.operatorChain_eq`, `Rule.itemsTail_eq`, `Rule.identifiersTail_eq`:
  the equations of the four loops.
* `Rule.atListEnd_statementList`: a list of statements goes on until it ends by itself.
-/

namespace ScriptSyntax

namespace Parser

lemma Trail.length_le {p q : Parser} (h : p.Trail q) : q.lexemes.length ≤ p.lexemes.length :=
  h.lexemes_isSuffix.length_le

/-- Moving the window takes a token away, unless there was none. -/
lemma Trail.length_advance_le {p q : Parser} {n : Nat} (h : p.Trail q)
    (hn : p.lexemes.length ≤ n + 1) : q.advance.lexemes.length ≤ n := by
  have := h.length_le
  simp only [lexemes_advance, List.length_tail]
  omega

/-- Behind a token there are fewer of them. -/
lemma Trail.length_advance_lt {p q : Parser} (h : p.Trail q) (hp : p.lexemes ≠ []) :
    q.advance.lexemes.length < p.lexemes.length := by
  have hpos := List.length_pos_iff.2 hp
  have hle := h.length_le
  rw [lexemes_advance, List.length_tail]
  omega

/-- Past the last token the window shows the end marker. -/
lemma current_of_lexemes_eq_nil {p : Parser} (h : p.lexemes = []) :
    p.current.kind = .endOfInput := by
  simp [current, tokenAt, h, Token.endOfInput]

lemma lookahead_of_lexemes_eq_nil {p : Parser} (h : p.lexemes = []) :
    p.lookahead.kind = .endOfInput := by
  simp [lookahead, tokenAt, h, Token.endOfInput]

end Parser

namespace Rule

/-! ## Rounds that suffice -/

section Rounds

variable {β γ : Type} (loop : List Lexeme → β → Parser → γ)
  (round : (β → Parser → γ) → β → Parser → γ)

/-- The function `round` looks at its continuation only at parsers with fewer tokens left. -/
def Shrinking (round : (β → Parser → γ) → β → Parser → γ) : Prop :=
  ∀ ⦃next next' : β → Parser → γ⦄ ⦃n : Nat⦄,
    (∀ b q, q.lexemes.length ≤ n → next b q = next' b q) →
      ∀ b p, p.lexemes.length ≤ n + 1 → round next b p = round next' b p

/-- Any number of rounds that reaches to the end of the source gives the same result. -/
theorem loop_eq_of_length_le (hcons : ∀ l rounds, loop (l :: rounds) = round (loop rounds))
    (hidle : ∀ rounds b p, p.lexemes = [] → loop rounds b p = loop [] b p)
    (hround : Shrinking round) (rounds : List Lexeme) (b : β) (p : Parser)
    (h : p.lexemes.length ≤ rounds.length) : loop rounds b p = loop p.lexemes b p := by
  suffices hs : ∀ (rounds rounds' : List Lexeme) (b : β) (p : Parser),
      p.lexemes.length ≤ rounds.length → p.lexemes.length ≤ rounds'.length →
      loop rounds b p = loop rounds' b p from hs _ _ b p h le_rfl
  intro rounds
  induction rounds with
  | nil =>
    intro rounds' b p hp _
    have hnil : p.lexemes = [] := List.length_eq_zero_iff.1 (Nat.le_zero.1 hp)
    exact (hidle rounds' b p hnil).symm
  | cons l rounds ih =>
    intro rounds' b p hp hp'
    cases rounds' with
    | nil =>
      have hnil : p.lexemes = [] := List.length_eq_zero_iff.1 (Nat.le_zero.1 hp')
      exact hidle _ b p hnil
    | cons l' rounds' =>
      rw [hcons, hcons]
      refine hround (n := min rounds.length rounds'.length) ?_ b p ?_
      · intro b q hq
        exact ih rounds' b q (hq.trans (min_le_left _ _)) (hq.trans (min_le_right _ _))
      · simp only [List.length_cons] at hp hp'
        omega

/-- A loop with all its rounds is one round, and the loop with all its rounds again. -/
theorem loop_eq (hcons : ∀ l rounds, loop (l :: rounds) = round (loop rounds))
    (hidle : ∀ rounds b p, p.lexemes = [] → loop rounds b p = loop [] b p)
    (hround : Shrinking round) (b : β) (p : Parser) :
    loop p.lexemes b p = round (fun b q => loop q.lexemes b q) b p := by
  have hlen : p.lexemes.length ≤ (default :: p.lexemes).length := by simp
  rw [← loop_eq_of_length_le loop round hcons hidle hround (default :: p.lexemes) b p hlen, hcons]
  refine hround (n := p.lexemes.length) ?_ b p (Nat.le_succ _)
  exact fun b q hq => loop_eq_of_length_le loop round hcons hidle hround _ b q hq

end Rounds

variable (sub : Subparser)

/-! ## Lists of statements -/

/-- The statements up to the end of their list. -/
def statementList (inBlock : Bool) (p : Parser) : List Stmt × Parser :=
  statements sub inBlock p.lexemes p

/-- One statement of a list, before the list goes on with `next`. -/
def statementRound (inBlock : Bool) (next : Unit → Parser → List Stmt × Parser) (_ : Unit)
    (p : Parser) : List Stmt × Parser :=
  if atListEnd inBlock p then ([], p)
  else
    match statement sub p with
    | .ok s q =>
      let (body, done) := next () q.advance
      (s :: body, done)
    | .error d q =>
      if inBlock && closesBlock d q then ([], q.record d)
      else next () ((q.record d).synchronize inBlock).advance

lemma shrinking_statementRound [∀ power, Moves (sub power)] (inBlock : Bool) :
    Shrinking (statementRound sub inBlock) := by
  intro next next' n hnext _ p hp
  unfold statementRound
  split
  · rfl
  · cases hst : statement sub p with
    | ok s q => simp only [hnext () _ ((Moves.ok _ hst).length_advance_le hp)]
    | error d q =>
      have hq := ((Moves.error _ hst).record d).synchronize inBlock
      simp only [hnext () _ (hq.length_advance_le hp)]

lemma atListEnd_of_lexemes_eq_nil {p : Parser} (h : p.lexemes = []) (inBlock : Bool) :
    atListEnd inBlock p = true := by
  simp [atListEnd, Parser.currentIs, Parser.current_of_lexemes_eq_nil h]

/-- Behind a list that is not over there are fewer tokens. -/
lemma length_advance_lt_of_not_atListEnd {inBlock : Bool} {p q : Parser}
    (hend : ¬atListEnd inBlock p = true) (h : p.Trail q) :
    q.advance.lexemes.length < p.lexemes.length :=
  h.length_advance_lt fun hnil => hend (atListEnd_of_lexemes_eq_nil hnil inBlock)

/-- One statement, and the rest of the list. -/
theorem statementList_eq [∀ power, Moves (sub power)] (inBlock : Bool) (p : Parser) :
    statementList sub inBlock p =
      if atListEnd inBlock p then ([], p)
      else
        match statement sub p with
        | .ok s q =>
          let (body, done) := statementList sub inBlock q.advance
          (s :: body, done)
        | .error d q =>
          if inBlock && closesBlock d q then ([], q.record d)
          else statementList sub inBlock ((q.record d).synchronize inBlock).advance := by
  refine loop_eq (fun rounds (_ : Unit) q => statements sub inBlock rounds q)
    (statementRound sub inBlock) (fun _ _ => rfl) ?_
    (shrinking_statementRound sub inBlock) () p
  intro rounds _ q hq
  cases rounds <;> simp [statements, atListEnd_of_lexemes_eq_nil hq]

/-- A brace where an operand was to start, which closes the block around it, ends the list of the block. -/
lemma atListEnd_of_closesBlock {inBlock : Bool} {d : Diagnostic} {p : Parser}
    (h : (inBlock && closesBlock d p) = true) : atListEnd inBlock (p.record d) = true := by
  obtain ⟨rfl, hclose⟩ := Bool.and_eq_true_iff.1 h
  have hbrace : p.currentIs .rightBrace = true := by
    unfold closesBlock at hclose
    split at hclose
    · exact hclose
    · cases hclose
  exact Bool.or_eq_true_iff.2 (.inr hbrace)

/-- A list of statements goes on until it ends by itself. -/
theorem atListEnd_statementList [∀ power, Moves (sub power)] (inBlock : Bool) (p : Parser) :
    atListEnd inBlock (statementList sub inBlock p).2 = true := by
  induction hlen : p.lexemes.length using Nat.strong_induction_on generalizing p with
  | h n ih =>
    subst hlen
    rw [statementList_eq]
    split
    · assumption
    · rename_i hend
      cases hs : statement sub p with
      | ok s q => exact ih _ (length_advance_lt_of_not_atListEnd hend (Moves.ok _ hs)) _ rfl
      | error d q =>
        simp only
        split
        · rename_i hclose
          exact atListEnd_of_closesBlock hclose
        · have hq := ((Moves.error _ hs).record d).synchronize inBlock
          exact ih _ (length_advance_lt_of_not_atListEnd hend hq) _ rfl

/-- What stands in a block is a list of statements. -/
lemma blockBody_apply (p : Parser) :
    blockBody sub p = .ok (statementList sub true p).1 (statementList sub true p).2 := rfl

/-- A block is its list of statements, closed by the token that the list stops on unless that is the end
of the source. -/
theorem block_eq (p : Parser) :
    block sub p =
      if (statementList sub true p.advance).2.currentIs .endOfInput then
        .error ⟨.expectedToken .rightBrace .endOfInput, (statementList sub true p.advance).2.position⟩
          (statementList sub true p.advance).2
      else .ok (.mk p.current (statementList sub true p.advance).1)
        (statementList sub true p.advance).2 := by
  change (if (statementList sub true p.advance).2.currentIs .endOfInput then
      throw ⟨Fault.expectedToken .rightBrace .endOfInput,
        (statementList sub true p.advance).2.position⟩
    else pure (.mk p.current (statementList sub true p.advance).1) : ParseM Block)
      (statementList sub true p.advance).2 = _
  split <;> rfl

/-! ## Chains of operators -/

section Tokens

variable {sub} {p q : Parser} {left e : Expr} {power : Power}

/-- An operand begins on a token. -/
lemma lexemes_ne_nil_of_operand {rule : ParseM Expr}
    (h : operand? sub p.current.kind = some rule) : p.lexemes ≠ [] := fun hnil => by
  rw [Parser.current_of_lexemes_eq_nil hnil] at h
  cases h

/-- An operator is a token. -/
lemma kind_ne_of_operator {kind : TokenKind} {rule : Expr → Power → ParseM Expr}
    (h : operator? sub kind = some rule) : kind ≠ .endOfInput := by
  rintro rfl
  cases h

lemma lexemes_ne_nil_of_operator {rule : Expr → Power → ParseM Expr}
    (h : operator? sub p.lookahead.kind = some rule) : p.lexemes ≠ [] := fun hnil =>
  kind_ne_of_operator h (Parser.lookahead_of_lexemes_eq_nil hnil)

/-- Behind an operator and its operand there are fewer tokens. -/
lemma length_lt_of_operator [∀ power, Moves (sub power)] {rule : Expr → Power → ParseM Expr}
    (h : operator? sub p.lookahead.kind = some rule) (hq : rule left power p.advance = .ok e q) :
    q.lexemes.length < p.lexemes.length := by
  have := moves_operator sub h left power
  have hadvance : p.advance.lexemes.length < p.lexemes.length :=
    Parser.Trail.refl.length_advance_lt (lexemes_ne_nil_of_operator h)
  exact (Moves.ok _ hq).length_le.trans_lt hadvance

end Tokens

/-- The operators that come next as long as they hold tighter than `power`, applied to `left`. -/
def operatorChain (power : Power) (left : Expr) : ParseM Expr := fun p =>
  operators sub power p.lexemes left p

instance [∀ power, Moves (sub power)] (power : Power) (left : Expr) :
    Moves (operatorChain sub power left) :=
  ⟨fun p => Moves.trail (operators sub power p.lexemes left) p⟩

/-- One operator of a chain, before the chain goes on with `next`. -/
def operatorRound (power : Power) (next : Expr → ParseM Expr) (left : Expr) : ParseM Expr :=
  fun p =>
    if power < p.lookahead.kind.power then
      match operator? sub p.lookahead.kind with
      | none => .ok left p
      | some rule => (rule left p.lookahead.kind.power >>= next) p.advance
    else .ok left p

lemma operators_cons (power : Power) (l : Lexeme) (rounds : List Lexeme) :
    operators sub power (l :: rounds) = operatorRound sub power (operators sub power rounds) := by
  funext left p
  simp only [operators, operatorRound, bind_apply, get_apply]
  split
  · cases operator? sub p.lookahead.kind with
    | none => rfl
    | some rule => simp only [bind_apply, advance_apply]
  · rfl

lemma shrinking_operatorRound [∀ power, Moves (sub power)] (power : Power) :
    Shrinking (operatorRound sub power) := by
  intro (next : Expr → ParseM Expr) (next' : Expr → ParseM Expr) n hnext left p hp
  unfold operatorRound
  split
  · cases hop : operator? sub p.lookahead.kind with
    | none => rfl
    | some rule =>
      have := moves_operator sub hop left p.lookahead.kind.power
      simp only [bind_apply]
      cases hr : rule left p.lookahead.kind.power p.advance with
      | ok e q =>
        have hq := (Moves.ok _ hr).length_le
        have hadv : p.advance.lexemes.length ≤ n := Parser.Trail.refl.length_advance_le hp
        exact hnext e q (hq.trans hadv)
      | error d q => rfl
  · rfl

/-- An operator that is not there takes no round. -/
lemma operators_of_lexemes_eq_nil {p : Parser} (h : p.lexemes = []) (power : Power)
    (rounds : List Lexeme) (left : Expr) : operators sub power rounds left p = .ok left p := by
  have hlow : ¬power < p.lookahead.kind.power := by
    simp [Parser.lookahead_of_lexemes_eq_nil h, TokenKind.power, Power.lt_iff_rank, Power.rank]
  cases rounds with
  | nil => rfl
  | cons _ rounds => rw [operators_cons, operatorRound, if_neg hlow]

/-- One operator if there is one that holds tighter, and the rest of the chain. -/
theorem operatorChain_eq [∀ power, Moves (sub power)] (power : Power) (left : Expr) (p : Parser) :
    operatorChain sub power left p =
      operatorRound sub power (operatorChain sub power) left p := by
  refine loop_eq (operators sub power) (operatorRound sub power)
    (operators_cons sub power) ?_ (shrinking_operatorRound sub power) left p
  intro rounds left q hq
  rw [operators_of_lexemes_eq_nil sub hq, operators_of_lexemes_eq_nil sub hq]

/-- An operand, and the chain of operators after it. -/
theorem chain_eq (power : Power) (p : Parser) :
    chain sub power p =
      match operand? sub p.current.kind with
      | none => .error p.notAnOperand p
      | some rule => (rule >>= operatorChain sub power) p := by
  simp only [chain, bind_apply, get_apply]
  cases operand? sub p.current.kind with
  | none => rfl
  | some rule => simp only [bind_apply, get_apply, operatorChain]

/-! ## Lists behind commas -/

/-- The entries behind commas that `entry` reads. -/
def tailRound {α : Type} (entry : ParseM α) (next : Unit → ParseM (List α)) (_ : Unit) :
    ParseM (List α) := do
  if (← get).lookaheadIs .comma then
    advance
    let a ← entry
    let as ← next ()
    pure (a :: as)
  else
    pure []

lemma shrinking_tailRound {α : Type} (entry : ParseM α) [Moves entry] :
    Shrinking (tailRound entry) := by
  intro (next : Unit → ParseM (List α)) (next' : Unit → ParseM (List α)) n hnext _ p hp
  simp only [tailRound, bind_apply, get_apply]
  split
  · simp only [bind_apply, advance_apply]
    cases he : entry p.advance with
    | ok a q =>
      have hq := (Moves.ok _ he).length_le
      have hadv : p.advance.lexemes.length ≤ n := Parser.Trail.refl.length_advance_le hp
      simp only [hnext () q (hq.trans hadv)]
    | error d q => rfl
  · rfl

lemma tailRound_of_lexemes_eq_nil {α : Type} (entry : ParseM α) (next : Unit → ParseM (List α))
    {p : Parser} (h : p.lexemes = []) : tailRound entry next () p = .ok [] p := by
  have hno : p.lookaheadIs .comma = false := by
    simp [Parser.lookaheadIs, Parser.lookahead_of_lexemes_eq_nil h]
  simp [tailRound, bind_apply, get_apply, hno, pure_apply]

/-- The identifiers that follow, each after a comma. -/
def identifiersTail : ParseM (List Identifier) := fun p => moreIdentifiers p.lexemes p

instance : Moves identifiersTail :=
  ⟨fun p => Moves.trail (moreIdentifiers p.lexemes) p⟩

theorem identifiersTail_eq (p : Parser) :
    identifiersTail p = tailRound identifier (fun _ => identifiersTail) () p := by
  refine loop_eq (fun rounds (_ : Unit) => moreIdentifiers rounds) (tailRound identifier)
    (fun _ _ => rfl) ?_ (shrinking_tailRound identifier) () p
  intro rounds _ q hq
  cases rounds with
  | nil => rfl
  | cons _ rounds => exact tailRound_of_lexemes_eq_nil identifier (fun _ => moreIdentifiers rounds) hq

/-- The expression after a comma. -/
def item : ParseM Expr := do
  advance
  sub .lowest

instance [∀ power, Moves (sub power)] : Moves (item sub) := by unfold item; infer_instance

/-- The expressions that follow, each after a comma. -/
def itemsTail : ParseM (List Expr) := fun p => moreItems sub p.lexemes p

instance [∀ power, Moves (sub power)] : Moves (itemsTail sub) :=
  ⟨fun p => Moves.trail (moreItems sub p.lexemes) p⟩

lemma moreItems_cons (l : Lexeme) (rounds : List Lexeme) :
    moreItems sub (l :: rounds) = tailRound (item sub) (fun _ => moreItems sub rounds) () := by
  funext p
  simp only [moreItems, tailRound, item, bind_apply, get_apply]
  split <;> simp only [bind_apply, advance_apply]

theorem itemsTail_eq [∀ power, Moves (sub power)] (p : Parser) :
    itemsTail sub p = tailRound (item sub) (fun _ => itemsTail sub) () p := by
  refine loop_eq (fun rounds (_ : Unit) => moreItems sub rounds) (tailRound (item sub))
    (fun l rounds => ?_) ?_ (shrinking_tailRound (item sub)) () p
  · funext _
    exact moreItems_cons sub l rounds
  · intro rounds _ q hq
    cases rounds with
    | nil => rfl
    | cons _ rounds =>
      rw [moreItems_cons]
      exact tailRound_of_lexemes_eq_nil (item sub) (fun _ => moreItems sub rounds) hq

end Rule

end ScriptSyntax
