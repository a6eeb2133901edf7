import ScriptSyntax.Proofs.Effort
import ScriptSyntax.Proofs.LastToken
import ScriptSyntax.Proofs.Tree.Statements

/-!
# How many faults one source can have

A fault leads to others: what follows it is read from a place where nothing may begin, and every block
around it may be found open at the end of the source.  Still there are no more of them than tokens.

The account is that of the faults recorded and the tokens left.  A move of the window takes a token out
of it, and the statement that begins there or the fault that is recorded takes the token's place.  A rule
that fails has passed a token that makes room for its fault, or it stays where it began; then recovery
steps over a token for it.  This holds at every depth: an open block fails at the end of the source, where
no token is left, but its statement began on one.

## Main statements

* `Rule.Settles`: the two ways in which a rule may fail.
* `Rule.load_statements_le`: a list of statements keeps the account, at any depth.
* `parse_statements_add_faults_lt`: there are more tokens than statements and faults together.
-/

namespace ScriptSyntax

namespace Parser

/-! ## The account of faults and tokens -/

/-- The faults recorded, those of tokens by themselves left aside, and the tokens left. -/
def load (p : Parser) : Nat := p.grammatical.length + p.lexemes.length

variable {p : Parser}

/-- A move takes a token out of the account, if there is one. -/
lemma load_advance (h : p.lexemes ≠ []) : p.advance.load + 1 = p.load := by
  have hpos : 0 < p.lexemes.length := List.length_pos_iff.2 h
  rw [load, load, grammatical_advance, lexemes_advance, List.length_tail]
  omega

lemma load_advance_le (p : Parser) : p.advance.load ≤ p.load := by
  rw [load, load, grammatical_advance, lexemes_advance, List.length_tail]
  omega

lemma load_record_le (p : Parser) (d : Diagnostic) : (p.record d).load ≤ p.load + 1 := by
  have hfaults : (p.record d).grammatical.length ≤ p.grammatical.length + 1 := by
    cases hd : d.isLexical with
    | true => simp [grammatical, record, hd]
    | false => rw [grammatical_record hd, List.length_append, List.length_singleton]
  have hlexemes : (p.record d).lexemes = p.lexemes := rfl
  rw [load, load, hlexemes]
  omega

lemma load_synchronize_le (p : Parser) (inBlock : Bool) : (p.synchronize inBlock).load ≤ p.load :=
  synchronize_induction (motive := fun q => q.load ≤ p.load)
    (fun q hq => q.load_advance_le.trans hq) le_rfl

/-- Stepping over a place on a token takes a token out of the account. -/
lemma load_recover_lt (h : p.lexemes ≠ []) (inBlock : Bool) :
    (p.synchronize inBlock).advance.load < p.load := by
  have hstep := load_advance (effort_synchronize h inBlock).1
  have hskip := p.load_synchronize_le inBlock
  omega

end Parser

namespace Rule

/-! ## Rules that keep the account -/

/-- The outcome of a rule keeps the account within `bound`, together with what is inside the value if
there is one, and else with room for so many more. -/
inductive Pays (bound room : Nat) {α : Type} (weight : α → Nat) :
    EStateM.Result Diagnostic Parser α → Prop where
  | ok {a : α} {q : Parser} : q.load + weight a ≤ bound → Pays bound room weight (.ok a q)
  | error {d : Diagnostic} {q : Parser} : q.load + room ≤ bound → Pays bound room weight (.error d q)

/-- The outcome of a rule that began on `p` keeps the account, and if the rule failed there is room for
its fault; or it failed on `p`. -/
inductive Settles (p : Parser) {α : Type} (weight : α → Nat) :
    EStateM.Result Diagnostic Parser α → Prop where
  | pays {r : EStateM.Result Diagnostic Parser α} : Pays p.load 1 weight r → Settles p weight r
  | stays {d : Diagnostic} : Settles p weight (.error d p)

section Combinators

variable {α β : Type} {v : α → Nat} {w : β → Nat} {bound bound' room carried : Nat} {p : Parser}
  {x : ParseM α} {f : α → ParseM β}

lemma Pays.mono {r : EStateM.Result Diagnostic Parser α} (h : Pays bound 0 v r)
    (hbound : bound + room ≤ bound') : Pays bound' room v r := by
  cases h with
  | ok hq => exact .ok (by omega)
  | error hq => exact .error (by omega)

/-- A sequence of two rules.  What is inside the value of the first one is carried along. -/
theorem Pays.bind (hx : Pays bound room v (x p))
    (hf : ∀ a q, q.load + v a ≤ bound → Pays bound room w (f a q)) :
    Pays bound room w ((x >>= f) p) := by
  rw [bind_apply]
  generalize x p = r at hx
  cases hx with
  | ok hq => exact hf _ _ hq
  | error hq => exact .error hq

/-- A rule that is run with something carried along already. -/
theorem Pays.andThen (hx : Pays bound 0 v (x p)) (hbound : bound + carried ≤ bound')
    (hf : ∀ a q, q.load + (carried + v a) ≤ bound' → Pays bound' 0 w (f a q)) :
    Pays bound' 0 w ((x >>= f) p) := by
  rw [bind_apply]
  generalize x p = r at hx
  cases hx with
  | ok hq => exact hf _ _ (by omega)
  | error hq => exact .error (by omega)

lemma Pays.map {g : α → β} (hx : Pays bound room (fun a => w (g a)) (x p)) :
    Pays bound room w ((g <$> x) p) := by
  rw [map_apply]
  generalize x p = r at hx
  cases hx with
  | ok hq => exact .ok hq
  | error hq => exact .error hq

/-- The last step of a rule, which makes a value of what was carried along. -/
lemma Pays.pure {b : β} (h : p.load + w b ≤ bound) : Pays bound room w ((pure b : ParseM β) p) :=
  .ok h

lemma Settles.within {r : EStateM.Result Diagnostic Parser α} (h : Settles p v r) :
    Pays p.load 0 v r := by
  cases h with
  | pays hr =>
    cases hr with
    | ok hq => exact .ok hq
    | error hq => exact .error (Nat.le_of_succ_le hq)
  | stays => exact .error le_rfl

/-- A rule that passes the token it begins on has room for a fault from there on. -/
lemma Settles.of_advance {r : EStateM.Result Diagnostic Parser α} (hp : p.lexemes ≠ [])
    (h : Pays p.advance.load 0 v r) : Settles p v r :=
  .pays (h.mono (Parser.load_advance hp).le)

/-- A rule that insists on a token stays if it is not there. -/
lemma Settles.expect_bind {f : Unit → ParseM β} {kind : TokenKind} (hkind : kind ≠ .endOfInput)
    (h : Pays p.advance.load 0 w (f () p.advance)) : Settles p w ((expect kind >>= f) p) := by
  by_cases hlook : p.lookahead.kind = kind
  · rw [Rule.expect_bind hlook]
    refine .of_advance (fun hnil => hkind ?_) h
    rw [← hlook, Parser.lookahead_of_lexemes_eq_nil hnil]
  · rw [bind_apply, expect_apply, if_neg (by simpa [Parser.lookaheadIs] using hlook)]
    exact .stays

theorem Settles.bind (hx : Settles p v (x p))
    (hf : ∀ a q, q.load + v a ≤ p.load → Pays p.load 1 w (f a q)) : Settles p w ((x >>= f) p) := by
  rw [bind_apply]
  generalize x p = r at hx
  cases hx with
  | pays hr =>
    cases hr with
    | ok hq => exact .pays (hf _ _ hq)
    | error hq => exact .pays (.error hq)
  | stays => exact .stays

/-- The levels of nesting are no part of the account. -/
lemma Settles.nested (hx : Settles { p with depth := p.depth + 1 } v (x { p with depth := p.depth + 1 })) :
    Settles p v (nested x p) := by
  rw [nested_apply]
  split
  · generalize x { p with depth := p.depth + 1 } = r at hx
    cases hx with
    | pays hr =>
      cases hr with
      | ok hq => exact .pays (.ok hq)
      | error hq => exact .pays (.error hq)
    | stays => exact .stays
  · exact .stays

end Combinators

/-! ## The rules -/

/-- What `sub` parses keeps the account, and ends on a token if it ends well. -/
structure Thrifty (sub : Subparser) : Prop where
  stops : StopsExpressions sub
  settles : ∀ power p, Settles p Expr.inside (sub power p)

lemma pays_expect (kind : TokenKind) (p : Parser) : Pays p.load 0 (fun _ => 0) (expect kind p) := by
  rw [expect_apply]
  split
  · exact .ok p.load_advance_le
  · exact .error le_rfl

lemma settles_expectEnd (p : Parser) : Settles p (fun _ => 0) (expectEnd p) := by
  rw [expectEnd_apply]
  split
  · exact .pays (.ok p.load_advance_le)
  · split
    · exact .pays (.ok le_rfl)
    · exact .stays

lemma pays_identifier (p : Parser) : Pays p.load 0 (fun _ => 0) (identifier p) :=
  (pays_expect _ p).bind fun _ _ hq => .ok hq

section Statements

variable {sub : Subparser} (hsub : Thrifty sub) {p : Parser}

include hsub

lemma settles_letStatement (p : Parser) : Settles p Stmt.inside (letStatement sub p) := by
  rw [letStatement, get_bind, identifier, bind_assoc]
  refine .expect_bind (by decide) ?_
  rw [bind_assoc, get_bind, pure_bind]
  refine (pays_expect .assign p.advance).bind fun _ q hq => ?_
  rw [advance_bind]
  have hvalue : Pays p.advance.load 0 Expr.inside (sub .lowest q.advance) :=
    (hsub.settles .lowest q.advance).within.mono (q.load_advance_le.trans hq)
  refine hvalue.bind fun value r hr => ?_
  exact (settles_expectEnd r).within.andThen hr fun _ _ ht => .pure ht

/-- Without a value a `return` fails where it stands. -/
lemma settles_returnStatement (hp : p.lexemes ≠ []) :
    Settles p Stmt.inside (returnStatement sub p) := by
  rw [returnStatement, get_bind, returnValue, bind_assoc, get_bind]
  dsimp only
  split
  · rw [pure_bind]
    exact (settles_expectEnd p).bind fun _ _ hq => .pure hq
  · rw [bind_assoc, advance_bind]
    refine .of_advance hp ?_
    have hvalue : Pays p.advance.load 0 insideValue ((some <$> sub .lowest) p.advance) :=
      .map (hsub.settles .lowest p.advance).within
    refine hvalue.bind fun value r hr => ?_
    exact (settles_expectEnd r).within.andThen hr fun _ _ ht => .pure ht

lemma settles_expressionStatement (p : Parser) :
    Settles p Stmt.inside (expressionStatement sub p) := by
  rw [expressionStatement, get_bind]
  refine (hsub.settles .lowest p).bind fun e q hq => ?_
  rw [get_bind]
  split
  · exact .pure ((Nat.add_le_add_right q.load_advance_le _).trans hq)
  · exact .pure hq

/-- A statement that begins on a token keeps the account. -/
theorem settles_statement (hp : p.lexemes ≠ []) : Settles p Stmt.inside (statement sub p) := by
  rw [statement, get_bind]
  unfold statement?
  split
  · exact settles_letStatement hsub p
  · exact settles_returnStatement hsub hp
  · exact settles_expressionStatement hsub p

/-- A statement that ends well ends on a token. -/
lemma lexemes_ne_nil_of_statement {s : Stmt} {q : Parser} (h : statement sub p = .ok s q) :
    q.lexemes ≠ [] := by
  refine Parser.lexemes_ne_nil_of_current fun hend => ?_
  have hlast := stops_statement hsub.stops h
  rw [hend] at hlast
  rcases hlast with hk | hk | ⟨-, hk, -⟩ <;> revert hk <;> decide

/-- Each statement takes the place of a token that the list passes, and so does each fault that is
recorded: a statement that failed where it began is stepped over. -/
theorem load_statements_le (inBlock : Bool) (rounds : List Lexeme) (p : Parser) :
    (statements sub inBlock rounds p).2.load + statementsIn (statements sub inBlock rounds p).1 ≤
      p.load := by
  induction rounds generalizing p with
  | nil => exact le_rfl
  | cons _ rounds ih =>
    unfold statements
    split
    · exact le_rfl
    · rename_i hend
      have hp : p.lexemes ≠ [] := fun hnil => hend (atListEnd_of_lexemes_eq_nil hnil inBlock)
      have hsettles := settles_statement hsub hp
      generalize hs : statement sub p = r at hsettles
      cases hsettles with
      | pays hpays =>
        cases hpays with
        | @ok s q hq =>
          -- the last token of the statement pays for the statement
          have hmove := Parser.load_advance (lexemes_ne_nil_of_statement hsub hs)
          have hnext := ih q.advance
          simp only [statementsIn]
          omega
        | @error d q hq =>
          -- there is room for the fault, so that recovery may come to the end of the source
          have hrecord := q.load_record_le d
          simp only
          split
          · simp only [statementsIn]
            omega
          · have hskip := (q.record d).load_synchronize_le inBlock
            have hmove := ((q.record d).synchronize inBlock).load_advance_le
            have hnext := ih ((q.record d).synchronize inBlock).advance
            omega
      | @stays d =>
        -- no token has been passed, but the list is not over here, and recovery passes one
        have hclose : ¬(inBlock && closesBlock d p) = true := fun h =>
          hend (atListEnd_of_closesBlock h)
        have hrecord := p.load_record_le d
        have hrecover : ((p.record d).synchronize inBlock).advance.load < (p.record d).load :=
          Parser.load_recover_lt (p := p.record d) hp inBlock
        have hnext := ih ((p.record d).synchronize inBlock).advance
        simp only [if_neg hclose]
        omega

/-- A block keeps the account, also if it is open at the end of the source. -/
lemma pays_block (p : Parser) : Pays p.load 0 Block.inside (block sub p) := by
  have hmove := p.load_advance_le
  have hbody : (statementList sub true p.advance).2.load +
      statementsIn (statementList sub true p.advance).1 ≤ p.advance.load :=
    load_statements_le hsub true p.advance.lexemes p.advance
  rw [block_eq]
  split
  · exact .error (by omega)
  · exact .ok (by simp only [Block.inside]; omega)

end Statements

section Expressions

/-- There is nothing inside an expression of one token. -/
lemma inside_ofToken {t : Token} {e : Expr} (h : Expr.ofToken t = .ok e) : e.inside = 0 := by
  rcases Grammar.expr_of_ofToken_eq_ok h with rfl | ⟨_, rfl⟩ | rfl | ⟨_, rfl⟩ <;> rfl

lemma settles_literal (p : Parser) : Settles p Expr.inside (literal p) := by
  rw [literal, get_bind]
  cases he : Expr.ofToken p.current with
  | error fault => exact .stays
  | ok e => exact .pays (.ok (by rw [inside_ofToken he, Nat.add_zero]))

lemma pays_moreIdentifiers (rounds : List Lexeme) (p : Parser) :
    Pays p.load 0 (fun _ => 0) (moreIdentifiers rounds p) := by
  induction rounds generalizing p with
  | nil => exact .ok le_rfl
  | cons _ rounds ih =>
    rw [moreIdentifiers, get_bind]
    split
    · rw [advance_bind]
      refine ((pays_identifier p.advance).mono p.load_advance_le).bind fun id q hq => ?_
      exact ((ih q).mono hq).bind fun _ _ hr => .pure hr
    · exact .pure le_rfl

lemma pays_parameters (p : Parser) : Pays p.load 0 (fun _ => 0) (parameters p) := by
  rw [parameters, get_bind]
  split
  · exact .ok p.load_advance_le
  · refine (pays_identifier p).bind fun id q hq => ?_
    rw [get_bind]
    refine ((pays_moreIdentifiers q.lexemes q).mono hq).bind fun ids r hr => ?_
    exact ((pays_expect .rightParen r).mono hr).bind fun _ _ ht => .pure ht

variable {sub : Subparser} (hsub : Thrifty sub) {p : Parser}

include hsub

lemma settles_prefixed (hp : p.lexemes ≠ []) : Settles p Expr.inside (prefixed sub p) := by
  rw [prefixed, get_bind, advance_bind]
  exact .of_advance hp ((hsub.settles .unary p.advance).within.bind fun _ _ hq => .pure hq)

lemma settles_group (hp : p.lexemes ≠ []) : Settles p Expr.inside (group sub p) := by
  rw [group, advance_bind]
  refine .of_advance hp ((hsub.settles .lowest p.advance).within.bind fun _ q hq => ?_)
  exact (pays_expect .rightParen q).andThen hq fun _ _ hr => .pure hr

lemma pays_alternative (p : Parser) : Pays p.load 0 insideElse (alternative sub p) := by
  rw [alternative, get_bind]
  split
  · rw [advance_bind]
    refine ((pays_expect .leftBrace p.advance).mono p.load_advance_le).bind fun _ q hq => ?_
    exact .map ((pays_block hsub q).mono hq)
  · exact .pure le_rfl

lemma settles_conditional (p : Parser) : Settles p Expr.inside (conditional sub p) := by
  rw [conditional, get_bind]
  refine .expect_bind (by decide) ?_
  rw [advance_bind]
  have hcondition : Pays p.advance.load 0 Expr.inside (sub .lowest p.advance.advance) :=
    (hsub.settles .lowest p.advance.advance).within.mono p.advance.load_advance_le
  refine hcondition.bind fun condition q hq => ?_
  refine (pays_expect .rightParen q).andThen hq fun _ q₁ hq₁ => ?_
  refine (pays_expect .leftBrace q₁).andThen hq₁ fun _ q₂ hq₂ => ?_
  refine (pays_block hsub q₂).andThen hq₂ fun consequence q₃ hq₃ => ?_
  refine (pays_alternative hsub q₃).andThen hq₃ fun alternative q₄ hq₄ => ?_
  exact .pure hq₄

lemma settles_function (p : Parser) : Settles p Expr.inside (function sub p) := by
  rw [function, get_bind]
  refine .expect_bind (by decide) ?_
  refine (pays_parameters p.advance).bind fun ids q hq => ?_
  refine ((pays_expect .leftBrace q).mono hq).bind fun _ r hr => ?_
  exact ((pays_block hsub r).mono hr).bind fun _ _ ht => .pure ht

lemma pays_moreItems (rounds : List Lexeme) (p : Parser) :
    Pays p.load 0 insideEach (moreItems sub rounds p) := by
  induction rounds generalizing p with
  | nil => exact .ok le_rfl
  | cons _ rounds ih =>
    rw [moreItems, get_bind]
    split
    · rw [advance_bind, advance_bind]
      have hitem : Pays p.load 0 Expr.inside (sub .lowest p.advance.advance) :=
        (hsub.settles .lowest p.advance.advance).within.mono
          (p.advance.load_advance_le.trans p.load_advance_le)
      refine hitem.bind fun item q hq => ?_
      exact (ih q).andThen hq fun _ _ hr => .pure hr
    · exact .pure le_rfl

/-- The delimiter that opens a list is passed in any case. -/
lemma pays_items (close : TokenKind) (p : Parser) :
    Pays p.advance.load 0 insideEach (items sub close p) := by
  rw [items, get_bind, advance_bind]
  split
  · exact .pure le_rfl
  · refine (hsub.settles .lowest p.advance).within.bind fun item q hq => ?_
    rw [get_bind]
    refine (pays_moreItems hsub q.lexemes q).andThen hq fun items r hr => ?_
    exact (pays_expect close r).andThen hr fun _ _ ht => .pure ht

lemma settles_array (hp : p.lexemes ≠ []) : Settles p Expr.inside (array sub p) := by
  rw [array, get_bind]
  exact .of_advance hp ((pays_items hsub .rightBracket p).bind fun _ _ hq => .pure hq)

/-- An operand keeps the account. -/
theorem settles_operand {rule : ParseM Expr} (h : operand? sub p.current.kind = some rule) :
    Settles p Expr.inside (rule p) := by
  have hp := lexemes_ne_nil_of_operand h
  rcases operand?_eq_some sub h with ⟨-, rfl⟩ | ⟨-, rfl⟩ | ⟨-, rfl⟩ | ⟨-, rfl⟩ | ⟨-, rfl⟩ | ⟨-, rfl⟩
  · exact settles_literal p
  · exact settles_prefixed hsub hp
  · exact settles_group hsub hp
  · exact settles_conditional hsub p
  · exact settles_function hsub p
  · exact settles_array hsub hp

/-- An operator keeps the account, and what is inside its left operand with it. -/
theorem pays_operator {kind : TokenKind} {rule : Expr → Power → ParseM Expr}
    (h : operator? sub kind = some rule) {left : Expr} {power : Power} {bound : Nat}
    (hp : p.load + left.inside ≤ bound) : Pays bound 0 Expr.inside (rule left power p) := by
  have hmove : p.advance.load + left.inside ≤ bound :=
    (Nat.add_le_add_right p.load_advance_le _).trans hp
  rcases operator?_eq_some sub h with ⟨-, rfl⟩ | ⟨-, rfl⟩ | ⟨-, rfl⟩
  · rw [infixed, get_bind, advance_bind]
    exact (hsub.settles power p.advance).within.andThen hmove fun _ _ hq => .pure hq
  · dsimp only
    rw [call, get_bind]
    exact (pays_items hsub .rightParen p).andThen hmove fun _ _ hq => .pure hq
  · dsimp only
    rw [index, get_bind, advance_bind]
    refine (hsub.settles .lowest p.advance).within.andThen hmove fun place q hq => ?_
    exact (pays_expect .rightBracket q).andThen hq fun _ _ hr => .pure hr

/-- The operators of a chain.  If one of them fails, there is room for the fault, since the operator
itself has been passed. -/
lemma pays_operators (power : Power) (rounds : List Lexeme) {left : Expr} {bound : Nat}
    (hp : p.load + left.inside ≤ bound) :
    Pays bound 1 Expr.inside (operators sub power rounds left p) := by
  induction rounds generalizing left p with
  | nil => exact .ok hp
  | cons _ rounds ih =>
    rw [operators_cons, operatorRound]
    split
    · cases hrule : operator? sub p.lookahead.kind with
      | none => exact .ok hp
      | some rule =>
        have hmove := Parser.load_advance (lexemes_ne_nil_of_operator hrule)
        have hrest : p.advance.load + left.inside ≤ bound - 1 := by omega
        have happlied : Pays bound 1 Expr.inside (rule left p.lookahead.kind.power p.advance) :=
          (pays_operator hsub hrule hrest).mono (by omega)
        exact happlied.bind fun _ _ hq => ih hq
    · exact .ok hp

lemma settles_chain (power : Power) (p : Parser) : Settles p Expr.inside (chain sub power p) := by
  rw [chain, get_bind]
  cases hrule : operand? sub p.current.kind with
  | none => exact .stays
  | some rule =>
    refine (settles_operand hsub hrule).bind fun left q hq => ?_
    rw [get_bind]
    exact pays_operators hsub power q.lexemes hq

omit hsub in
/-- Expressions keep the account with any number of levels left: a level that is missing is a fault that
stays where it is. -/
theorem thrifty_expressionAt (levels : Nat) : Thrifty (expressionAt levels) where
  stops := stops_expressionAt levels
  settles := by
    induction levels with
    | zero => exact fun _ _ => .stays
    | succ levels ih =>
      exact fun power _ => .nested (settles_chain ⟨stops_expressionAt levels, ih⟩ power _)

end Expressions

end Rule

variable (source : String) (label? : Option String)

/-- Before the parse begins the account is that of the tokens alone. -/
lemma Parser.load_start : (start source label?).load + 1 = (tokenize source label?).length := by
  rw [load, grammatical_start, tokenize_eq_start]
  simp [tokens]

/-- The faults of a source, unclosed strings aside, and its statements at any depth are fewer than its
tokens: a fault may lead to others, but each of them takes up a token. -/
theorem parse_statements_add_faults_lt :
    statementsIn (parse source label?).program +
        (parse source label?).diagnostics.countP (fun d => !d.isLexical) <
      (tokenize source label?).length := by
  have hlist : (Rule.statementList (Rule.expressionAt maxNesting) false (.start source label?)).2.load +
      statementsIn (Rule.statementList (Rule.expressionAt maxNesting) false (.start source label?)).1 ≤
        (Parser.start source label?).load :=
    Rule.load_statements_le (Rule.thrifty_expressionAt maxNesting) false _ _
  have hstart := Parser.load_start source label?
  rw [Parser.load, lexemes_statementList_start, List.length_nil, Parser.grammatical] at hlist
  rw [program_parse, diagnostics_parse, List.countP_eq_length_filter]
  omega

/-- There may be just one token more, the end marker: here one token pays for a statement and one for a
fault. -/
example : statementsIn (parse "x )" none).program +
    (parse "x )" none).diagnostics.countP (fun d => !d.isLexical) + 1 =
      (tokenize "x )" none).length := by
  decide +kernel

end ScriptSyntax
