import ScriptSyntax.Proofs.Grammar.Language
import ScriptSyntax.Proofs.Parser.Loop

/-!
# Invariants

An invariant is what holds of a parser between any two rules.  The rules differ in what they read, but
there are few things that they do to a parser: they move the window, they enter and leave levels of
nesting, and they fail in one of the ways that `Parser.Raises` lists.  A failure is recorded by the list
of statements around it, which goes on behind a boundary, or ends its block on the brace where an operand
was to start.  What all of these keep is an `Invariant`, and every rule keeps it.

An expression is one level of nesting further in than what it is part of, and its first token is passed
before the next level is entered.  An invariant may speak of this: `Entered` is what is left of it in
between.

## Main statements

* `Invariant.keeps_expressionAt`: every expression keeps every invariant.
* `Invariant.holds_statementList`: so does every list of statements.
-/

namespace ScriptSyntax

open Rule

/-! ## Failures -/

namespace Parser

/-- The diagnostics that a rule fails with on `p`.  The levels of nesting that ran out may have been left
since, so that of these it says what held when they were entered. -/
inductive Raises (Holds : Parser → Prop) (p : Parser) : Diagnostic → Prop where
  | unexpected {kind : TokenKind} : p.lookahead.kind ≠ kind → Raises Holds p (p.unexpected kind)
  | notAnOperand : (∀ sub, operand? sub p.current.kind = none) → Raises Holds p p.notAnOperand
  | integerRange : p.current.kind = .integer → integerBound ≤ Grammar.decimal p.current →
      Raises Holds p ⟨.integerRange p.current.text, p.position⟩
  | tooDeep {depth : Nat} : maxNesting ≤ depth → Holds { p with depth := depth } →
      Raises Holds p p.tooDeep
  | unclosed : p.current.kind = .endOfInput →
      Raises Holds p ⟨.expectedToken .rightBrace .endOfInput, p.position⟩

/-- Failing does not read the nesting. -/
lemma Raises.with_depth {Holds : Parser → Prop} {p : Parser} {d : Diagnostic}
    (h : p.Raises Holds d) (depth : Nat) : Raises Holds { p with depth := depth } d := by
  cases h with
  | unexpected hkind => exact .unexpected (p := { p with depth := depth }) hkind
  | notAnOperand hkind => exact .notAnOperand (p := { p with depth := depth }) hkind
  | integerRange hkind hbound => exact .integerRange (p := { p with depth := depth }) hkind hbound
  | tooDeep hdepth hholds => exact .tooDeep (p := { p with depth := depth }) hdepth hholds
  | unclosed hkind => exact .unclosed (p := { p with depth := depth }) hkind

/-- A diagnostic that closes a block is about the brace. -/
lemma Raises.position_of_closesBlock {Holds : Parser → Prop} {p : Parser} {d : Diagnostic}
    (h : p.Raises Holds d) (hd : closesBlock d p = true) : d.position = p.position := by
  cases h with
  | unexpected => cases hd
  | notAnOperand | integerRange | tooDeep | unclosed => rfl

/-- Every diagnostic is about a token in the window. -/
lemma Raises.position_eq {Holds : Parser → Prop} {p : Parser} {d : Diagnostic}
    (h : p.Raises Holds d) : d.position = p.position ∨ d.position = p.lookahead.position := by
  cases h with
  | unexpected => exact .inr rfl
  | notAnOperand | integerRange | tooDeep | unclosed => exact .inl rfl

end Parser

/-! ## Invariants -/

/-- What holds of a parser between two rules, and why it does. -/
structure Invariant where
  /-- What holds between two rules, and where an expression may start. -/
  Holds : Parser → Prop
  /-- What holds inside an expression, on its first token or further on. -/
  Entered : Parser → Prop
  entered_of_holds {p : Parser} : Holds p → Entered p
  advance {p : Parser} : Holds p → Holds p.advance
  /-- Past the first token of an expression the next level may be entered. -/
  advance_of_entered {p : Parser} : Entered p → p.lexemes ≠ [] → Holds p.advance
  enter {p : Parser} : Holds p → Entered { p with depth := p.depth + 1 }
  leave {p : Parser} : Entered { p with depth := p.depth + 1 } → Holds p
  /-- A list of statements goes on behind a failure. -/
  recover {p : Parser} {d : Diagnostic} (inBlock : Bool) :
    Holds p → p.Raises Holds d → Holds ((p.record d).synchronize inBlock).advance
  /-- Or it ends on the brace that failed to start an operand. -/
  close {p : Parser} {d : Diagnostic} :
    Holds p → p.Raises Holds d → closesBlock d p = true → Holds (p.record d)

namespace Invariant

/-- How a rule ends that keeps the nesting at `depth`: with `Ok` behind a success, and with `Err` behind a
failure. -/
inductive Ends (I : Invariant) (depth : Nat) (Ok Err : Parser → Prop) {α : Type} :
    EStateM.Result Diagnostic Parser α → Prop where
  | ok {a : α} {q : Parser} : q.depth = depth → Ok q → Ends I depth Ok Err (.ok a q)
  | error {d : Diagnostic} {q : Parser} : q.depth = depth → Err q → q.Raises I.Holds d →
      Ends I depth Ok Err (.error d q)

/-- A rule that keeps the invariant. -/
class Keeps (I : Invariant) (depth : Nat) {α : Type} (rule : ParseM α) : Prop where
  ends : ∀ p : Parser, p.depth = depth → I.Holds p → I.Ends depth I.Holds I.Holds (rule p)

/-- A rule that keeps the invariant inside an expression, where it starts on the first token and moves
past it. -/
class Opens (I : Invariant) (depth : Nat) {α : Type} (rule : ParseM α) : Prop where
  ends : ∀ p : Parser, p.depth = depth → I.Entered p → p.lexemes ≠ [] →
    I.Ends depth I.Holds I.Entered (rule p)

variable {I : Invariant} {depth : Nat} {α β : Type}

section Combinators

variable {Ok Ok' Err Err' : Parser → Prop} {r : EStateM.Result Diagnostic Parser α}

lemma Ends.mono (h : I.Ends depth Ok Err r) (hok : ∀ q, Ok q → Ok' q) (herr : ∀ q, Err q → Err' q) :
    I.Ends depth Ok' Err' r := by
  cases h with
  | ok hdepth hq => exact .ok hdepth (hok _ hq)
  | error hdepth hq hd => exact .error hdepth (herr _ hq) hd

/-- A rule and what follows it. -/
lemma Ends.bind {x : ParseM α} {f : α → ParseM β} {p : Parser} (hx : I.Ends depth Ok Err (x p))
    (hf : ∀ a q, q.depth = depth → Ok q → I.Ends depth Ok' Err (f a q)) :
    I.Ends depth Ok' Err ((x >>= f) p) := by
  rw [bind_apply]
  generalize x p = r at hx
  cases hx with
  | ok hdepth hq => exact hf _ _ hdepth hq
  | error hdepth hq hd => exact .error hdepth hq hd

instance (a : α) : I.Keeps depth (pure a : ParseM α) := ⟨fun _ hp h => .ok hp h⟩

instance : I.Keeps depth (get : ParseM Parser) := ⟨fun _ hp h => .ok hp h⟩

instance : I.Keeps depth Rule.advance := ⟨fun _ hp h => .ok hp (I.advance h)⟩

instance : I.Opens depth Rule.advance := ⟨fun _ hp h hne => .ok hp (I.advance_of_entered h hne)⟩

instance (x : ParseM α) (f : α → ParseM β) [hx : I.Keeps depth x] [hf : ∀ a, I.Keeps depth (f a)] :
    I.Keeps depth (x >>= f) :=
  ⟨fun p hp h => (hx.ends p hp h).bind fun a => (hf a).ends⟩

instance (x : ParseM α) (f : α → ParseM β) [hx : I.Opens depth x] [hf : ∀ a, I.Keeps depth (f a)] :
    I.Opens depth (x >>= f) :=
  ⟨fun p hp h hne => (hx.ends p hp h hne).bind fun a q hq hholds =>
    ((hf a).ends q hq hholds).mono (fun _ => id) fun _ => I.entered_of_holds⟩

instance (f : Parser → ParseM β) [hf : ∀ p, I.Opens depth (f p)] : I.Opens depth (get >>= f) :=
  ⟨fun p => (hf p).ends p⟩

instance (g : α → β) (x : ParseM α) [hx : I.Keeps depth x] : I.Keeps depth (g <$> x) where
  ends p hp h := by
    have hends := hx.ends p hp h
    rw [map_apply]
    generalize x p = r at hends
    cases hends with
    | ok hdepth hq => exact .ok hdepth hq
    | error hdepth hq hd => exact .error hdepth hq hd

instance (c : Prop) [Decidable c] (x y : ParseM α) [hx : I.Keeps depth x] [hy : I.Keeps depth y] :
    I.Keeps depth (if c then x else y) := by
  split <;> assumption

end Combinators

/-! ## The rules -/

instance (kind : TokenKind) : I.Keeps depth (expect kind) where
  ends p hp h := by
    rw [expect_apply]
    split
    · exact .ok hp (I.advance h)
    · rename_i hkind
      exact .error hp h (.unexpected (by simpa [Parser.lookaheadIs] using hkind))

instance (kind : TokenKind) : I.Opens depth (expect kind) where
  ends p hp h hne := by
    rw [expect_apply]
    split
    · exact .ok hp (I.advance_of_entered h hne)
    · rename_i hkind
      exact .error hp h (.unexpected (by simpa [Parser.lookaheadIs] using hkind))

instance : I.Keeps depth expectEnd where
  ends p hp h := by
    rw [expectEnd_apply]
    split
    · exact .ok hp (I.advance h)
    · rename_i hkind
      split
      · exact .ok hp h
      · exact .error hp h (.unexpected (by simpa [Parser.lookaheadIs] using hkind))

instance : I.Keeps depth identifier := by unfold identifier; infer_instance

section Statements

variable (sub : Subparser) [∀ power, I.Keeps depth (sub power)]

instance : I.Keeps depth (letStatement sub) := by unfold letStatement; infer_instance

instance : I.Keeps depth (returnValue sub) := by unfold returnValue; infer_instance

instance : I.Keeps depth (returnStatement sub) := by unfold returnStatement; infer_instance

instance : I.Keeps depth (expressionStatement sub) := by unfold expressionStatement; infer_instance

instance (kind : TokenKind) :
    I.Keeps depth ((statement? sub kind).getD (expressionStatement sub)) := by
  unfold statement?
  split <;> simp only [Option.getD_some, Option.getD_none] <;> infer_instance

instance : I.Keeps depth (statement sub) := by unfold statement; infer_instance

/-- A list of statements keeps the invariant, whatever fails in it. -/
lemma holds_statements (inBlock : Bool) (rounds : List Lexeme) {p : Parser} (hp : p.depth = depth)
    (h : I.Holds p) :
    (statements sub inBlock rounds p).2.depth = depth ∧
      I.Holds (statements sub inBlock rounds p).2 := by
  induction rounds generalizing p with
  | nil => exact ⟨hp, h⟩
  | cons _ rounds ih =>
    have hstatement : I.Keeps depth (statement sub) := inferInstance
    have hends := hstatement.ends p hp h
    unfold statements
    split
    · exact ⟨hp, h⟩
    · generalize statement sub p = r at hends
      cases hends with
      | ok hdepth hq => exact ih (p := Parser.advance _) hdepth (I.advance hq)
      | @error d q hdepth hq hd =>
        simp only
        split
        · rename_i hclose
          exact ⟨hdepth, I.close hq hd (Bool.and_eq_true_iff.1 hclose).2⟩
        · refine ih ?_ (I.recover inBlock hq hd)
          rw [Parser.depth_advance, Parser.depth_synchronize]
          exact hdepth

instance : I.Keeps depth (block sub) where
  ends p hp h := by
    obtain ⟨hdepth, hbody⟩ :=
      holds_statements sub true p.advance.lexemes (p := p.advance) hp (I.advance h)
    rw [block_eq]
    split
    · rename_i hend
      exact .error hdepth hbody (.unclosed (by simpa [Parser.currentIs] using hend))
    · exact .ok hdepth hbody

end Statements

section Expressions

variable (sub : Subparser) [hsub : ∀ power, I.Keeps depth (sub power)]

instance : I.Keeps depth (prefixed sub) := by unfold prefixed; infer_instance

instance : I.Opens depth (prefixed sub) := by unfold prefixed; infer_instance

instance : I.Keeps depth (group sub) := by unfold group; infer_instance

instance : I.Opens depth (group sub) := by unfold group; infer_instance

instance : I.Keeps depth (alternative sub) := by unfold alternative; infer_instance

set_option synthInstance.maxSize 512 in
instance : I.Keeps depth (conditional sub) := by unfold conditional; infer_instance

set_option synthInstance.maxSize 512 in
instance : I.Opens depth (conditional sub) := by unfold conditional; infer_instance

instance (rounds : List Lexeme) : I.Keeps depth (moreIdentifiers rounds) := by
  induction rounds with
  | nil => unfold moreIdentifiers; infer_instance
  | cons _ rounds ih => unfold moreIdentifiers; infer_instance

instance : I.Keeps depth parameters := by unfold parameters; infer_instance

instance : I.Keeps depth (function sub) := by unfold function; infer_instance

instance : I.Opens depth (function sub) := by unfold function; infer_instance

instance (rounds : List Lexeme) : I.Keeps depth (moreItems sub rounds) := by
  induction rounds with
  | nil => unfold moreItems; infer_instance
  | cons _ rounds ih => unfold moreItems; infer_instance

instance (close : TokenKind) : I.Keeps depth (items sub close) := by unfold items; infer_instance

instance (close : TokenKind) : I.Opens depth (items sub close) := by unfold items; infer_instance

instance : I.Keeps depth (array sub) := by unfold array; infer_instance

instance : I.Opens depth (array sub) := by unfold array; infer_instance

omit hsub in
/-- A token that is to be an expression by itself and is none is an integer out of range. -/
lemma ends_literal {p : Parser} (hp : p.depth = depth) (h : I.Entered p)
    (hkind : p.current.kind ∈ [.identifier, .integer, .string, .trueWord, .falseWord]) :
    I.Ends depth I.Entered I.Entered (literal p) := by
  simp only [literal, bind_apply, get_apply]
  cases he : Expr.ofToken p.current with
  | ok e => exact .ok hp h
  | error fault =>
    obtain ⟨hk, hbound, rfl⟩ : p.current.kind = .integer ∧
        integerBound ≤ Grammar.decimal p.current ∧ fault = .integerRange p.current.text := by
      revert he
      unfold Expr.ofToken
      generalize hk : p.current.kind = kind at hkind
      fin_cases hkind <;> simp only [reduceCtorEq, IsEmpty.forall_iff]
      split
      · simp
      · rename_i hbound
        rintro ⟨⟩
        exact ⟨trivial, not_lt.1 hbound, rfl⟩
    exact .error hp h (.integerRange hk hbound)

/-- Every operand keeps the invariant. -/
lemma ends_operand {p : Parser} {rule : ParseM Expr} (hp : p.depth = depth) (h : I.Entered p)
    (hrule : operand? sub p.current.kind = some rule) :
    I.Ends depth I.Entered I.Entered (rule p) := by
  have hne : p.lexemes ≠ [] := lexemes_ne_nil_of_operand hrule
  have hopens : ∀ (rule : ParseM Expr) [I.Opens depth rule],
      I.Ends depth I.Entered I.Entered (rule p) := fun _ hopens =>
    (hopens.ends p hp h hne).mono (fun _ => I.entered_of_holds) fun _ => id
  rcases operand?_eq_some sub hrule with ⟨hk, rfl⟩ | ⟨-, rfl⟩ | ⟨-, rfl⟩ | ⟨-, rfl⟩ | ⟨-, rfl⟩ |
    ⟨-, rfl⟩
  · exact ends_literal hp h hk
  all_goals exact hopens _

instance (left : Expr) (power : Power) : I.Keeps depth (infixed sub left power) := by
  unfold infixed; infer_instance

instance (left : Expr) : I.Keeps depth (call sub left) := by unfold call; infer_instance

instance (left : Expr) : I.Keeps depth (index sub left) := by unfold index; infer_instance

lemma keeps_operator {kind : TokenKind} {rule : Expr → Power → ParseM Expr}
    (h : operator? sub kind = some rule) (left : Expr) (power : Power) :
    I.Keeps depth (rule left power) := by
  rcases operator?_eq_some sub h with ⟨-, rfl⟩ | ⟨-, rfl⟩ | ⟨-, rfl⟩ <;> infer_instance

/-- A chain of operators keeps the invariant. -/
lemma ends_operators (power : Power) (rounds : List Lexeme) (left : Expr) {p : Parser}
    (hp : p.depth = depth) (h : I.Entered p) :
    I.Ends depth I.Entered I.Entered (operators sub power rounds left p) := by
  induction rounds generalizing p left with
  | nil => exact .ok hp h
  | cons _ rounds ih =>
    rw [operators_cons, operatorRound]
    split
    · cases hrule : operator? sub p.lookahead.kind with
      | none => exact .ok hp h
      | some rule =>
        have hne : p.lexemes ≠ [] := lexemes_ne_nil_of_operator hrule
        have hkeeps : I.Keeps depth (rule left p.lookahead.kind.power) :=
          keeps_operator sub hrule left _
        refine Ends.bind ((hkeeps.ends p.advance hp (I.advance_of_entered h hne)).mono
          (fun _ => I.entered_of_holds) fun _ => I.entered_of_holds) fun e q hq hentered => ?_
        exact ih e hq hentered
    · exact .ok hp h

omit hsub in
/-- No rule for operands starts with a token that one of them does not start with. -/
lemma operand?_eq_none {kind : TokenKind} (h : operand? sub kind = none) (sub' : Subparser) :
    operand? sub' kind = none := by
  revert h
  cases kind <;> simp [operand?]

/-- An operand and the operators behind it keep the invariant. -/
lemma ends_chain (power : Power) {p : Parser} (hp : p.depth = depth) (h : I.Entered p) :
    I.Ends depth I.Entered I.Entered (chain sub power p) := by
  rw [chain_eq]
  cases hrule : operand? sub p.current.kind with
  | none => exact .error hp h (.notAnOperand (operand?_eq_none sub hrule))
  | some rule =>
    exact (ends_operand sub hp h hrule).bind fun left q hq hentered =>
      ends_operators sub power q.lexemes left hq hentered

end Expressions

/-- Every expression keeps the invariant.  It fails for want of levels only where all of them are
entered. -/
theorem keeps_expressionAt {levels : Nat} (h : maxNesting ≤ depth + levels) (power : Power) :
    I.Keeps depth (expressionAt levels power) := by
  induction levels generalizing depth power with
  | zero =>
    refine ⟨fun p hp hholds => .error hp hholds (.tooDeep ?_ hholds)⟩
    omega
  | succ levels ih =>
    have hsub : ∀ power, I.Keeps (depth + 1) (expressionAt levels power) := ih (by omega)
    refine ⟨fun p hp hholds => ?_⟩
    rw [expressionAt, nested_apply]
    split
    · -- the level that was entered is left again, however the chain ends
      have hleave : ∀ q : Parser, q.depth = depth + 1 → I.Entered q → I.Holds q.leaveNesting := by
        intro q hq hentered
        refine I.leave ?_
        have hback : ({ q.leaveNesting with depth := q.leaveNesting.depth + 1 } : Parser) = q := by
          cases q
          simp_all [Parser.leaveNesting]
        rwa [hback]
      have hdepth : ∀ q : Parser, q.depth = depth + 1 → q.leaveNesting.depth = depth := by
        intro q hq
        simp [Parser.leaveNesting, hq]
      have hchain : I.Ends (depth + 1) I.Entered I.Entered
          (chain (expressionAt levels) power { p with depth := p.depth + 1 }) :=
        ends_chain (expressionAt levels) power (by simp [hp]) (I.enter hholds)
      generalize chain (expressionAt levels) power { p with depth := p.depth + 1 } = r at hchain
      cases hchain with
      | ok hq hentered => exact .ok (hdepth _ hq) (hleave _ hq hentered)
      | error hq hentered hd => exact .error (hdepth _ hq) (hleave _ hq hentered) (hd.with_depth _)
    · rename_i hlevels
      exact .error hp hholds (.tooDeep (not_lt.1 hlevels) hholds)

instance (power : Power) : I.Keeps depth (expressionAt maxNesting power) :=
  keeps_expressionAt (Nat.le_add_left _ _) power

instance (power : Power) : I.Keeps depth (expression power) where
  ends p hp h := by
    have hlevels : maxNesting ≤ depth + (maxNesting - p.depth) := by omega
    rw [expression_apply]
    exact (keeps_expressionAt hlevels power).ends p hp h

/-- Every list of statements keeps the invariant. -/
theorem holds_statementList {levels : Nat} {p : Parser} (hlevels : maxNesting ≤ p.depth + levels)
    (inBlock : Bool) (h : I.Holds p) : I.Holds (statementList (expressionAt levels) inBlock p).2 := by
  have hsub : ∀ power, I.Keeps p.depth (expressionAt levels power) := keeps_expressionAt hlevels
  exact (holds_statements (expressionAt levels) inBlock p.lexemes rfl h).2

end Invariant

end ScriptSyntax
