import ScriptSyntax.Proofs.Operations
import ScriptSyntax.Proofs.Parser.Outcome

/-!
# Levels are given back

A parser counts the levels of nesting that it has entered.  Only entering a level adds to the count, and
it fails where `maxNesting` levels are entered already; whatever parses a construct leaves every level
that it entered, however it ends.  So the count is the same behind a construct as in front of it, and it
is never above the limit: not between two operations, and not inside of one.

What goes on inside of an operation does not show in what comes out of it.  But the rules take the parser
for the expressions inside as an argument, and entering a level is its work.  `Rule.guarded other` is that
parser with an eye on the count: just behind the entrance to a level it hands over to `other` if the count
is above the limit.  As it parses what `Rule.expression` parses whatever `other` does, there is no such
place.

## Main statements

* `Operation.depth_apply`: what parses a construct gives back every level.
* `Operation.depth_run_le`: operations keep the count within the limit.
* `Rule.guarded_eq`: inside of the operations it is within the limit too.
* `Operation.levels_balanced`: all of this, and what happens at the limit.
-/

namespace ScriptSyntax

namespace Rule

/-! ## Inside of an expression -/

/-- An expression with so many levels left, which hands over to `other` where too many are entered. -/
def guardedAt (other : Subparser) : (levels : Nat) → Subparser
  | 0, power => expressionAt 0 power
  | levels + 1, power => nested do
    if (← get).depth ≤ maxNesting then chain (guardedAt other levels) power else other power

/-- An expression, which hands over to `other` where too many levels are entered. -/
def guarded (other : Subparser) : Subparser := fun power => do
  guardedAt other (maxNesting - (← get).depth) power

lemma guardedAt_eq (other : Subparser) (levels : Nat) :
    guardedAt other levels = expressionAt levels := by
  induction levels with
  | zero => rfl
  | succ levels ih =>
    funext power p
    rw [guardedAt, expressionAt, nested_apply, nested_apply, ih]
    split
    · rename_i hlevel
      -- with one more level entered the count is within the limit still
      rw [get_bind, if_pos (Nat.succ_le_of_lt hlevel)]
    · rfl

/-- No expression enters a level above the limit. -/
theorem guarded_eq (other : Subparser) : guarded other = expression := by
  funext power p
  rw [guarded, get_bind, guardedAt_eq, expression_apply]

end Rule

namespace Operation

open Rule

variable {p : Parser} {op : Operation}

/-! ## One operation -/

/-- Whether the operation parses a construct. -/
def isParse : Operation → Bool
  | program | block | statement | letStatement | returnStatement | expressionStatement
  | expression _ | literal | prefixed | group | conditional | function | array | infixed _ _
  | call _ | index _ => true
  | advance | expect _ | expectEnd | unexpected _ | record _ | synchronize _ | enterNesting
  | leaveNesting => false

lemma depth_final {α : Type} (rule : ParseM α) [Moves rule] (p : Parser) :
    (final (rule p)).depth = p.depth :=
  (Moves.trail rule p).depth_eq

/-- What parses a construct gives back every level, whether it fails or not. -/
theorem depth_apply (h : op.isParse = true) : (op.apply p).depth = p.depth := by
  cases op with
  | program =>
    exact (statements_trail Rule.expression false p.lexemes (p.note (.began p.label))).depth_eq
  | block | statement | letStatement | returnStatement | expressionStatement | expression | literal
  | prefixed | group | conditional | function | array | infixed | call | index =>
    exact depth_final _ p
  | advance | expect | expectEnd | unexpected | record | synchronize | enterNesting
  | leaveNesting => cases h

/-- An operation keeps the count within the limit. -/
lemma depth_apply_le (op : Operation) (h : p.depth ≤ maxNesting) :
    (op.apply p).depth ≤ maxNesting := by
  cases op with
  | advance | unexpected | record => exact h
  | synchronize inBlock => exact (Parser.depth_synchronize p inBlock).trans_le h
  | enterNesting =>
    simp only [apply, enterNesting_apply]
    split
    · assumption
    · exact h
  | leaveNesting => exact (Nat.sub_le _ _).trans h
  | expect | expectEnd => exact (depth_final _ p).trans_le h
  | program | block | statement | letStatement | returnStatement | expressionStatement
  | expression | literal | prefixed | group | conditional | function | array | infixed | call
  | index => exact (depth_apply rfl).trans_le h

/-! ## Any operations -/

/-- Operations keep the count within the limit. -/
theorem depth_run_le (ops : List Operation) (h : p.depth ≤ maxNesting) :
    (run ops p).depth ≤ maxNesting := by
  induction ops generalizing p with
  | nil => exact h
  | cons op ops ih => exact ih (depth_apply_le op h)

/-- Levels of nesting are given back.  What parses a construct ends with as many levels entered as it
began with, whatever the current token is and however it ends.  So there are never more than `maxNesting`
of them, between operations and, as `guarded` shows, inside of them; and where there are as many an
expression fails and leaves the parser as it was. -/
theorem levels_balanced :
    (∀ (op : Operation) (p : Parser), op.isParse = true → (op.apply p).depth = p.depth) ∧
      (∀ (ops : List Operation) (p : Parser), p.depth ≤ maxNesting →
        (run ops p).depth ≤ maxNesting) ∧
      (∀ other : Subparser, guarded other = Rule.expression) ∧
      ∀ (power : Power) (p : Parser), p.depth = maxNesting →
        Rule.expression power p = .error ⟨.nestingTooDeep maxNesting, p.position⟩ p := by
  refine ⟨fun op p h => depth_apply h, fun ops p h => depth_run_le ops h, guarded_eq,
    fun power p h => ?_⟩
  rw [expression_apply, h, Nat.sub_self, expressionAt_zero]
  rfl

/-- The parser at the start of a block, inside of as many expressions as there may be. -/
def atLimit : Parser :=
  { Parser.ofSource "\x7b -x; (y \x7d" none with depth := maxNesting }

/-- A block at the limit: its statements fail, and give nothing back that they did not enter. -/
theorem levels_balanced_atLimit :
    block.isParse = true ∧ (block.apply atLimit).depth = atLimit.depth ∧
      atLimit.depth ≤ maxNesting ∧
      (run [.enterNesting, .leaveNesting, .block, .enterNesting] atLimit).depth ≤ maxNesting ∧
      atLimit.depth = maxNesting ∧
      Rule.expression .lowest atLimit =
        .error ⟨.nestingTooDeep maxNesting, atLimit.position⟩ atLimit :=
  have ⟨hparse, hrun, _, hlimit⟩ := levels_balanced
  ⟨rfl, hparse .block atLimit rfl, le_rfl, hrun _ atLimit le_rfl, rfl, hlimit .lowest atLimit rfl⟩

end Operation

end ScriptSyntax
