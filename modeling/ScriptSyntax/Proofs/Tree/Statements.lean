import ScriptSyntax.Tree.Basic

/-!
# The statements of a tree

Statements stand in lists, and the blocks of conditionals and functions put further lists inside of
them.  Here all statements of a tree are counted, however deep they lie.
-/

namespace ScriptSyntax

mutual

/-- The number of statements inside an expression. -/
def Expr.inside : Expr → Nat
  | .identifier _ | .integer _ _ | .string _ _ | .boolean _ _ => 0
  | .prefixOp _ _ right => right.inside
  | .infixOp _ _ left right => left.inside + right.inside
  | .conditional _ condition consequence alternative =>
    condition.inside + consequence.inside + insideElse alternative
  | .function _ _ body => body.inside
  | .call _ callee arguments => callee.inside + insideEach arguments
  | .array _ elements => insideEach elements
  | .index _ left index => left.inside + index.inside

def insideEach : List Expr → Nat
  | [] => 0
  | e :: es => e.inside + insideEach es

def insideElse : Option Block → Nat
  | none => 0
  | some block => block.inside

/-- The number of statements inside a statement, which does not count itself. -/
def Stmt.inside : Stmt → Nat
  | .letBinding _ _ value => value.inside
  | .return _ value => insideValue value
  | .expression _ expr => expr.inside

def insideValue : Option Expr → Nat
  | none => 0
  | some value => value.inside

/-- The number of statements inside a block. -/
def Block.inside : Block → Nat
  | .mk _ body => statementsIn body

/-- The number of statements in a list, those inside of them included. -/
def statementsIn : List Stmt → Nat
  | [] => 0
  | s :: rest => s.inside + 1 + statementsIn rest

end

end ScriptSyntax
