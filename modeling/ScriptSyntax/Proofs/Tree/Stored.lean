import Mathlib.Tactic
import ScriptSyntax.Tree.Basic

/-!
# The tokens of a tree

Every node keeps the token it was built from.  Here are the tokens that a tree holds, listed as the text
has them: the token of an operator stands between its operands, every other one in front of the parts of
its node.  An expression statement keeps the first token of its expression, which the expression keeps
too or leaves out with its parentheses, so that the list takes the tokens of the expression only.
-/

namespace ScriptSyntax

mutual

/-- The tokens that an expression holds. -/
def Expr.stored : Expr → List Token
  | .identifier id => [id.token]
  | .integer token _ | .string token _ | .boolean token _ => [token]
  | .prefixOp token _ right => token :: right.stored
  | .infixOp token _ left right => left.stored ++ token :: right.stored
  | .conditional token condition consequence alternative =>
    token :: (condition.stored ++ (consequence.stored ++ storedElse alternative))
  | .function token parameters body => token :: (parameters.map Identifier.token ++ body.stored)
  | .call token callee arguments => callee.stored ++ token :: storedEach arguments
  | .array token elements => token :: storedEach elements
  | .index token left index => left.stored ++ token :: index.stored

def storedEach : List Expr → List Token
  | [] => []
  | e :: es => e.stored ++ storedEach es

def storedElse : Option Block → List Token
  | none => []
  | some block => block.stored

/-- The tokens that a statement holds. -/
def Stmt.stored : Stmt → List Token
  | .letBinding token id value => token :: id.token :: value.stored
  | .return token value => token :: storedValue value
  | .expression _ expr => expr.stored

def storedValue : Option Expr → List Token
  | none => []
  | some value => value.stored

/-- The tokens that a block holds. -/
def Block.stored : Block → List Token
  | .mk token body => token :: storedStmts body

def storedStmts : List Stmt → List Token
  | [] => []
  | s :: rest => s.stored ++ storedStmts rest

end

/-- The tokens that a program holds. -/
def Program.stored (p : Program) : List Token := p.flatMap Stmt.stored

lemma storedStmts_eq_flatMap (body : List Stmt) : storedStmts body = body.flatMap Stmt.stored := by
  induction body with
  | nil => rfl
  | cons s body ih => rw [storedStmts, ih, List.flatMap_cons]

/-- An expression holds a token. -/
lemma Expr.stored_ne_nil (e : Expr) : e.stored ≠ [] := by
  cases e <;> simp [stored]

end ScriptSyntax
