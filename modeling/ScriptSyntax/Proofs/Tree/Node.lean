import Mathlib.Tactic
import ScriptSyntax.Tree.Basic

/-!
# Paths in a tree

The nodes of a tree are its expressions, statements, blocks and names.  A path leads from a node down to
one of those inside it, and counts the steps that take a level of nesting: those to an operand, an
argument, an element, an index or a condition, and to the expression of a statement.  The left operand of
an operator, the callee of a call and what is indexed were read before the operator, at its own level,
and steps to them do not count.
-/

namespace ScriptSyntax

/-- A part of a tree. -/
inductive Node where
  | expr (e : Expr)
  | stmt (s : Stmt)
  | block (b : Block)
  | name (id : Identifier)

namespace Node

/-- The node `b` is a part of `a`, with nothing between them, and to step down to it counts `count`. -/
inductive Child : (a : Node) → (count : Nat) → (b : Node) → Prop where
  | identifier {id : Identifier} : Child (.expr (.identifier id)) 0 (.name id)
  | operand {o : Token} {text : String} {r : Expr} : Child (.expr (.prefixOp o text r)) 1 (.expr r)
  | leftOperand {o : Token} {text : String} {l r : Expr} :
      Child (.expr (.infixOp o text l r)) 0 (.expr l)
  | rightOperand {o : Token} {text : String} {l r : Expr} :
      Child (.expr (.infixOp o text l r)) 1 (.expr r)
  | condition {t : Token} {e : Expr} {b : Block} {alt : Option Block} :
      Child (.expr (.conditional t e b alt)) 1 (.expr e)
  | consequence {t : Token} {e : Expr} {b : Block} {alt : Option Block} :
      Child (.expr (.conditional t e b alt)) 0 (.block b)
  | alternative {t : Token} {e : Expr} {b b' : Block} :
      Child (.expr (.conditional t e b (some b'))) 0 (.block b')
  | parameter {t : Token} {ids : List Identifier} {b : Block} {id : Identifier} :
      id ∈ ids → Child (.expr (.function t ids b)) 0 (.name id)
  | body {t : Token} {ids : List Identifier} {b : Block} :
      Child (.expr (.function t ids b)) 0 (.block b)
  | callee {o : Token} {l : Expr} {es : List Expr} : Child (.expr (.call o l es)) 0 (.expr l)
  | argument {o : Token} {l e : Expr} {es : List Expr} :
      e ∈ es → Child (.expr (.call o l es)) 1 (.expr e)
  | element {o : Token} {e : Expr} {es : List Expr} : e ∈ es → Child (.expr (.array o es)) 1 (.expr e)
  | indexed {o : Token} {l i : Expr} : Child (.expr (.index o l i)) 0 (.expr l)
  | index {o : Token} {l i : Expr} : Child (.expr (.index o l i)) 1 (.expr i)
  | statement {o : Token} {s : Stmt} {body : List Stmt} : s ∈ body → Child (.block (.mk o body)) 0 (.stmt s)
  | target {t : Token} {id : Identifier} {e : Expr} : Child (.stmt (.letBinding t id e)) 0 (.name id)
  | value {t : Token} {id : Identifier} {e : Expr} : Child (.stmt (.letBinding t id e)) 1 (.expr e)
  | returned {t : Token} {e : Expr} : Child (.stmt (.return t (some e))) 1 (.expr e)
  | expression {t : Token} {e : Expr} : Child (.stmt (.expression t e)) 1 (.expr e)

/-- A path from `a` down to `b` that takes `count` steps that count. -/
inductive Path : (a : Node) → (count : Nat) → (b : Node) → Prop where
  | refl {a : Node} : Path a 0 a
  | cons {a b c : Node} {k m : Nat} : Child a k b → Path b m c → Path a (k + m) c

end Node

/-- The expression of a statement, if it has one. -/
def Stmt.expr? : Stmt → Option Expr
  | letBinding _ _ e | expression _ e => some e
  | .return _ e? => e?

/-- To step from a statement to its expression counts. -/
lemma Node.child_of_expr? {s : Stmt} {e : Expr} (h : s.expr? = some e) :
    Child (.stmt s) 1 (.expr e) := by
  cases s with
  | letBinding t id e' =>
    obtain rfl := Option.some.inj h
    exact .value
  | «return» t e? =>
    obtain rfl : e? = some e := h
    exact .returned
  | expression t e' =>
    obtain rfl := Option.some.inj h
    exact .expression

end ScriptSyntax
