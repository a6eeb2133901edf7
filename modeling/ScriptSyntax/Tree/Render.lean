import ScriptSyntax.Tree.Basic

/-!
# Rendering

The text of a tree.  Every operator is put in parentheses with its operands, so the text shows the
shape of the tree; lists are separated by a comma and a space; statements follow each other without
anything between them.
-/

namespace ScriptSyntax

/-- The texts one after the other, separated by a comma and a space. -/
def commaSeparated (texts : List String) : String := ", ".intercalate texts

mutual

/-- The text of an expression. -/
def Expr.render : Expr → String
  | .identifier id => id.name
  | .integer token _ => token.text
  | .string _ value => "\"" ++ value ++ "\""
  | .boolean token _ => token.text
  | .prefixOp _ operator right => "(" ++ operator ++ right.render ++ ")"
  | .infixOp _ operator left right =>
    "(" ++ left.render ++ " " ++ operator ++ " " ++ right.render ++ ")"
  | .conditional _ condition consequence alternative =>
    "if" ++ condition.render ++ " " ++ consequence.render ++ renderElse alternative
  | .function token parameters body =>
    token.text ++ "(" ++ commaSeparated (parameters.map Identifier.name) ++ ")" ++ body.render
  | .call _ callee arguments =>
    callee.render ++ "(" ++ commaSeparated (renderEach arguments) ++ ")"
  | .array _ elements => "[" ++ commaSeparated (renderEach elements) ++ "]"
  | .index _ left index => "(" ++ left.render ++ "[" ++ index.render ++ "])"

/-- The texts of the expressions of a list. -/
def renderEach : List Expr → List String
  | [] => []
  | e :: es => e.render :: renderEach es

/-- The text of the alternative of a conditional, empty if there is none. -/
def renderElse : Option Block → String
  | none => ""
  | some block => "else " ++ block.render

/-- The text of a statement. -/
def Stmt.render : Stmt → String
  | .letBinding token id value => token.text ++ " " ++ id.name ++ " = " ++ value.render ++ ";"
  | .return token value => token.text ++ renderValue value ++ ";"
  | .expression _ expr => expr.render

/-- The text of a returned value and the space before it, empty if there is none. -/
def renderValue : Option Expr → String
  | none => ""
  | some value => " " ++ value.render

/-- The text of a block: its statements, without the braces. -/
def Block.render : Block → String
  | .mk _ body => renderStmts body

/-- The texts of statements, one after the other. -/
def renderStmts : List Stmt → String
  | [] => ""
  | s :: rest => s.render ++ renderStmts rest

end

/-- The text of a program. -/
def Program.render (p : Program) : String := renderStmts p

theorem renderEach_eq_map (es : List Expr) : renderEach es = es.map Expr.render := by
  induction es with
  | nil => rfl
  | cons e es ih => rw [renderEach, ih, List.map_cons]

instance : ToString Expr := ⟨Expr.render⟩

instance : ToString Stmt := ⟨Stmt.render⟩

end ScriptSyntax
