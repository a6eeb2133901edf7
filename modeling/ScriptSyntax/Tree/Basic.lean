import ScriptSyntax.Token.Basic

/-!
# The syntax tree

Expressions, statements, blocks and programs.  Every node keeps the token it was built from.  What a
node says beside its token (a name, a value, an operator) is a field of its own, so a tree can be
built by hand in which the two disagree.
-/

namespace ScriptSyntax

/-- A name, as an expression, as the target of a `let` or as a parameter. -/
structure Identifier where
  token : Token
  name : String
deriving DecidableEq, Repr, Inhabited

mutual

/-- An expression. -/
inductive Expr where
  | identifier (id : Identifier)
  | integer (token : Token) (value : Int64)
  /-- A string literal; `value` is what stands between the quotes. -/
  | string (token : Token) (value : String)
  | boolean (token : Token) (value : Bool)
  /-- An operator before its operand. -/
  | prefixOp (token : Token) (operator : String) (right : Expr)
  /-- An operator between its operands. -/
  | infixOp (token : Token) (operator : String) (left right : Expr)
  | conditional (token : Token) (condition : Expr) (consequence : Block) (alternative : Option Block)
  | function (token : Token) (parameters : List Identifier) (body : Block)
  /-- A call; `token` is the parenthesis that opens its arguments. -/
  | call (token : Token) (callee : Expr) (arguments : List Expr)
  | array (token : Token) (elements : List Expr)
  /-- An element of `left`; `token` is the bracket that opens the index. -/
  | index (token : Token) (left index : Expr)

/-- A statement. -/
inductive Stmt where
  | letBinding (token : Token) (id : Identifier) (value : Expr)
  | return (token : Token) (value : Option Expr)
  /-- An expression on its own; `token` is its first token, the parenthesis of a group included. -/
  | expression (token : Token) (expr : Expr)

/-- The statements between two braces; `token` is the opening one. -/
inductive Block where
  | mk (token : Token) (body : List Stmt)

end

instance : Inhabited Expr := ⟨.identifier default⟩

instance : Inhabited Stmt := ⟨.return default none⟩

instance : Inhabited Block := ⟨.mk default []⟩

/-- The statements of a source, in order. -/
abbrev Program := List Stmt

/-- The token an expression was built from. -/
def Expr.token : Expr → Token
  | identifier id => id.token
  | integer token _ | string token _ | boolean token _ | prefixOp token _ _ | infixOp token _ _ _
  | conditional token _ _ _ | function token _ _ | call token _ _ | array token _
  | index token _ _ => token

/-- The token a statement was built from. -/
def Stmt.token : Stmt → Token
  | letBinding token _ _ | .return token _ | expression token _ => token

/-- The opening brace of a block. -/
def Block.token : Block → Token
  | mk token _ => token

/-- The statements of a block. -/
def Block.body : Block → List Stmt
  | mk _ body => body

/-- The text of an expression's own token. -/
def Expr.literal (e : Expr) : String := e.token.text

/-- The text of a statement's own token. -/
def Stmt.literal (s : Stmt) : String := s.token.text

/-- The text of a program's first token, empty for an empty program. -/
def Program.literal (p : Program) : String := (p.head?.map Stmt.literal).getD ""

end ScriptSyntax
