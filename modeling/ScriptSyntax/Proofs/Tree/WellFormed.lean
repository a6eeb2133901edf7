import ScriptSyntax.Proofs.Grammar.Language
import ScriptSyntax.Proofs.Tree.Relocate

/-!
# Well-formed trees

A tree can be built by hand in which tokens, names and values disagree, and such a tree has a text that
says something else than the tree.  Here are the trees that their text does tell: every token has the
kind and the text of its construct, and names, values and operators are those of the tokens.
Conditionals and functions are left out, since their texts leave out braces.

The texts of expressions nest deeper than the expressions do, as every operator comes with parentheses.
`Expr.need` counts the levels of nesting that the text of an expression takes.
-/

namespace ScriptSyntax

open Grammar

/-- A name: letters and underscores, and no reserved word. -/
structure IsName (name : String) : Prop where
  ne_empty : name ≠ ""
  isWordChar : ∀ c ∈ name.toList, isWordChar c = true
  not_reserved : name ∉ TokenKind.reserved.map Prod.fst

/-- The identifier has the name that its token says. -/
structure Identifier.WellFormed (id : Identifier) : Prop where
  kind_eq : id.token.kind = .identifier
  text_eq : id.token.text = id.name
  isName : IsName id.name

/-- The operators in front of an operand, and their texts. -/
def prefixOperators : List (TokenKind × String) := [(.bang, "!"), (.minus, "-")]

/-- The operators between two operands, and their texts. -/
def infixOperators : List (TokenKind × String) :=
  [(.equal, "=="), (.notEqual, "!="), (.less, "<"), (.greater, ">"), (.plus, "+"), (.minus, "-"),
    (.asterisk, "*"), (.slash, "/")]

/-- The text of the expression tells the expression. -/
inductive Expr.WellFormed : Expr → Prop where
  | identifier {id : Identifier} : id.WellFormed → WellFormed (.identifier id)
  | integer {t : Token} {value : Int64} :
      t.kind = .integer → t.text ≠ "" → (∀ c ∈ t.text.toList, c.isDigit = true) →
      (decimal t : Int) = value.toInt → WellFormed (.integer t value)
  | string {t : Token} {value : String} :
      t.kind = .string → t.text = value → '"' ∉ value.toList → WellFormed (.string t value)
  | boolean {t : Token} {value : Bool} :
      t.kind = (if value then .trueWord else .falseWord) →
      t.text = (if value then "true" else "false") → WellFormed (.boolean t value)
  | prefixOp {o : Token} {r : Expr} :
      (o.kind, o.text) ∈ prefixOperators → WellFormed r → WellFormed (.prefixOp o o.text r)
  | infixOp {o : Token} {l r : Expr} :
      (o.kind, o.text) ∈ infixOperators → WellFormed l → WellFormed r →
      WellFormed (.infixOp o o.text l r)
  | call {o : Token} {c : Expr} {es : List Expr} :
      o.kind = .leftParen → o.text = "(" → WellFormed c → (∀ e ∈ es, WellFormed e) →
      WellFormed (.call o c es)
  | array {o : Token} {es : List Expr} :
      o.kind = .leftBracket → o.text = "[" → (∀ e ∈ es, WellFormed e) → WellFormed (.array o es)
  | index {o : Token} {l i : Expr} :
      o.kind = .leftBracket → o.text = "[" → WellFormed l → WellFormed i →
      WellFormed (.index o l i)

/-- The statement is a `let` or a `return`, and its text tells it. -/
inductive Stmt.WellFormed : Stmt → Prop where
  | letBinding {t : Token} {id : Identifier} {e : Expr} :
      t.kind = .letWord → t.text = "let" → id.WellFormed → e.WellFormed →
      WellFormed (.letBinding t id e)
  | return {t : Token} {e? : Option Expr} :
      t.kind = .returnWord → t.text = "return" → (∀ e ∈ e?, e.WellFormed) →
      WellFormed (.return t e?)

/-- The text of the program tells the program: all its statements are `let` and `return`, save that the
last one may be an expression.  An expression is rendered without a semicolon, so that nothing else
can stand behind it. -/
inductive Program.WellFormed : Program → Prop where
  | nil : WellFormed []
  | expression {t : Token} {e : Expr} : e.WellFormed → WellFormed [.expression t e]
  | cons {s : Stmt} {p : Program} : s.WellFormed → WellFormed p → WellFormed (s :: p)

/-! ## Levels of nesting -/

mutual

/-- The levels of nesting that the text of an expression without conditionals and functions takes. -/
def Expr.need : Expr → Nat
  | .identifier _ | .integer _ _ | .string _ _ | .boolean _ _ => 1
  | .conditional _ _ _ _ | .function _ _ _ => 1
  | .prefixOp _ _ r => 2 + r.need
  | .infixOp _ _ l r => max (1 + l.need) (2 + r.need)
  | .call _ c es => max c.need (needEach es)
  | .array _ es => max 1 (needEach es)
  | .index _ l i => max (1 + l.need) (2 + i.need)

/-- The levels that the texts of expressions take inside of one more. -/
def needEach : List Expr → Nat
  | [] => 0
  | e :: es => max (1 + e.need) (needEach es)

end

/-- The levels of nesting that the expression of a statement takes. -/
def Stmt.need : Stmt → Nat
  | .letBinding _ _ e | .return _ (some e) | .expression _ e => e.need
  | .return _ none => 0

/-- Every expression is one level by itself. -/
lemma Expr.need_pos : ∀ e : Expr, 0 < e.need
  | .call _ c es => by
    rw [need]
    exact lt_max_of_lt_left c.need_pos
  | .array _ es => by
    rw [need]
    exact lt_max_of_lt_left Nat.one_pos
  | .prefixOp _ _ r | .infixOp _ _ _ r | .index _ _ r => by
    rw [need]
    omega
  | .identifier _ | .integer _ _ | .string _ _ | .boolean _ _ | .conditional _ _ _ _
  | .function _ _ _ => by
    rw [need]
    exact Nat.one_pos

end ScriptSyntax
