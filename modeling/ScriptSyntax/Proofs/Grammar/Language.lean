import Mathlib.Tactic
import ScriptSyntax.Token.Basic

/-!
# The language

The grammar of programs, over lists of tokens and with no parser in sight.  Operators are not
grouped here: an expression is a flat chain of operands, and which operand an operator takes is no
matter of what belongs to the language.

Whether a statement may end without a semicolon depends on the token behind it, so the symbols for
statements carry the kind of that token.  The grammar is one inductive family over its symbols.
-/

namespace ScriptSyntax

/-- The kind of the first token of `ts`, or `next` if there is none. -/
def firstKind (ts : List Token) (next : TokenKind) : TokenKind :=
  (ts.head?.map Token.kind).getD next

@[simp] lemma firstKind_nil (next : TokenKind) : firstKind [] next = next := rfl

@[simp] lemma firstKind_cons (t : Token) (ts : List Token) (next : TokenKind) :
    firstKind (t :: ts) next = t.kind := rfl

lemma firstKind_append (ts us : List Token) (next : TokenKind) :
    firstKind (ts ++ us) next = firstKind ts (firstKind us next) := by
  cases ts <;> rfl

namespace Grammar

/-- The operators that stand between two operands. -/
def binaryOperators : List TokenKind :=
  [.equal, .notEqual, .less, .greater, .plus, .minus, .asterisk, .slash]

/-- The tokens that always continue the expression before them. -/
def continuations : List TokenKind := binaryOperators ++ [.leftParen, .leftBracket]

/-- The integer that a token of digits stands for. -/
def decimal (t : Token) : Nat := Nat.ofDigitChars 10 t.text.toList 0

/-- What ends a statement: a semicolon, or nothing in front of a closing brace or of the end. -/
inductive Ending (next : TokenKind) : List Token → Prop where
  | semicolon {s : Token} : s.kind = .semicolon → Ending next [s]
  | brace : next = .rightBrace → Ending next []
  | source : next = .endOfInput → Ending next []

/-- The symbols of the grammar. -/
inductive Symbol where
  /-- Any number of statements, in front of a token of kind `next`. -/
  | statements (next : TokenKind)
  /-- A statement in front of a token of kind `next`. -/
  | statement (next : TokenKind)
  | expression
  /-- Any number of binary operators, each with the operand behind it. -/
  | operations
  | operand
  /-- A primary with the calls and indices behind it. -/
  | applied
  | primary
  /-- Any number of expressions, separated by commas. -/
  | list
  /-- Any number of expressions, each behind a comma. -/
  | listTail
  /-- Any number of identifiers, separated by commas. -/
  | names
  /-- Any number of identifiers, each behind a comma. -/
  | namesTail
  /-- `else` and a block, or nothing. -/
  | alternative
  | block
deriving DecidableEq, Repr

/-- The tokens that a symbol stands for. -/
inductive Derives : Symbol → List Token → Prop where
  | noStatement {next : TokenKind} : Derives (.statements next) []
  | statements {next : TokenKind} {ts us : List Token} :
      Derives (.statement (firstKind us next)) ts → Derives (.statements next) us →
      Derives (.statements next) (ts ++ us)
  | letBinding {next : TokenKind} {t x o : Token} {ts us : List Token} :
      t.kind = .letWord → x.kind = .identifier → o.kind = .assign →
      Derives .expression ts → Ending next us →
      Derives (.statement next) (t :: x :: o :: (ts ++ us))
  | returnNothing {next : TokenKind} {t : Token} {us : List Token} :
      t.kind = .returnWord → Ending next us → Derives (.statement next) (t :: us)
  | returnValue {next : TokenKind} {t : Token} {ts us : List Token} :
      t.kind = .returnWord → Derives .expression ts → Ending next us →
      Derives (.statement next) (t :: (ts ++ us))
  | closedExpression {next : TokenKind} {ts : List Token} {c : Token} :
      Derives .expression ts → c.kind = .semicolon → Derives (.statement next) (ts ++ [c])
  | openExpression {next : TokenKind} {ts : List Token} :
      Derives .expression ts → next ∉ continuations → Derives (.statement next) ts
  | expression {ts us : List Token} :
      Derives .operand ts → Derives .operations us → Derives .expression (ts ++ us)
  | noOperation : Derives .operations []
  | operations {o : Token} {ts us : List Token} :
      o.kind ∈ binaryOperators → Derives .operand ts → Derives .operations us →
      Derives .operations (o :: (ts ++ us))
  | prefixed {o : Token} {ts : List Token} :
      o.kind = .bang ∨ o.kind = .minus → Derives .operand ts → Derives .operand (o :: ts)
  | operand {ts : List Token} : Derives .applied ts → Derives .operand ts
  | applied {ts : List Token} : Derives .primary ts → Derives .applied ts
  | call {o c : Token} {ts us : List Token} :
      Derives .applied ts → o.kind = .leftParen → Derives .list us → c.kind = .rightParen →
      Derives .applied (ts ++ o :: (us ++ [c]))
  | index {o c : Token} {ts us : List Token} :
      Derives .applied ts → o.kind = .leftBracket → Derives .expression us →
      c.kind = .rightBracket → Derives .applied (ts ++ o :: (us ++ [c]))
  | constant {t : Token} :
      t.kind ∈ [.identifier, .string, .trueWord, .falseWord] → Derives .primary [t]
  | integer {t : Token} : t.kind = .integer → decimal t < 2 ^ 63 → Derives .primary [t]
  | group {o c : Token} {ts : List Token} :
      o.kind = .leftParen → Derives .expression ts → c.kind = .rightParen →
      Derives .primary (o :: (ts ++ [c]))
  | conditional {t o c : Token} {ts us vs : List Token} :
      t.kind = .ifWord → o.kind = .leftParen → Derives .expression ts → c.kind = .rightParen →
      Derives .block us → Derives .alternative vs →
      Derives .primary (t :: o :: (ts ++ c :: (us ++ vs)))
  | function {t o c : Token} {ts us : List Token} :
      t.kind = .fnWord → o.kind = .leftParen → Derives .names ts → c.kind = .rightParen →
      Derives .block us → Derives .primary (t :: o :: (ts ++ c :: us))
  | array {o c : Token} {ts : List Token} :
      o.kind = .leftBracket → Derives .list ts → c.kind = .rightBracket →
      Derives .primary (o :: (ts ++ [c]))
  | noElement : Derives .list []
  | list {ts us : List Token} :
      Derives .expression ts → Derives .listTail us → Derives .list (ts ++ us)
  | listEnd : Derives .listTail []
  | listTail {c : Token} {ts us : List Token} :
      c.kind = .comma → Derives .expression ts → Derives .listTail us →
      Derives .listTail (c :: (ts ++ us))
  | noName : Derives .names []
  | names {x : Token} {ts : List Token} :
      x.kind = .identifier → Derives .namesTail ts → Derives .names (x :: ts)
  | namesEnd : Derives .namesTail []
  | namesTail {c x : Token} {ts : List Token} :
      c.kind = .comma → x.kind = .identifier → Derives .namesTail ts →
      Derives .namesTail (c :: x :: ts)
  | noAlternative : Derives .alternative []
  | alternative {t : Token} {ts : List Token} :
      t.kind = .elseWord → Derives .block ts → Derives .alternative (t :: ts)
  | block {o c : Token} {ts : List Token} :
      o.kind = .leftBrace → Derives (.statements .rightBrace) ts → c.kind = .rightBrace →
      Derives .block (o :: (ts ++ [c]))

/-- The programs: statements up to the end of the source. -/
def IsProgram (ts : List Token) : Prop := Derives (.statements .endOfInput) ts

end Grammar

end ScriptSyntax
