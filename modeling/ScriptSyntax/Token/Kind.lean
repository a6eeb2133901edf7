/-!
# Token kinds

The closed set of lexical categories, the name each one has in diagnostics, and the table of the
seven reserved words.
-/

namespace ScriptSyntax

/-- The lexical category of a token. -/
inductive TokenKind where
  | endOfInput
  | illegal
  | integer
  | string
  | identifier
  | leftBracket
  | rightBracket
  | leftBrace
  | rightBrace
  | leftParen
  | rightParen
  | assign
  | equal
  | bang
  | notEqual
  | less
  | greater
  | semicolon
  | comma
  | plus
  | minus
  | slash
  | asterisk
  | letWord
  | fnWord
  | returnWord
  | ifWord
  | elseWord
  | trueWord
  | falseWord
deriving DecidableEq, Repr, Inhabited

namespace TokenKind

/-- Every kind, in the order of declaration. -/
def all : List TokenKind :=
  [endOfInput, illegal, integer, string, identifier, leftBracket, rightBracket, leftBrace,
    rightBrace, leftParen, rightParen, assign, equal, bang, notEqual, less, greater, semicolon,
    comma, plus, minus, slash, asterisk, letWord, fnWord, returnWord, ifWord, elseWord, trueWord,
    falseWord]

theorem mem_all (k : TokenKind) : k ∈ all := by
  cases k <;> decide

/-- The name of the category in diagnostics and in the transcript of a parse. -/
def name : TokenKind → String
  | endOfInput => "EOF"
  | illegal => "ILLEGAL"
  | integer => "INT"
  | string => "STRING"
  | identifier => "IDENT"
  | leftBracket => "LBRACKET"
  | rightBracket => "RBRACKET"
  | leftBrace => "LBRACE"
  | rightBrace => "RBRACE"
  | leftParen => "LPAREN"
  | rightParen => "RPAREN"
  | assign => "ASSIGN"
  | equal => "EQ"
  | bang => "BANG"
  | notEqual => "NOT_EQ"
  | less => "LT"
  | greater => "GT"
  | semicolon => "SEMICOLON"
  | comma => "COMMA"
  | plus => "PLUS"
  | minus => "MINUS"
  | slash => "SLASH"
  | asterisk => "ASTERISK"
  | letWord => "LET"
  | fnWord => "FUNCTION"
  | returnWord => "RETURN"
  | ifWord => "IF"
  | elseWord => "ELSE"
  | trueWord => "TRUE"
  | falseWord => "FALSE"

instance : ToString TokenKind := ⟨name⟩

/-! ## Reserved words -/

/-- The reserved words, each with the kind it is read as. -/
def reserved : List (String × TokenKind) :=
  [("fn", fnWord), ("let", letWord), ("true", trueWord), ("false", falseWord), ("if", ifWord),
    ("else", elseWord), ("return", returnWord)]

/-- The kind of a word: a reserved word's own kind, `identifier` for any other text. -/
def ofWord (text : String) : TokenKind :=
  (reserved.lookup text).getD identifier

end TokenKind

end ScriptSyntax
