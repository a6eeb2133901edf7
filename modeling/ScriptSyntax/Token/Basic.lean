import ScriptSyntax.Position
import ScriptSyntax.Token.Kind

/-!
# Tokens

A token is a kind, the text it stands for and the span it covers.  The text of a string token is
what stands between its quotes; its span includes them.
-/

namespace ScriptSyntax

/-- A lexical unit of a source. -/
structure Token where
  kind : TokenKind
  /-- The literal text; for a string the text between the quotes. -/
  text : String
  span : Span
deriving DecidableEq, Repr, Inhabited

namespace Token

/-- The token that marks the end of a source: no text, and an empty span. -/
def endOfInput (place : Position) : Token where
  kind := .endOfInput
  text := ""
  span := ⟨place, place⟩

/-- The place where the token starts. -/
def position (t : Token) : Position := t.span.start

/-- Whether the kind of the token is one of `kinds`. -/
def isOneOf (t : Token) (kinds : List TokenKind) : Bool :=
  kinds.contains t.kind

/-- The two-line description of a token: its kind and its text. -/
def describe (t : Token) : String :=
  "Token \x7b\nkind: " ++ t.kind.name ++ ",\nvalue: " ++ t.text ++ "\x7d"

/-- The kinds whose text is not settled by the kind, so that a short form has to show it. -/
def textualKinds : List TokenKind := [.string, .identifier, .integer, .illegal]

/-- The short form of a token used in transcripts, such as `IDENT (x)` or `PLUS ()`. -/
def brief (t : Token) : String :=
  if t.isOneOf textualKinds then t.kind.name ++ " (" ++ t.text ++ ")" else t.kind.name ++ " ()"

instance : ToString Token := ⟨describe⟩

end Token

end ScriptSyntax
