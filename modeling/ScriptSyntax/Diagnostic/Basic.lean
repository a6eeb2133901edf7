import ScriptSyntax.Position
import ScriptSyntax.Token.Kind
import ScriptSyntax.Text.Quoted

/-!
# Diagnostics

What can be wrong with a source, where, and in which words it is told.  A fault says what is wrong;
its name, its tip and its message are functions of it, so that all wording is in this file.
-/

namespace ScriptSyntax

/-- What is wrong with a source. -/
inductive Fault where
  /-- The next token had to be of kind `expected`. -/
  | expectedToken (expected received : TokenKind)
  /-- No expression starts with a token of this kind. -/
  | noOperand (kind : TokenKind)
  /-- The integer literal does not fit in 64 bits. -/
  | integerRange (text : String)
  /-- The string literal has no closing quote. -/
  | unterminatedString (text : String)
  /-- An expression lies inside more than `limit` others. -/
  | nestingTooDeep (limit : Nat)
deriving DecidableEq, Repr, Inhabited

namespace Fault

/-- The name of the fault, which heads its report. -/
def name : Fault → String
  | expectedToken .. => "ExpectedToken"
  | noOperand .. => "NoPrefixParseFn"
  | integerRange .. => "NumberParseError"
  | unterminatedString .. => "UnterminatedString"
  | nestingTooDeep .. => "NestingTooDeep"

/-- A hint on how to mend the fault, for the faults that have one. -/
def tip? : Fault → Option String
  | expectedToken .semicolon _ => some "did you miss a semicolon?"
  | expectedToken _ _ => none
  | noOperand kind => some ("`" ++ kind.name ++ "` cannot start an expression")
  | integerRange text => some ("Invalid number: `" ++ text ++ "`, is it above the integer limit?")
  | unterminatedString _ => some "add a closing `\"`"
  | nestingTooDeep _ => some "split the expression with `let` bindings"

/-- The fault in one line. -/
def message : Fault → String
  | expectedToken expected received =>
    "expected next token to be " ++ expected.name ++ ", got " ++ received.name ++ " instead"
  | noOperand kind => "no prefix parse function for " ++ kind.name ++ " found"
  | integerRange text => "could not parse " ++ quoted text ++ " as integer"
  | unterminatedString text => "unterminated string literal: " ++ quoted text
  | nestingTooDeep limit => "expression nested deeper than " ++ toString limit ++ " levels"

end Fault

/-- A fault, and the place in a source where it was found. -/
structure Diagnostic where
  fault : Fault
  position : Position
deriving DecidableEq, Repr, Inhabited

/-- The diagnostic in one line, without its place. -/
def Diagnostic.message (d : Diagnostic) : String := d.fault.message

instance : ToString Diagnostic := ⟨Diagnostic.message⟩

end ScriptSyntax
