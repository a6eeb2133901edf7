import ScriptSyntax.Text.Unprintable

/-!
# Quoted texts

A text in double quotes on a single line.  Quotes, backslashes and the four control characters with
a letter of their own are written with a backslash, other unprintable characters by their code
point, such as `\u{200b}`; an apostrophe stands for itself.
-/

namespace ScriptSyntax

/-- The letter that follows the backslash in the written form of `c`, if it has one. -/
def escapeLetter? : Char → Option Char
  | '\x00' => some '0'
  | '\t' => some 't'
  | '\r' => some 'r'
  | '\n' => some 'n'
  | '"' => some '"'
  | '\\' => some '\\'
  | _ => none

/-- The written form of `c` by its code point, in lower-case hexadecimal without leading zeros. -/
def codePointEscape (c : Char) : List Char :=
  ['\\', 'u', '\x7b'] ++ Nat.toDigits 16 c.toNat ++ ['\x7d']

/-- The written form of one character. -/
def escapeChar (c : Char) : List Char :=
  match escapeLetter? c with
  | some l => ['\\', l]
  | none => if isPrintable c then [c] else codePointEscape c

/-- The text `s` in double quotes. -/
def quoted (s : String) : String :=
  String.ofList ('"' :: s.toList.flatMap escapeChar ++ ['"'])

end ScriptSyntax
