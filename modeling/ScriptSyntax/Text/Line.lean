/-!
# Lines of a source

A line runs through its line feed, or to the end of the source.  `lineAt?` finds the line that
holds an offset by walking there and remembering where the current line began.  The offset just
past the last character is a place too, so that the end of a source can be shown; after a final
line feed it lies on an empty line of its own.
-/

namespace ScriptSyntax

/-- A place in a source, by line and column. -/
structure LinePlace where
  /-- The number of the line, counted from 1. -/
  number : Nat
  /-- The text of the line, with its line feed if it has one. -/
  text : List Char
  /-- The number of characters of the line before the place. -/
  column : Nat
deriving DecidableEq, Repr, Inhabited

/-- The first line of a text, with its line feed if it has one. -/
def firstLine : List Char → List Char
  | [] => []
  | c :: cs => if c = '\n' then [c] else c :: firstLine cs

/-- The place `offset` characters into `rest`, where `rest` starts at column `column` of line
`number` and `line` is the text from the start of that line. -/
def LinePlace.walk (number : Nat) (line : List Char) (column : Nat) :
    (offset : Nat) → (rest : List Char) → Option LinePlace
  | 0, _ => some ⟨number, firstLine line, column⟩
  | _ + 1, [] => none
  | offset + 1, c :: rest =>
    if c = '\n' then walk (number + 1) rest 0 offset rest
    else walk number line (column + 1) offset rest

/-- The place `offset` characters into `source`, or `none` past its end. -/
def lineAt? (source : String) (offset : UInt32) : Option LinePlace :=
  LinePlace.walk 1 source.toList 0 offset.toNat source.toList

end ScriptSyntax
