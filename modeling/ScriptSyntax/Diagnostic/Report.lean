import ScriptSyntax.Diagnostic.Basic
import ScriptSyntax.Text.Blank
import ScriptSyntax.Text.Line

/-!
# Reports

A report shows a diagnostic against the source it was found in: the fault's name and tip, the label
of the source, and the line at fault with a caret under the column and the message beside it.

    Error: ExpectedToken
    -> totals.script
       |
    12 | let total 5;
       | ----------^ expected next token to be ASSIGN, got INT instead

The spaces and tabs that open the line are left out, and the caret moves with them.  A diagnostic
whose place is past the end of the source has its message in place of the line.
-/

namespace ScriptSyntax

/-- Whether `c` is left out at the start of a shown line. -/
def isIndent (c : Char) : Bool := c == ' ' || c == '\t'

/-- `count` times the character `c`. -/
def runOf (c : Char) (count : Nat) : String := String.ofList (List.replicate count c)

namespace LinePlace

/-- The number of characters of the line that are left out at its start. -/
def indent (l : LinePlace) : Nat := (l.text.takeWhile isIndent).length

/-- The line without its indentation and without the blank characters at its end. -/
def shown (l : LinePlace) : String := String.ofList (trimEnd (l.text.dropWhile isIndent))

/-- The bar before a line without a number: it stands under the bar after the number. -/
def gutter (l : LinePlace) : String := runOf ' ' ((toString l.number).length + 1) ++ "|"

/-- The dashes that lead to the place, and the caret under it. -/
def caret (l : LinePlace) : String := runOf '-' (l.column - l.indent) ++ "^"

end LinePlace

namespace Diagnostic

/-- The two lines that open a report: the fault's name and tip, and the label of the source. -/
def header (d : Diagnostic) : String :=
  let tip := match d.fault.tip? with
    | none => ""
    | some tip => " (" ++ tip ++ ")"
  "Error: " ++ d.fault.name ++ tip ++ "\n-> " ++ d.position.label ++ "\n"

/-- The diagnostic explained against `source`, one line of text after another. -/
def report (d : Diagnostic) (source : String) : String :=
  match lineAt? source d.position.offset with
  | none => d.header ++ d.message ++ "\n"
  | some l =>
    d.header ++ l.gutter ++ "\n" ++ toString l.number ++ " | " ++ l.shown ++ "\n" ++
      l.gutter ++ " " ++ l.caret ++ " " ++ d.message ++ "\n"

end Diagnostic

end ScriptSyntax
