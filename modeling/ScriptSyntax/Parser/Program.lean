import ScriptSyntax.Parser.Expression

/-!
# Programs

The parse of a whole source: its statements, what is wrong with it, and the transcript.  A parse
never fails: what cannot be parsed is left out of the program and told in the diagnostics.
-/

namespace ScriptSyntax

/-- The statements up to the end of the source, and the parser that stands there. -/
def Parser.program (p : Parser) : Program × Parser :=
  let (body, done) := Rule.statements Rule.expression false p.lexemes (p.note (.began p.label))
  (body, done.note (.finished body.length done.diagnostics.size))

/-- What comes out of parsing a source. -/
structure Parsed where
  /-- The statements that could be parsed. -/
  program : Program
  /-- What is wrong with the source, in order. -/
  diagnostics : List Diagnostic
  /-- What happened during the parse. -/
  transcript : List Event

/-- Parses a source. -/
def parse (source : String) (label? : Option String) : Parsed :=
  let (program, done) := (Parser.ofSource source label?).program
  { program := program
    diagnostics := done.diagnostics.toList
    transcript := done.transcript.toList }

end ScriptSyntax
