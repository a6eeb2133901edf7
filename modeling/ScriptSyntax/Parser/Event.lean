import ScriptSyntax.Diagnostic.Basic
import ScriptSyntax.Token.Basic

/-!
# The transcript of a parse

A parse leaves a transcript behind: which token was scanned, which one became current, which
diagnostic was recorded, and how the parse began and finished.  An event is what happened; its level
and its text are functions of it.
-/

namespace ScriptSyntax

/-- How much of a transcript is shown. -/
inductive Level where
  /-- The start and the end of a parse. -/
  | debug
  /-- Every event. -/
  | trace
deriving DecidableEq, Repr, Inhabited

/-- The name of a level. -/
def Level.name : Level → String
  | debug => "DEBUG"
  | trace => "TRACE"

/-- Something that happens during a parse. -/
inductive Event where
  /-- The token entered the window of the parser. -/
  | scanned (token : Token)
  /-- The token became the current one. -/
  | reached (token : Token)
  /-- The parser recorded the diagnostic and went on. -/
  | recorded (diagnostic : Diagnostic)
  /-- The parse of the source with this label began. -/
  | began (label : String)
  /-- The parse finished with so many statements and so many diagnostics. -/
  | finished (statements diagnostics : Nat)
deriving DecidableEq, Repr, Inhabited

namespace Event

/-- The level at which an event is first shown. -/
def level : Event → Level
  | scanned _ | reached _ | recorded _ => .trace
  | began _ | finished .. => .debug

/-- The line of the transcript that tells of an event. -/
def text : Event → String
  | scanned token => "scanned " ++ token.brief
  | reached token => "current token " ++ token.brief
  | recorded diagnostic => "recorded error: " ++ diagnostic.message
  | began label => "parsing program from " ++ label
  | finished statements diagnostics =>
    "parsed " ++ toString statements ++ " statement(s) with " ++ toString diagnostics ++ " error(s)"

/-- Whether the event belongs to a transcript of this level. -/
def isShownAt (e : Event) : Level → Bool
  | .trace => true
  | .debug => e.level == .debug

instance : ToString Event := ⟨text⟩

end Event

end ScriptSyntax
