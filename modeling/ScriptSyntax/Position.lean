/-!
# Positions and spans

A position is an offset into a source, counted in characters, together with the label of that
source.  The label travels with every position, so a diagnostic can be explained without knowing
which source it came from.
-/

namespace ScriptSyntax

/-- The label of a source that was given none. -/
def defaultLabel : String := "shell"

/-- A place in a labelled source.  Offsets are 32-bit words: an offset of `2 ^ 32` or more is kept
modulo `2 ^ 32`. -/
structure Position where
  /-- The number of characters before the place. -/
  offset : UInt32
  /-- The label of the source. -/
  label : String
deriving DecidableEq, Repr, Inhabited

/-- The half-open stretch of a source from `start` up to, and without, `stop`. -/
structure Span where
  start : Position
  stop : Position
deriving DecidableEq, Repr, Inhabited

end ScriptSyntax
