/-!
# Sets of code points

A set of characters is given by a list of closed ranges of code points.
-/

namespace ScriptSyntax

/-- Closed ranges of code points. -/
abbrev CodePoints := List (Nat × Nat)

/-- Whether the code point of `c` lies in one of the ranges. -/
def CodePoints.covers (s : CodePoints) (c : Char) : Bool :=
  s.any fun r => r.1 ≤ c.toNat && c.toNat ≤ r.2

end ScriptSyntax
