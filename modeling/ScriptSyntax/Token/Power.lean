import ScriptSyntax.Token.Kind

/-!
# Binding powers

How tightly an operator holds its operands.  `TokenKind.power` gives the power of a kind standing
after an operand; `lowest` means that such a token never continues an expression.
-/

namespace ScriptSyntax

/-- Binding powers, weakest first. -/
inductive Power where
  | lowest
  | equality
  | relational
  | additive
  | multiplicative
  | unary
  | call
  | index
deriving DecidableEq, Repr, Inhabited

namespace Power

/-- Every power, weakest first. -/
def all : List Power :=
  [lowest, equality, relational, additive, multiplicative, unary, call, index]

theorem mem_all (b : Power) : b ∈ all := by
  cases b <;> decide

/-- The number of powers weaker than this one. -/
def rank : Power → Nat
  | lowest => 0
  | equality => 1
  | relational => 2
  | additive => 3
  | multiplicative => 4
  | unary => 5
  | call => 6
  | index => 7

instance : LT Power := ⟨fun a b => a.rank < b.rank⟩
instance : LE Power := ⟨fun a b => a.rank ≤ b.rank⟩

instance (a b : Power) : Decidable (a < b) := inferInstanceAs (Decidable (a.rank < b.rank))
instance (a b : Power) : Decidable (a ≤ b) := inferInstanceAs (Decidable (a.rank ≤ b.rank))

theorem lt_iff_rank {a b : Power} : a < b ↔ a.rank < b.rank := Iff.rfl

/-- The powers strictly weaker than this one, weakest first. -/
def weaker (b : Power) : List Power := all.filter (· < b)

theorem mem_weaker {a b : Power} : a ∈ b.weaker ↔ a < b := by
  simp [weaker, mem_all]

end Power

/-- The power of a token of this kind that follows an operand. -/
def TokenKind.power : TokenKind → Power
  | .equal | .notEqual => .equality
  | .less | .greater => .relational
  | .plus | .minus => .additive
  | .asterisk | .slash => .multiplicative
  | .leftParen => .call
  | .leftBracket => .index
  | _ => .lowest

end ScriptSyntax
