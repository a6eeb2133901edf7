import ScriptSyntax.Parser.Statement

/-!
# Expressions

Expressions are read by operator precedence.  An operand is read by the rule for its first token,
and then every operator that holds tighter than asked for takes what was read so far as its left
operand.  An operator asks of its right operand that the operators in it hold tighter than itself,
so operators of one power group from the left.

Every expression is one level of nesting further in than the one it is part of, and there are
`maxNesting` levels.  The rules take the parser for the next level as an argument, and `expressionAt`
ties the knot by recursion on the levels that are left.

## Main statements

* `Rule.isSome_operator?_iff`: the operators are the tokens with a power of their own.
* `Rule.expressionAt_zero`: with no level left an expression fails and the parser stays as it was.
-/

namespace ScriptSyntax

/-- The least natural number that is no value of an integer literal, `2 ^ 63`. -/
def integerBound : Nat := 9223372036854775808

/-- The expression that a single token stands for, or what keeps it from being one. -/
def Expr.ofToken (token : Token) : Except Fault Expr :=
  match token.kind with
  | .identifier => .ok (.identifier ⟨token, token.text⟩)
  | .integer =>
    let value := Nat.ofDigitChars 10 token.text.toList 0
    if value < integerBound then .ok (.integer token (.ofNat value))
    else .error (.integerRange token.text)
  | .string => .ok (.string token token.text)
  | .trueWord => .ok (.boolean token true)
  | .falseWord => .ok (.boolean token false)
  | kind => .error (.noOperand kind)

namespace Rule

/-! ## Operands -/

/-- An expression of one token. -/
def literal : ParseM Expr := do
  let p ← get
  match Expr.ofToken p.current with
  | .ok e => pure e
  | .error fault => throw ⟨fault, p.position⟩

variable (sub : Subparser)

/-- An operator and the operand after it. -/
def prefixed : ParseM Expr := do
  let token := (← get).current
  advance
  let right ← sub .unary
  pure (.prefixOp token token.text right)

/-- An expression in parentheses, which leave no trace in the tree. -/
def group : ParseM Expr := do
  advance
  let inner ← sub .lowest
  expect .rightParen
  pure inner

/-- `else` and a block, if `else` comes next. -/
def alternative : ParseM (Option Block) := do
  if (← get).lookaheadIs .elseWord then
    advance
    expect .leftBrace
    some <$> block sub
  else
    pure none

/-- `if` with its condition in parentheses, its block, and maybe an alternative. -/
def conditional : ParseM Expr := do
  let token := (← get).current
  expect .leftParen
  advance
  let condition ← sub .lowest
  expect .rightParen
  expect .leftBrace
  let consequence ← block sub
  let alternative ← alternative sub
  pure (.conditional token condition consequence alternative)

/-- The identifiers that follow, each after a comma, one for each of `rounds` at most. -/
def moreIdentifiers : (rounds : List Lexeme) → ParseM (List Identifier)
  | [] => pure []
  | _ :: rounds => do
    if (← get).lookaheadIs .comma then
      advance
      let id ← identifier
      let ids ← moreIdentifiers rounds
      pure (id :: ids)
    else
      pure []

/-- The parameters of a function, from the opening parenthesis to the closing one. -/
def parameters : ParseM (List Identifier) := do
  if (← get).lookaheadIs .rightParen then
    advance
    pure []
  else
    let id ← identifier
    let ids ← moreIdentifiers (← get).lexemes
    expect .rightParen
    pure (id :: ids)

/-- `fn` with its parameters and its body. -/
def function : ParseM Expr := do
  let token := (← get).current
  expect .leftParen
  let parameters ← parameters
  expect .leftBrace
  let body ← block sub
  pure (.function token parameters body)

/-- The expressions that follow, each after a comma, one for each of `rounds` at most. -/
def moreItems : (rounds : List Lexeme) → ParseM (List Expr)
  | [] => pure []
  | _ :: rounds => do
    if (← get).lookaheadIs .comma then
      advance
      advance
      let item ← sub .lowest
      let items ← moreItems rounds
      pure (item :: items)
    else
      pure []

/-- The expressions from an opening delimiter to the closing one, separated by commas. -/
def items (close : TokenKind) : ParseM (List Expr) := do
  let empty := (← get).lookaheadIs close
  advance
  if empty then
    pure []
  else
    let item ← sub .lowest
    let items ← moreItems sub (← get).lexemes
    expect close
    pure (item :: items)

/-- The elements of an array in brackets. -/
def array : ParseM Expr := do
  let token := (← get).current
  let elements ← items sub .rightBracket
  pure (.array token elements)

/-- The rule for an operand that starts with a token of this kind. -/
def operand? : TokenKind → Option (ParseM Expr)
  | .identifier | .integer | .string | .trueWord | .falseWord => some literal
  | .bang | .minus => some (prefixed sub)
  | .leftParen => some (group sub)
  | .ifWord => some (conditional sub)
  | .fnWord => some (function sub)
  | .leftBracket => some (array sub)
  | _ => none

/-! ## Operators -/

/-- The operator after `left`, and its right operand. -/
def infixed (left : Expr) (power : Power) : ParseM Expr := do
  let token := (← get).current
  advance
  let right ← sub power
  pure (.infixOp token token.text left right)

/-- The arguments that `left` is called with. -/
def call (left : Expr) : ParseM Expr := do
  let token := (← get).current
  let arguments ← items sub .rightParen
  pure (.call token left arguments)

/-- The index of an element of `left`. -/
def index (left : Expr) : ParseM Expr := do
  let token := (← get).current
  advance
  let place ← sub .lowest
  expect .rightBracket
  pure (.index token left place)

/-- The rule for an operator of this kind, given its left operand and its power. -/
def operator? : TokenKind → Option (Expr → Power → ParseM Expr)
  | .equal | .notEqual | .less | .greater | .plus | .minus | .asterisk | .slash =>
    some (infixed sub)
  | .leftParen => some fun left _ => call sub left
  | .leftBracket => some fun left _ => index sub left
  | _ => none

/-- The operators are the tokens with a power of their own. -/
theorem isSome_operator?_iff (kind : TokenKind) :
    (operator? sub kind).isSome = true ↔ .lowest < kind.power := by
  cases kind <;> simp [operator?, TokenKind.power, Power.lt_iff_rank, Power.rank]

/-! ## Chains of operands and operators -/

/-- Applies to `left` the operators that come next as long as they hold tighter than `power`, one
for each of `rounds` at most. -/
def operators (power : Power) : (rounds : List Lexeme) → Expr → ParseM Expr
  | [], left => pure left
  | _ :: rounds, left => do
    let kind := (← get).lookahead.kind
    if power < kind.power then
      match operator? sub kind with
      | none => pure left
      | some rule =>
        advance
        let combined ← rule left kind.power
        operators power rounds combined
    else
      pure left

/-- An operand and the operators after it that hold tighter than `power`. -/
def chain (power : Power) : ParseM Expr := do
  let p ← get
  match operand? sub p.current.kind with
  | none => throw p.notAnOperand
  | some rule =>
    let left ← rule
    operators sub power (← get).lexemes left

/-- An expression with so many levels of nesting left. -/
def expressionAt : (levels : Nat) → Subparser
  | 0, _ => do throw (← get).tooDeep
  | levels + 1, power => nested (chain (expressionAt levels) power)

/-- An expression whose operators all hold tighter than `power`. -/
def expression : Subparser := fun power => do
  expressionAt (maxNesting - (← get).depth) power

/-- With no level left an expression fails and the parser stays as it was. -/
theorem expressionAt_zero (power : Power) (p : Parser) :
    expressionAt 0 power p = .error p.tooDeep p := rfl

theorem expression_apply (power : Power) (p : Parser) :
    expression power p = expressionAt (maxNesting - p.depth) power p := rfl

end Rule

end ScriptSyntax
