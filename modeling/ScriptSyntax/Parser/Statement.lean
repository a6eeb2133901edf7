import ScriptSyntax.Parser.Rule

/-!
# Statements and blocks

The rules for statements, and for the lists of statements that make up blocks and programs.  A list
goes on after a faulty statement: the fault is recorded, the window skips to a boundary, and the
next statement is parsed from there.  So only a block that the source does not close fails.

The rules take the parser for the expressions inside them as an argument.

## Main statements

* `Rule.expressionStatement_apply`: the value of an expression statement is the expression, and one
  semicolon after it is taken with it.
-/

namespace ScriptSyntax

/-- A parser for the expressions whose operators all hold tighter than a given power. -/
abbrev Subparser := Power → ParseM Expr

namespace Rule

variable (sub : Subparser)

/-! ## Statements -/

/-- `let` name `=` value, and the end of the statement. -/
def letStatement : ParseM Stmt := do
  let token := (← get).current
  let id ← identifier
  expect .assign
  advance
  let value ← sub .lowest
  expectEnd
  pure (.letBinding token id value)

/-- The value that a statement returns, unless the statement ends here. -/
def returnValue : ParseM (Option Expr) := do
  let next := (← get).lookahead
  if next.isOneOf (.semicolon :: closers) then
    pure none
  else
    advance
    some <$> sub .lowest

/-- `return`, maybe a value, and the end of the statement. -/
def returnStatement : ParseM Stmt := do
  let token := (← get).current
  let value ← returnValue sub
  expectEnd
  pure (.return token value)

/-- An expression, and the semicolon after it if there is one. -/
def expressionStatement : ParseM Stmt := do
  let token := (← get).current
  let expr ← sub .lowest
  if (← get).lookaheadIs .semicolon then advance
  pure (.expression token expr)

/-- The rule for the statements that open with a word of their own. -/
def statement? : TokenKind → Option (ParseM Stmt)
  | .letWord => some (letStatement sub)
  | .returnWord => some (returnStatement sub)
  | _ => none

/-- A statement. -/
def statement : ParseM Stmt := do
  (statement? sub (← get).current.kind).getD (expressionStatement sub)

/-! ## Lists of statements -/

/-- Whether a list of statements ends at the current token: at the end of the source, and inside a
block at a closing brace. -/
def atListEnd (inBlock : Bool) (p : Parser) : Bool :=
  p.currentIs .endOfInput || (inBlock && p.currentIs .rightBrace)

/-- Whether the brace that stands where an operand was to start closes the block around it, as in
`x + }`. -/
def closesBlock (d : Diagnostic) (p : Parser) : Bool :=
  match d.fault with
  | .noOperand _ => p.currentIs .rightBrace
  | _ => false

/-- The statements up to the end of their list, one for each of `rounds` at most.  A faulty
statement is left out and its diagnostic recorded. -/
def statements (inBlock : Bool) : (rounds : List Lexeme) → Parser → List Stmt × Parser
  | [], p => ([], p)
  | _ :: rounds, p =>
    if atListEnd inBlock p then ([], p)
    else
      match statement sub p with
      | .ok s q =>
        let (body, done) := statements inBlock rounds q.advance
        (s :: body, done)
      | .error d q =>
        if inBlock && closesBlock d q then ([], q.record d)
        else statements inBlock rounds ((q.record d).synchronize inBlock).advance

/-- The statements up to the closing brace or the end of the source. -/
def blockBody : ParseM (List Stmt) := modifyGet fun p => statements sub true p.lexemes p

/-- A block from its opening brace on.  It fails only if the source ends before it is closed. -/
def block : ParseM Block := do
  let token := (← get).current
  advance
  let body ← blockBody sub
  let p ← get
  if p.currentIs .endOfInput then
    throw ⟨.expectedToken .rightBrace .endOfInput, p.position⟩
  else
    pure (.mk token body)

theorem expressionStatement_apply (p : Parser) :
    expressionStatement sub p =
      match sub .lowest p with
      | .ok e q =>
        .ok (.expression p.current e) (if q.lookaheadIs .semicolon then q.advance else q)
      | .error d q => .error d q := by
  have hget : ∀ q : Parser, (get : ParseM Parser) q = .ok q q := fun _ => rfl
  simp only [expressionStatement, bind, EStateM.bind, hget]
  cases sub .lowest p with
  | error d q => rfl
  | ok e q =>
    simp only
    split <;> rfl

end Rule

end ScriptSyntax
