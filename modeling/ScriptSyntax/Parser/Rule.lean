import ScriptSyntax.Parser.Basic
import ScriptSyntax.Token.Power
import ScriptSyntax.Tree.Basic

/-!
# Parsing rules

A rule parses one construct.  It starts with the current token on the first token of the construct
and ends with the current token on its last one, so that what follows is always the lookahead.  A
rule that fails throws its diagnostic with the window where the fault was found.

This file has the steps that every rule is made of: moving the window, insisting on the next token,
and entering a level of nesting.

## Main statements

* `Rule.expect_apply`, `Rule.expectEnd_apply`: what insisting on a token does to a parser.
* `Rule.nested_apply`: a nested parse gives back the level it entered, whether it fails or not.
-/

namespace ScriptSyntax

/-- A parse that may fail with a diagnostic; failing does not undo what was parsed. -/
abbrev ParseM := EStateM Diagnostic Parser

namespace Parser

/-- Enters one more level of nesting, or fails if `maxNesting` are entered already. -/
def enterNesting : ParseM Unit := do
  let p ← get
  if p.depth < maxNesting then set { p with depth := p.depth + 1 } else throw p.tooDeep

/-- Leaves a level of nesting, if one was entered. -/
def leaveNesting (p : Parser) : Parser := { p with depth := p.depth - 1 }

end Parser

namespace Rule

/-- Moves the window by one token. -/
def advance : ParseM Unit := modify Parser.advance

/-- Moves the window if the lookahead is of this kind, and fails otherwise. -/
def expect (kind : TokenKind) : ParseM Unit := do
  let p ← get
  if p.lookaheadIs kind then advance else throw (p.unexpected kind)

/-- The tokens before which a statement may end without a semicolon. -/
def closers : List TokenKind := [.rightBrace, .endOfInput]

/-- Ends a statement: moves the window to a semicolon, which may be missing from the last statement
of a block or of a program. -/
def expectEnd : ParseM Unit := do
  let p ← get
  if p.lookaheadIs .semicolon then advance
  else if p.lookahead.isOneOf closers then pure ()
  else throw (p.unexpected .semicolon)

/-- The identifier that has to come next. -/
def identifier : ParseM Identifier := do
  expect .identifier
  let p ← get
  pure ⟨p.current, p.current.text⟩

/-- Runs `parse` to its end and answers how it ended. -/
def attempt {α : Type} (parse : ParseM α) : ParseM (Except Diagnostic α) := fun p =>
  match parse p with
  | .ok a q => .ok (.ok a) q
  | .error d q => .ok (.error d) q

/-- Runs `parse` one level of nesting further in. -/
def nested {α : Type} (parse : ParseM α) : ParseM α := do
  Parser.enterNesting
  let outcome ← attempt parse
  modify Parser.leaveNesting
  MonadExcept.ofExcept outcome

theorem advance_apply (p : Parser) : advance p = .ok () p.advance := rfl

theorem expect_apply (kind : TokenKind) (p : Parser) :
    expect kind p =
      if p.lookaheadIs kind then .ok () p.advance else .error (p.unexpected kind) p := by
  change (if p.lookaheadIs kind then advance else throw (p.unexpected kind) : ParseM Unit) p = _
  split <;> rfl

theorem expectEnd_apply (p : Parser) :
    expectEnd p =
      if p.lookaheadIs .semicolon then .ok () p.advance
      else if p.lookahead.isOneOf closers then .ok () p
      else .error (p.unexpected .semicolon) p := by
  change (if p.lookaheadIs .semicolon then advance
    else if p.lookahead.isOneOf closers then pure ()
    else throw (p.unexpected .semicolon) : ParseM Unit) p = _
  split
  · rfl
  · split <;> rfl

theorem enterNesting_apply (p : Parser) :
    Parser.enterNesting p =
      if p.depth < maxNesting then .ok () { p with depth := p.depth + 1 }
      else .error p.tooDeep p := by
  change (if p.depth < maxNesting then set { p with depth := p.depth + 1 }
    else throw p.tooDeep : ParseM Unit) p = _
  split <;> rfl

/-- A nested parse gives back the level it entered, whether it fails or not. -/
theorem nested_apply {α : Type} (parse : ParseM α) (p : Parser) :
    nested parse p =
      if p.depth < maxNesting then
        match parse { p with depth := p.depth + 1 } with
        | .ok a q => .ok a q.leaveNesting
        | .error d q => .error d q.leaveNesting
      else .error p.tooDeep p := by
  by_cases h : p.depth < maxNesting
  · simp only [nested, bind, EStateM.bind, enterNesting_apply, if_pos h, attempt]
    cases parse { p with depth := p.depth + 1 } <;> rfl
  · simp only [nested, bind, EStateM.bind, enterNesting_apply, if_neg h]

end Rule

end ScriptSyntax
