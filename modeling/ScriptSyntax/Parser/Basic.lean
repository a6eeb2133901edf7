import ScriptSyntax.Parser.Event
import ScriptSyntax.Scanner.Basic

/-!
# The state of a parse

A parser looks at the tokens of a source through a window of two: the current token and the one
after it, the lookahead.  Moving the window drops the current token for good, so the tokens that a
parser still has are always the last ones of its source, and every question it asks is about the
first two of them.  Past the last token the window shows the end marker.

Beside the tokens a parser holds what it has found so far: the diagnostics in order, the number of
expressions it is inside of, and the transcript.

## Main statements

* `Parser.lexemes_advance`: moving the window drops one token.
* `Parser.lexemes_synchronize_isSuffix`: skipping to a boundary only moves the window.
* `Parser.depth_synchronize`: and it leaves the nesting alone.
-/

namespace ScriptSyntax

/-- The number of expressions that may lie inside one another. -/
def maxNesting : Nat := 100

/-- The state of a parse. -/
structure Parser where
  /-- The tokens from the current one on, without the end marker. -/
  lexemes : List Lexeme
  /-- The end of the source, where the end marker stands. -/
  finish : Position
  /-- The diagnostics found so far, in order. -/
  diagnostics : Array Diagnostic
  /-- The number of expressions being parsed, one inside the other. -/
  depth : Nat
  /-- What happened so far. -/
  transcript : Array Event
deriving DecidableEq, Repr, Inhabited

namespace Parser

/-! ## The window -/

/-- The token `index` places after the current one. -/
def tokenAt (p : Parser) (index : Nat) : Token :=
  (p.lexemes[index]?.map Lexeme.token).getD (.endOfInput p.finish)

/-- The token being parsed. -/
def current (p : Parser) : Token := p.tokenAt 0

/-- The token after the current one. -/
def lookahead (p : Parser) : Token := p.tokenAt 1

/-- Whether the current token is of this kind. -/
def currentIs (p : Parser) (kind : TokenKind) : Bool := p.current.kind == kind

/-- Whether the lookahead is of this kind. -/
def lookaheadIs (p : Parser) (kind : TokenKind) : Bool := p.lookahead.kind == kind

/-- The place of the current token. -/
def position (p : Parser) : Position := p.current.position

/-- The label of the source. -/
def label (p : Parser) : String := p.finish.label

/-- The parser with one more event in its transcript. -/
def note (p : Parser) (event : Event) : Parser :=
  { p with transcript := p.transcript.push event }

/-- The parser that stands on the next token of `s`.  The diagnostics that wait with the scanner
come first, then what is wrong with the current token. -/
def ofScanner (s : Scanner) : Parser :=
  let lexemes := s.lexemes.1
  let p : Parser :=
    { lexemes := lexemes
      finish := s.lexemes.2.position
      diagnostics := (s.pending ++ lexemes.head?.toList.filterMap Lexeme.diagnostic?).toArray
      depth := 0
      transcript := #[] }
  (p.note (.scanned p.current)).note (.scanned p.lookahead)

/-- The parser at the start of `source`. -/
def ofSource (source : String) (label? : Option String) : Parser :=
  ofScanner (.ofSource source label?)

/-- Moves the window by one token.  What is wrong with a token by itself is told when it becomes
current, so that the diagnostics stay in the order of the source. -/
def advance (p : Parser) : Parser :=
  let scanned := p.tokenAt 2
  let reached := p.lookahead
  let found := p.lexemes[1]?.toList.filterMap Lexeme.diagnostic?
  { p with
    lexemes := p.lexemes.tail
    diagnostics := p.diagnostics ++ found
    transcript := (p.transcript.push (.scanned scanned)).push (.reached reached) }

@[simp] theorem lexemes_advance (p : Parser) : p.advance.lexemes = p.lexemes.tail := rfl

@[simp] theorem finish_advance (p : Parser) : p.advance.finish = p.finish := rfl

@[simp] theorem depth_advance (p : Parser) : p.advance.depth = p.depth := rfl

/-- Moving the window shifts every token in view by one place. -/
@[simp] theorem tokenAt_advance (p : Parser) (index : Nat) :
    p.advance.tokenAt index = p.tokenAt (index + 1) := by
  simp [tokenAt]

/-! ## Diagnostics -/

/-- Records a diagnostic that does not stop the parse. -/
def record (p : Parser) (d : Diagnostic) : Parser :=
  { p with diagnostics := p.diagnostics.push d, transcript := p.transcript.push (.recorded d) }

/-- The diagnostic for a lookahead that had to be of kind `expected`. -/
def unexpected (p : Parser) (expected : TokenKind) : Diagnostic :=
  ⟨.expectedToken expected p.lookahead.kind, p.lookahead.position⟩

/-- The diagnostic for a current token that starts no expression. -/
def notAnOperand (p : Parser) : Diagnostic := ⟨.noOperand p.current.kind, p.position⟩

/-- The diagnostic for a current token that starts an expression nested too deep. -/
def tooDeep (p : Parser) : Diagnostic := ⟨.nestingTooDeep maxNesting, p.position⟩

/-- The messages of the diagnostics found so far, in order. -/
def messages (p : Parser) : List String := p.diagnostics.toList.map Diagnostic.message

/-! ## Recovery -/

/-- Whether skipping stops here: on a semicolon, before the end of the source, and inside a block
before a closing brace. -/
def atBoundary (p : Parser) (inBlock : Bool) : Bool :=
  p.current.isOneOf [.semicolon, .endOfInput] || p.lookaheadIs .endOfInput ||
    (inBlock && p.lookaheadIs .rightBrace)

/-- Skips one token for each of `rounds`, up to the first boundary. -/
def skip (inBlock : Bool) : (rounds : List Lexeme) → Parser → Parser
  | [], p => p
  | _ :: rounds, p => if p.atBoundary inBlock then p else skip inBlock rounds p.advance

/-- Skips to the end of the construct that just failed. -/
def synchronize (p : Parser) (inBlock : Bool) : Parser := skip inBlock p.lexemes p

/-- The end marker is a boundary, so there are rounds enough to reach one. -/
theorem atBoundary_of_lexemes_eq_nil {p : Parser} (h : p.lexemes = []) (inBlock : Bool) :
    p.atBoundary inBlock = true := by
  simp [atBoundary, current, tokenAt, h, Token.isOneOf, Token.endOfInput]

/-- Skipping ends at a boundary. -/
theorem atBoundary_synchronize (p : Parser) (inBlock : Bool) :
    (p.synchronize inBlock).atBoundary inBlock = true := by
  suffices h : ∀ rounds q, q.lexemes = rounds → (skip inBlock rounds q).atBoundary inBlock = true from
    h _ p rfl
  intro rounds
  induction rounds with
  | nil => exact fun q hq => atBoundary_of_lexemes_eq_nil hq inBlock
  | cons _ rounds ih =>
    intro q hq
    unfold skip
    split
    · assumption
    · exact ih q.advance (by simp [hq])

/-- Skipping is idle at a boundary and moves the window otherwise. -/
theorem synchronize_eq (p : Parser) (inBlock : Bool) :
    p.synchronize inBlock =
      if p.atBoundary inBlock then p else p.advance.synchronize inBlock := by
  cases h : p.lexemes with
  | nil => simp [synchronize, skip, h, atBoundary_of_lexemes_eq_nil h]
  | cons l ls => simp [synchronize, skip, h]

/-- A fact that moving the window keeps is kept by skipping. -/
theorem synchronize_induction {inBlock : Bool} {motive : Parser → Prop}
    (advance : ∀ p, motive p → motive p.advance) {p : Parser} (h : motive p) :
    motive (p.synchronize inBlock) := by
  suffices hs : ∀ rounds q, motive q → motive (skip inBlock rounds q) from hs _ p h
  intro rounds
  induction rounds with
  | nil => exact fun q hq => hq
  | cons _ rounds ih =>
    intro q hq
    unfold skip
    split
    · exact hq
    · exact ih _ (advance q hq)

/-- Skipping only moves the window. -/
theorem lexemes_synchronize_isSuffix (p : Parser) (inBlock : Bool) :
    (p.synchronize inBlock).lexemes <:+ p.lexemes :=
  synchronize_induction (motive := fun q => q.lexemes <:+ p.lexemes)
    (fun q hq => (q.lexemes.tail_suffix).trans hq) (List.suffix_refl _)

/-- Skipping leaves the nesting alone. -/
theorem depth_synchronize (p : Parser) (inBlock : Bool) :
    (p.synchronize inBlock).depth = p.depth :=
  synchronize_induction (motive := fun q => q.depth = p.depth) (fun _ hq => hq) rfl

end Parser

end ScriptSyntax
