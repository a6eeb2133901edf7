import ScriptSyntax.Diagnostic.Basic
import ScriptSyntax.Scanner.Munch
import ScriptSyntax.Token.Basic

/-!
# The scanner

A scanner is a cursor in a labelled source: the number of characters passed and the characters
still to come.  `Scanner.next` passes one token and yields it; at the end of the source it yields
the end marker, for ever.  A string without a closing quote is a token like any other, and leaves a
diagnostic with the scanner until someone takes it.

## Main statements

* `Scanner.rest_length_of_next?`: a token takes at least one character off the text to come, which
  is why `Scanner.drain` needs no more rounds than there are characters.
* `Scanner.next_of_next?_eq_none`: with no token left the scanner stands at the end of the source.
-/

namespace ScriptSyntax

/-- A token, and whether it is complete. -/
structure Lexeme where
  token : Token
  /-- False for a string token without a closing quote. -/
  closed : Bool
deriving DecidableEq, Repr, Inhabited

/-- What is wrong with the token itself: a string without a closing quote is reported where it
opens. -/
def Lexeme.diagnostic? (l : Lexeme) : Option Diagnostic :=
  if l.closed then none else some ⟨.unterminatedString l.token.text, l.token.position⟩

/-- A cursor in a source. -/
structure Scanner where
  /-- The label of the source. -/
  label : String
  /-- The number of characters passed. -/
  offset : Nat
  /-- The characters still to come. -/
  rest : List Char
  /-- The diagnostics found so far and not yet taken. -/
  pending : List Diagnostic
deriving DecidableEq, Repr, Inhabited

namespace Scanner

/-- The scanner at the start of `source`. -/
def ofSource (source : String) (label? : Option String) : Scanner where
  label := label?.getD defaultLabel
  offset := 0
  rest := source.toList
  pending := []

/-- The place of the cursor. -/
def position (s : Scanner) : Position := ⟨.ofNat s.offset, s.label⟩

/-- The character under the cursor, if there is one. -/
def head? (s : Scanner) : Option Char := s.rest.head?

/-- The character after the one under the cursor, if there is one. -/
def second? (s : Scanner) : Option Char := s.rest[1]?

/-- Whether the cursor stands at the end of the source. -/
def atEnd (s : Scanner) : Bool := s.rest.isEmpty

/-- The diagnostics not yet taken, and the scanner without them. -/
def takePending (s : Scanner) : List Diagnostic × Scanner := (s.pending, { s with pending := [] })

/-! ## Moving the cursor -/

/-- Moves the cursor over `count` characters, which have to be there. -/
def pass (s : Scanner) (count : Nat) : Scanner :=
  { s with offset := s.offset + count, rest := s.rest.drop count }

/-- Moves the cursor over `count` characters, or to the end of the source if there are fewer. -/
def advance (s : Scanner) (count : Nat) : Scanner := s.pass (s.rest.take count).length

/-- Moves the cursor over the spaces that come next. -/
def skipSpaces (s : Scanner) : Scanner := s.pass (s.rest.takeWhile isSpace).length

@[simp] theorem rest_pass (s : Scanner) (count : Nat) : (s.pass count).rest = s.rest.drop count := rfl

@[simp] theorem rest_skipSpaces (s : Scanner) : s.skipSpaces.rest = s.rest.dropWhile isSpace := by
  have h : ∀ l : List Char, l.drop (l.takeWhile isSpace).length = l.dropWhile isSpace := by
    intro l
    induction l with
    | nil => rfl
    | cons c l ih => by_cases hc : isSpace c = true <;> simp [hc, ih]
  exact h s.rest

/-! ## Tokens -/

/-- The token of shape `m` that the scanner has before it, and the scanner past it. -/
def take (s : Scanner) (m : Munch) : Lexeme × Scanner :=
  let stop := s.pass m.covered.length
  let lexeme : Lexeme := ⟨⟨m.kind, .ofList m.text, ⟨s.position, stop.position⟩⟩, m.closed⟩
  (lexeme, { stop with pending := stop.pending ++ lexeme.diagnostic?.toList })

/-- The next token and the scanner past it, or `none` if nothing but spaces is left. -/
def next? (s : Scanner) : Option (Lexeme × Scanner) :=
  match s.skipSpaces.rest with
  | [] => none
  | c :: rest => some (s.skipSpaces.take (munch c rest))

/-- The next token and the scanner past it; at the end of the source, the end marker. -/
def next (s : Scanner) : Token × Scanner :=
  match s.next? with
  | some (lexeme, stop) => (lexeme.token, stop)
  | none => (.endOfInput s.skipSpaces.position, s.skipSpaces)

/-- The next tokens, `rounds` of them at most, and the scanner past them and the spaces that
follow. -/
def drain : (rounds : Nat) → Scanner → List Lexeme × Scanner
  | 0, s => ([], s.skipSpaces)
  | rounds + 1, s =>
    match s.next? with
    | none => ([], s.skipSpaces)
    | some (lexeme, stop) =>
      let (lexemes, done) := drain rounds stop
      (lexeme :: lexemes, done)

/-- The tokens still to come without the end marker, and the scanner at the end of the source. -/
def lexemes (s : Scanner) : List Lexeme × Scanner := s.drain s.rest.length

/-- The tokens still to come, the end marker included. -/
def tokens (s : Scanner) : List Token :=
  s.lexemes.1.map Lexeme.token ++ [.endOfInput s.lexemes.2.position]

/-- A token takes at least one character off the text to come. -/
theorem rest_length_of_next? {s stop : Scanner} {lexeme : Lexeme}
    (h : s.next? = some (lexeme, stop)) : stop.rest.length < s.rest.length := by
  unfold next? at h
  split at h
  · cases h
  · rename_i c rest hs
    simp only [take, Option.some.injEq, Prod.mk.injEq] at h
    obtain ⟨-, rfl⟩ := h
    have hpos : 0 < (munch c rest).covered.length :=
      List.length_pos_iff.2 (munch_covered_ne_nil c rest)
    have hle : s.skipSpaces.rest.length ≤ s.rest.length := by
      rw [rest_skipSpaces]; exact (List.dropWhile_suffix _).length_le
    simp only [rest_pass, hs, List.length_drop, List.length_cons] at hle ⊢
    omega

theorem next_of_next?_eq_none {s : Scanner} (h : s.next? = none) :
    s.next = (.endOfInput s.skipSpaces.position, s.skipSpaces) ∧ s.skipSpaces.rest = [] := by
  refine ⟨by simp [next, h], ?_⟩
  unfold next? at h
  split at h
  · assumption
  · cases h

end Scanner

/-- The tokens of a source, the end marker included. -/
def tokenize (source : String) (label? : Option String) : List Token :=
  (Scanner.ofSource source label?).tokens

end ScriptSyntax
