import ScriptSyntax.Token.Kind

/-!
# The token at the head of a text

`munch` reads the longest token at the head of a text that starts with no space.  It knows nothing
of positions: what it says of a token is its kind, its text and the characters it covers.

## Main statements

* `munch_covered_isPrefix`: the covered characters are the head of the text.
* `munch_covered_ne_nil`: there is at least one of them, so a scanner makes progress.
-/

namespace ScriptSyntax

/-- The characters between tokens: space, tab, line feed and carriage return. -/
def isSpace (c : Char) : Bool := c == ' ' || c == '\t' || c == '\n' || c == '\r'

/-- The characters of identifiers and reserved words: ASCII letters and the underscore. -/
def isWordChar (c : Char) : Bool := c.isAlpha || c == '_'

/-- A token without its place. -/
structure Munch where
  kind : TokenKind
  /-- The text of the token; for a string what stands between its quotes. -/
  text : List Char
  /-- The characters that the token covers. -/
  covered : List Char
  /-- Whether the token is complete: false for a string without a closing quote. -/
  closed : Bool
deriving DecidableEq, Repr, Inhabited

namespace Munch

/-- A complete token that covers its own text. -/
def plain (kind : TokenKind) (text : List Char) : Munch where
  kind := kind
  text := text
  covered := text
  closed := true

/-- The kind of a token made of the single character `c`; a character that starts no token is
`illegal`. -/
def markKind : Char → TokenKind
  | '=' => .assign
  | '!' => .bang
  | '+' => .plus
  | '-' => .minus
  | '*' => .asterisk
  | '/' => .slash
  | '<' => .less
  | '>' => .greater
  | '(' => .leftParen
  | ')' => .rightParen
  | '{' => .leftBrace
  | '}' => .rightBrace
  | '[' => .leftBracket
  | ']' => .rightBracket
  | ',' => .comma
  | ';' => .semicolon
  | _ => .illegal

/-- The operator, delimiter or illegal character at the head of `c :: rest`. -/
def mark (c : Char) (rest : List Char) : Munch :=
  match c, rest.head? with
  | '=', some '=' => plain .equal ['=', '=']
  | '!', some '=' => plain .notEqual ['!', '=']
  | _, _ => plain (markKind c) [c]

/-- The string whose opening quote stands before `rest`: it runs to the next quote, or without a
closing quote to the end of the text. -/
def string (rest : List Char) : Munch :=
  let text := rest.takeWhile (· != '"')
  let closing := (rest.dropWhile (· != '"')).take 1
  { kind := .string, text := text, covered := '"' :: text ++ closing, closed := !closing.isEmpty }

/-- The identifier or reserved word at the head of `rest`. -/
def word (rest : List Char) : Munch :=
  let text := rest.takeWhile isWordChar
  plain (.ofWord (String.ofList text)) text

/-- The integer at the head of `rest`. -/
def integer (rest : List Char) : Munch :=
  plain .integer (rest.takeWhile Char.isDigit)

end Munch

/-- The longest token at the head of `c :: rest`, where `c` is no space. -/
def munch (c : Char) (rest : List Char) : Munch :=
  if c = '"' then .string rest
  else if isWordChar c then .word (c :: rest)
  else if c.isDigit then .integer (c :: rest)
  else .mark c rest

theorem Munch.mark_covered_isPrefix (c : Char) (rest : List Char) :
    (mark c rest).covered <+: c :: rest := by
  unfold mark
  split
  · rename_i h
    obtain ⟨t, rfl⟩ : ∃ t, rest = '=' :: t := by
      cases rest <;> simp_all
    exact ⟨t, rfl⟩
  · rename_i h
    obtain ⟨t, rfl⟩ : ∃ t, rest = '=' :: t := by
      cases rest <;> simp_all
    exact ⟨t, rfl⟩
  · exact ⟨rest, rfl⟩

theorem Munch.string_covered_isPrefix (rest : List Char) :
    (string rest).covered <+: '"' :: rest := by
  -- the closing quote is the first of the characters that the text leaves over
  have h : rest.takeWhile (· != '"') ++ (rest.dropWhile (· != '"')).take 1 <+: rest := by
    conv => rhs; rw [← List.takeWhile_append_dropWhile (p := (· != '"')) (l := rest)]
    exact (List.prefix_append_right_inj _).2 (List.take_prefix _ _)
  simpa [string] using h

/-- The characters that a token covers are the head of the text. -/
theorem munch_covered_isPrefix (c : Char) (rest : List Char) :
    (munch c rest).covered <+: c :: rest := by
  unfold munch
  split
  · rename_i h; subst h; exact Munch.string_covered_isPrefix rest
  · split
    · exact List.takeWhile_prefix _
    · split
      · exact List.takeWhile_prefix _
      · exact Munch.mark_covered_isPrefix c rest

/-- A token covers at least one character. -/
theorem munch_covered_ne_nil (c : Char) (rest : List Char) : (munch c rest).covered ≠ [] := by
  unfold munch
  split
  · simp [Munch.string]
  · split
    · rename_i h; simp [Munch.word, Munch.plain, h]
    · split
      · rename_i h; simp [Munch.integer, Munch.plain, h]
      · unfold Munch.mark; split <;> simp [Munch.plain]

end ScriptSyntax
