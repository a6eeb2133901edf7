import ScriptSyntax.Proofs.Scanner.Spelling

/-!
# The longest token

`munch` computes the token at the head of a text.  Here is what that token is, said without the
computation: a string opens with a quote and runs to the next one, a word and a number are the
longest runs of their characters, and an operator is the longest entry of a table.

## Main statements

* `isLongest_iff`: a text that starts with no space has one longest token at its head, and `munch`
  reads it.
-/

namespace ScriptSyntax

/-! ## Runs -/

/-- `run` is the longest run of characters with `p` at the head of `text`. -/
structure IsLongestRun (p : Char → Bool) (text run : List Char) : Prop where
  isPrefix : run <+: text
  all : ∀ c ∈ run, p c = true
  longest : ∀ other, other <+: text → (∀ c ∈ other, p c = true) → other.length ≤ run.length

lemma isLongestRun_iff {p : Char → Bool} {text run : List Char} :
    IsLongestRun p text run ↔ run = text.takeWhile p := by
  have htake : IsLongestRun p text (text.takeWhile p) := by
    refine ⟨List.takeWhile_prefix p, fun c hc => List.mem_takeWhile_imp hc, ?_⟩
    rintro other ⟨rest, rfl⟩ hall
    have hother := List.takeWhile_eq_self_iff.2 hall
    rw [List.takeWhile_append, hother, if_pos rfl, List.length_append]
    exact Nat.le_add_right _ _
  constructor
  · intro h
    have hlen : run.length = (text.takeWhile p).length :=
      (htake.longest run h.isPrefix h.all).antisymm (h.longest _ htake.isPrefix htake.all)
    exact (List.prefix_of_prefix_length_le h.isPrefix htake.isPrefix hlen.le).eq_of_length hlen
  · rintro rfl
    exact htake

/-! ## Words -/

/-- The kind of a word is the one that the table of reserved words has for it, and `identifier` for a
word that is not in the table. -/
def IsWordKind (word : String) (kind : TokenKind) : Prop :=
  (word, kind) ∈ TokenKind.reserved ∨
    kind = .identifier ∧ ∀ entry ∈ TokenKind.reserved, entry.1 ≠ word

lemma isWordKind_iff {word : String} {kind : TokenKind} :
    IsWordKind word kind ↔ kind = .ofWord word := by
  constructor
  · rintro (hmem | ⟨rfl, hnone⟩)
    · have htable : ∀ entry ∈ TokenKind.reserved, entry.2 = .ofWord entry.1 := by decide
      exact htable _ hmem
    · have hlookup : TokenKind.reserved.lookup word = none := by
        rw [List.lookup_eq_none_iff]
        exact fun entry hentry => by simpa using (hnone entry hentry).symm
      rw [TokenKind.ofWord, hlookup, Option.getD_none]
  · rintro rfl
    rw [IsWordKind, TokenKind.ofWord]
    cases hlookup : TokenKind.reserved.lookup word with
    | some kind =>
      obtain ⟨before, behind, hreserved, -⟩ := List.lookup_eq_some_iff.1 hlookup
      exact .inl (by simp [hreserved])
    | none =>
      rw [List.lookup_eq_none_iff] at hlookup
      exact .inr ⟨rfl, fun entry hentry heq => by simpa [heq] using hlookup entry hentry⟩

/-! ## Operators and delimiters -/

/-- The operators and delimiters, each with its kind. -/
def operators : List (List Char × TokenKind) :=
  [(['=', '='], .equal), (['!', '='], .notEqual), (['='], .assign), (['!'], .bang),
    (['+'], .plus), (['-'], .minus), (['*'], .asterisk), (['/'], .slash), (['<'], .less),
    (['>'], .greater), (['('], .leftParen), ([')'], .rightParen), (['{'], .leftBrace),
    (['}'], .rightBrace), (['['], .leftBracket), ([']'], .rightBracket), ([','], .comma),
    ([';'], .semicolon)]

/-- `covered` is the longest operator or delimiter at the head of `text` and `kind` its kind, or
`text` starts with none and its first character is an illegal token. -/
inductive IsLongestMark (text : List Char) : TokenKind → List Char → Prop
  | operator {kind : TokenKind} {covered : List Char} (mem : (covered, kind) ∈ operators)
      (isPrefix : covered <+: text)
      (longest : ∀ entry ∈ operators, entry.1 <+: text → entry.1.length ≤ covered.length) :
      IsLongestMark text kind covered
  | illegal {c : Char} (head : text.head? = some c)
      (none : ∀ entry ∈ operators, ¬entry.1 <+: text) : IsLongestMark text .illegal [c]

lemma IsLongestMark.unique {text covered covered' : List Char} {kind kind' : TokenKind}
    (h : IsLongestMark text kind covered) (h' : IsLongestMark text kind' covered') :
    kind = kind' ∧ covered = covered' := by
  cases h with
  | operator hmem hhead hlongest =>
    cases h' with
    | operator hmem' hhead' hlongest' =>
      have hlen := (hlongest' _ hmem hhead).antisymm (hlongest _ hmem' hhead')
      have hcovered := (List.prefix_of_prefix_length_le hhead hhead' hlen.le).eq_of_length hlen
      have htable : ∀ e ∈ operators, ∀ e' ∈ operators, e.1 = e'.1 → e.2 = e'.2 := by decide
      exact ⟨htable _ hmem _ hmem' hcovered, hcovered⟩
    | illegal _ hnone => exact absurd hhead (hnone _ hmem)
  | illegal hhead hnone =>
    cases h' with
    | operator hmem' hhead' _ => exact absurd hhead' (hnone _ hmem')
    | illegal hhead' _ => exact ⟨rfl, by rw [Option.some.inj (hhead.symm.trans hhead')]⟩

/-- An entry of the table that starts a text is its first character, or one of the two entries of
length two. -/
lemma eq_singleton_of_mem_operators {entry : List Char × TokenKind} (hmem : entry ∈ operators)
    {c : Char} {rest : List Char} (hstarts : entry.1 <+: c :: rest)
    (hlong : ¬(rest.head? = some '=' ∧ (c = '=' ∨ c = '!'))) : entry.1 = [c] := by
  have htable : ∀ e ∈ operators, e.1.length = 1 ∨ e.1 = ['=', '='] ∨ e.1 = ['!', '='] := by decide
  obtain ⟨behind, hbehind⟩ := hstarts
  rcases htable entry hmem with hlen | hx | hx
  · obtain ⟨x, hx⟩ := List.length_eq_one_iff.1 hlen
    rw [hx] at hbehind ⊢
    injection hbehind with hhead
    rw [hhead]
  all_goals
    rw [hx] at hbehind
    injection hbehind with hhead htail
    exact absurd ⟨by simp [← htail], by simp [← hhead]⟩ hlong

/-- A character on its own is illegal unless the table has it. -/
lemma markKind_eq_illegal {c : Char} (h : ([c], Munch.markKind c) ∉ operators) :
    Munch.markKind c = .illegal := by
  revert h
  unfold Munch.markKind
  split <;> simp [operators]

/-- What `munch` reads as an operator, a delimiter or an illegal character is the longest entry of
the table. -/
lemma isLongestMark_mark (c : Char) (rest : List Char) :
    IsLongestMark (c :: rest) (Munch.mark c rest).kind (Munch.mark c rest).covered := by
  have hcovered := Munch.mark_covered_isPrefix c rest
  by_cases hlong : rest.head? = some '=' ∧ (c = '=' ∨ c = '!')
  · have hlength : ∀ entry ∈ operators, entry.1.length ≤ 2 := by decide
    obtain ⟨hhead, rfl | rfl⟩ := hlong
    all_goals
      simp only [Munch.mark, hhead] at hcovered ⊢
      exact .operator (by decide) hcovered fun entry hentry _ => hlength entry hentry
  · have hmark : Munch.mark c rest = .plain (Munch.markKind c) [c] := by
      unfold Munch.mark
      split <;> simp_all
    have hone : ∀ entry ∈ operators, entry.1 <+: c :: rest → entry.1 = [c] :=
      fun entry hentry hstarts => eq_singleton_of_mem_operators hentry hstarts hlong
    rw [hmark] at hcovered ⊢
    by_cases hmem : ([c], Munch.markKind c) ∈ operators
    · refine .operator hmem hcovered fun entry hentry hstarts => ?_
      rw [hone entry hentry hstarts]
      rfl
    · rw [Munch.plain, markKind_eq_illegal hmem]
      refine .illegal rfl fun entry hentry hstarts => hmem ?_
      have htable : ∀ e ∈ operators, ∀ x, e.1 = [x] → e.2 = Munch.markKind x := by
        simp [operators, Munch.markKind]
      have hc := hone entry hentry hstarts
      rw [← hc, ← htable entry hentry c hc]
      exact hentry

/-! ## Tokens -/

/-- A token of kind `kind` with the text `value` that covers the characters `covered` is the longest
one at the head of `text`. -/
structure IsLongest (text : List Char) (kind : TokenKind) (value covered : List Char) : Prop where
  isPrefix : covered <+: text
  ne_nil : covered ≠ []
  /-- A token starts at no space. -/
  isSpace_eq_false : ∀ c ∈ text.head?, isSpace c = false
  /-- Strings, and nothing else, start with a quote. -/
  kind_eq_string_iff : kind = .string ↔ text.head? = some '"'
  covered_eq : kind ≠ .string → covered = value
  /-- A string runs to the next quote, and to the end of the text if there is none. -/
  string : kind = .string →
    '"' ∉ value ∧ (covered = '"' :: value ++ ['"'] ∨ covered = '"' :: value ∧ covered = text)
  word : ∀ c ∈ text.head?, isWordChar c = true →
    IsLongestRun isWordChar text covered ∧ IsWordKind (.ofList value) kind
  integer : ∀ c ∈ text.head?, c.isDigit = true →
    IsLongestRun Char.isDigit text covered ∧ kind = .integer
  mark : ∀ c ∈ text.head?, c ≠ '"' → isWordChar c = false → c.isDigit = false →
    IsLongestMark text kind covered

/-- A token covers some character. -/
lemma IsLongest.exists_cons {text value covered : List Char} {kind : TokenKind}
    (h : IsLongest text kind value covered) : ∃ c rest, text = c :: rest := by
  obtain ⟨behind, rfl⟩ := h.isPrefix
  exact List.exists_cons_of_ne_nil (List.append_ne_nil_of_left_ne_nil h.ne_nil _)

lemma ofWord_ne_string (word : String) : TokenKind.ofWord word ≠ .string :=
  ne_of_mem_of_not_mem (ofWord_mem word) (by decide)

variable {c : Char} {rest : List Char}

/-- A string covers its quote, its text and the closing quote, if there is one. -/
lemma Munch.covered_string (rest : List Char) :
    (string rest).covered = '"' :: (string rest).text ++ ['"'] ∨
      (string rest).covered = '"' :: (string rest).text ∧ (string rest).covered = '"' :: rest := by
  cases hdrop : rest.dropWhile (· != '"') with
  | nil =>
    have htake : rest.takeWhile (· != '"') = rest := by
      have := List.takeWhile_append_dropWhile (p := (· != '"')) (l := rest)
      rwa [hdrop, List.append_nil] at this
    exact .inr (by simp [string, hdrop, htake])
  | cons d behind =>
    have hquote := List.head_dropWhile_not (· != '"') (l := rest) (by simp [hdrop])
    simp only [hdrop, List.head_cons, bne_eq_false_iff_eq] at hquote
    exact .inl (by simp [string, hdrop, hquote])

/-- A token that starts with no quote is no string and covers its own text. -/
lemma munch_eq_plain (h : c ≠ '"') :
    ∃ kind, kind ≠ .string ∧ ∃ text, munch c rest = .plain kind text := by
  rw [munch_of_ne h]
  split
  · exact ⟨_, ofWord_ne_string _, _, rfl⟩
  · split
    · exact ⟨_, by decide, _, rfl⟩
    · unfold Munch.mark
      split
      · exact ⟨_, by decide, _, rfl⟩
      · exact ⟨_, by decide, _, rfl⟩
      · refine ⟨_, ?_, _, rfl⟩
        unfold Munch.markKind
        split <;> decide

/-- What `munch` reads is the longest token. -/
lemma isLongest_munch (hspace : isSpace c = false) :
    IsLongest (c :: rest) (munch c rest).kind (munch c rest).text (munch c rest).covered := by
  have hhead := munch_covered_isPrefix c rest
  have hne := munch_covered_ne_nil c rest
  by_cases hquote : c = '"'
  · subst hquote
    rw [munch_quote] at hhead hne ⊢
    have hnot : '"' ∉ (Munch.string rest).text := fun hmem => by
      simpa using List.mem_takeWhile_imp hmem
    exact {
      isPrefix := hhead
      ne_nil := hne
      isSpace_eq_false := by simpa using hspace
      kind_eq_string_iff := iff_of_true rfl rfl
      covered_eq := fun h => absurd rfl h
      string := fun _ => ⟨hnot, Munch.covered_string rest⟩
      word := fun c hc hword => by cases hc; exact absurd hword (by decide)
      integer := fun c hc hdigit => by cases hc; exact absurd hdigit (by decide)
      mark := fun c hc hne => by cases hc; exact absurd rfl hne }
  · obtain ⟨kind, hkind, text, hplain⟩ := @munch_eq_plain c rest hquote
    exact {
      isPrefix := hhead
      ne_nil := hne
      isSpace_eq_false := by simpa using hspace
      kind_eq_string_iff := iff_of_false (by rwa [hplain]) (by simpa using hquote)
      covered_eq := fun _ => by rw [hplain]; rfl
      string := fun h => absurd h (by rwa [hplain])
      word := fun d hd hword => by
        cases hd
        rw [munch_of_ne hquote, if_pos hword]
        exact ⟨isLongestRun_iff.2 rfl, isWordKind_iff.2 rfl⟩
      integer := fun d hd hdigit => by
        cases hd
        rw [munch_of_ne hquote, if_neg (not_isWordChar_of_isDigit hdigit), if_pos hdigit]
        exact ⟨isLongestRun_iff.2 rfl, rfl⟩
      mark := fun d hd _ hword hdigit => by
        cases hd
        rw [munch_of_ne hquote, hword, hdigit]
        exact isLongestMark_mark c rest }

/-- The quote that closes a string is the first one behind its opening quote. -/
lemma IsLongest.string_eq {kind : TokenKind} {value covered : List Char}
    (h : IsLongest ('"' :: rest) kind value covered) :
    kind = .string ∧ value = rest.takeWhile (· != '"') ∧
      covered = if '"' ∈ rest then '"' :: value ++ ['"'] else '"' :: value := by
  have hkind := h.kind_eq_string_iff.2 rfl
  obtain ⟨hnot, hshape⟩ := h.string hkind
  have hvalue : value.takeWhile (· != '"') = value :=
    List.takeWhile_eq_self_iff.2 fun c hc => by simpa using ne_of_mem_of_not_mem hc hnot
  refine ⟨hkind, ?_⟩
  rcases hshape with hclosed | ⟨hopen, hall⟩
  · obtain ⟨behind, hbehind⟩ := h.isPrefix
    rw [hclosed, List.cons_append, List.cons_append, List.append_assoc] at hbehind
    injection hbehind with _ hrest
    subst hrest
    rw [List.takeWhile_append, hvalue, if_pos rfl, if_pos (by simp)]
    exact ⟨by simp, hclosed⟩
  · rw [hopen] at hall
    injection hall with _ hrest
    subst hrest
    exact ⟨hvalue.symm, by rw [if_neg hnot, hopen]⟩

/-- A text has no more than one longest token at its head. -/
lemma IsLongest.unique {text value value' covered covered' : List Char} {kind kind' : TokenKind}
    (h : IsLongest text kind value covered) (h' : IsLongest text kind' value' covered') :
    kind = kind' ∧ value = value' ∧ covered = covered' := by
  obtain ⟨c, rest, rfl⟩ := h.exists_cons
  by_cases hquote : c = '"'
  · subst hquote
    obtain ⟨rfl, rfl, rfl⟩ := h.string_eq
    obtain ⟨rfl, rfl, rfl⟩ := h'.string_eq
    exact ⟨rfl, rfl, rfl⟩
  · have hplain : covered = value := h.covered_eq fun hs => by
      simpa [hquote] using h.kind_eq_string_iff.1 hs
    have hplain' : covered' = value' := h'.covered_eq fun hs => by
      simpa [hquote] using h'.kind_eq_string_iff.1 hs
    subst hplain hplain'
    suffices hboth : kind = kind' ∧ covered = covered' from ⟨hboth.1, hboth.2, hboth.2⟩
    by_cases hword : isWordChar c = true
    · obtain ⟨hrun, hkind⟩ := h.word c rfl hword
      obtain ⟨hrun', hkind'⟩ := h'.word c rfl hword
      have hcovered := (isLongestRun_iff.1 hrun).trans (isLongestRun_iff.1 hrun').symm
      subst hcovered
      exact ⟨(isWordKind_iff.1 hkind).trans (isWordKind_iff.1 hkind').symm, rfl⟩
    · by_cases hdigit : c.isDigit = true
      · obtain ⟨hrun, hkind⟩ := h.integer c rfl hdigit
        obtain ⟨hrun', hkind'⟩ := h'.integer c rfl hdigit
        exact ⟨hkind.trans hkind'.symm, (isLongestRun_iff.1 hrun).trans (isLongestRun_iff.1 hrun').symm⟩
      · rw [Bool.not_eq_true] at hword hdigit
        exact (h.mark c rfl hquote hword hdigit).unique (h'.mark c rfl hquote hword hdigit)

/-- A text that starts with no space has one longest token at its head, and `munch` reads it. -/
theorem isLongest_iff (hspace : isSpace c = false) {kind : TokenKind} {value covered : List Char} :
    IsLongest (c :: rest) kind value covered ↔
      kind = (munch c rest).kind ∧ value = (munch c rest).text ∧
        covered = (munch c rest).covered := by
  constructor
  · exact fun h => h.unique (isLongest_munch hspace)
  · rintro ⟨rfl, rfl, rfl⟩
    exact isLongest_munch hspace

end ScriptSyntax
