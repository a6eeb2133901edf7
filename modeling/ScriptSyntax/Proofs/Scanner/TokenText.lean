import ScriptSyntax.Proofs.Scanner.Longest
import ScriptSyntax.Proofs.Tree.WellFormed

/-!
# The texts of tokens

What the kind of a token says of its text.  The text of a reserved word, of an operator and of a
delimiter is settled by the kind; a name is made of letters and is no reserved word, an integer is made
of digits, and a string holds no quote.

## Main statements

* `hasText_of_mem_scan`: the tokens of every text have texts of their kinds.
* `TokenKind.HasText.eq_of_mem_reserved`, `TokenKind.HasText.eq_of_mem_operators`: the kinds that settle
  the text.
-/

namespace ScriptSyntax

namespace TokenKind

/-- A token of this kind may have this text. -/
inductive HasText : TokenKind → String → Prop
  | identifier {text : String} : IsName text → HasText .identifier text
  | integer {text : String} :
      text ≠ "" → (∀ c ∈ text.toList, c.isDigit = true) → HasText .integer text
  | string {text : String} : '"' ∉ text.toList → HasText .string text
  | reserved {kind : TokenKind} {text : String} : (text, kind) ∈ reserved → HasText kind text
  | operator {kind : TokenKind} {text : String} : (text.toList, kind) ∈ operators → HasText kind text
  | illegal {text : String} : HasText .illegal text

namespace HasText

variable {kind : TokenKind} {text : String}

/-- A reserved word has one text. -/
lemma eq_of_mem_reserved (h : HasText kind text) {word : String}
    (hword : (word, kind) ∈ TokenKind.reserved) : text = word := by
  have hkinds : ∀ entry ∈ TokenKind.reserved, entry.2 ∉ [.identifier, .integer, .string, .illegal] ∧
      ∀ other ∈ operators, other.2 ≠ entry.2 := by decide
  have hone : ∀ entry ∈ TokenKind.reserved, ∀ other ∈ TokenKind.reserved, other.2 = entry.2 →
      other.1 = entry.1 := by decide
  obtain ⟨hother, hoperator⟩ := hkinds _ hword
  cases h with
  | identifier | integer | string | illegal => simp at hother
  | reserved hmem => exact hone _ hword _ hmem rfl
  | operator hmem => exact absurd rfl (hoperator _ hmem)

/-- So has an operator, and so has a delimiter. -/
lemma eq_of_mem_operators (h : HasText kind text) {mark : List Char}
    (hmark : (mark, kind) ∈ operators) : text = .ofList mark := by
  have hkinds : ∀ entry ∈ operators, entry.2 ∉ [.identifier, .integer, .string, .illegal] ∧
      ∀ other ∈ TokenKind.reserved, other.2 ≠ entry.2 := by decide
  have hone : ∀ entry ∈ operators, ∀ other ∈ operators, other.2 = entry.2 → other.1 = entry.1 := by
    decide
  obtain ⟨hother, hreserved⟩ := hkinds _ hmark
  cases h with
  | identifier | integer | string | illegal => simp at hother
  | reserved hmem => exact absurd rfl (hreserved _ hmem)
  | operator hmem =>
    have htext : text.toList = mark := hone _ hmark _ hmem rfl
    rw [← htext, String.ofList_toList]

lemma isName (h : HasText .identifier text) : IsName text := by
  cases h with
  | identifier hname => exact hname
  | reserved hmem => simp [TokenKind.reserved] at hmem
  | operator hmem => simp [operators] at hmem

lemma isDigit (h : HasText .integer text) : text ≠ "" ∧ ∀ c ∈ text.toList, c.isDigit = true := by
  cases h with
  | integer hne hdigits => exact ⟨hne, hdigits⟩
  | reserved hmem => simp [TokenKind.reserved] at hmem
  | operator hmem => simp [operators] at hmem

lemma quote_not_mem (h : HasText .string text) : '"' ∉ text.toList := by
  cases h with
  | string hquote => exact hquote
  | reserved hmem => simp [TokenKind.reserved] at hmem
  | operator hmem => simp [operators] at hmem

end HasText

end TokenKind

/-- The longest token at the head of a text has a text of its kind. -/
lemma IsLongest.hasText {text value covered : List Char} {kind : TokenKind}
    (h : IsLongest text kind value covered) : kind.HasText (.ofList value) := by
  obtain ⟨c, rest, rfl⟩ := h.exists_cons
  by_cases hquote : c = '"'
  · subst hquote
    have hkind := h.kind_eq_string_iff.2 rfl
    rw [hkind]
    exact .string (by simpa using (h.string hkind).1)
  · have hplain : covered = value := h.covered_eq fun hs => by
      simpa [hquote] using h.kind_eq_string_iff.1 hs
    subst hplain
    by_cases hword : isWordChar c = true
    · obtain ⟨hrun, hreserved | ⟨rfl, hnone⟩⟩ := h.word c rfl hword
      · exact .reserved hreserved
      · refine .identifier ⟨by simpa using h.ne_nil, by simpa using hrun.all, fun hmem => ?_⟩
        obtain ⟨entry, hentry, hname⟩ := List.mem_map.1 hmem
        exact hnone entry hentry hname
    · by_cases hdigit : c.isDigit = true
      · obtain ⟨hrun, rfl⟩ := h.integer c rfl hdigit
        exact .integer (by simpa using h.ne_nil) (by simpa using hrun.all)
      · rw [Bool.not_eq_true] at hword hdigit
        cases h.mark c rfl hquote hword hdigit with
        | operator hmem => exact .operator (by simpa using hmem)
        | illegal => exact .illegal

/-- The tokens of a text are the longest ones, each at its place. -/
lemma exists_isLongest_of_mem_scan {label : String} {offset : Nat} {text : List Char} {l : Lexeme}
    (h : l ∈ scan label offset text) :
    ∃ behind covered, IsLongest behind l.token.kind l.token.text.toList covered := by
  induction text using scan_induction generalizing offset with
  | nil => simp at h
  | space c text hc ih => exact ih (by rwa [scan_space hc] at h)
  | token c text hc ih =>
    rw [scan_cons hc, List.mem_cons] at h
    rcases h with rfl | h
    · refine ⟨c :: text, (munch c text).covered, ?_⟩
      change IsLongest _ (munch c text).kind (String.ofList (munch c text).text).toList _
      rw [String.toList_ofList]
      exact isLongest_munch (Bool.not_eq_true _ ▸ hc)
    · exact ih h

/-- The tokens of a text have texts of their kinds. -/
theorem hasText_of_mem_scan {label : String} {offset : Nat} {text : List Char} {l : Lexeme}
    (h : l ∈ scan label offset text) : l.token.kind.HasText l.token.text := by
  obtain ⟨behind, covered, hlongest⟩ := exists_isLongest_of_mem_scan h
  rw [← String.ofList_toList (s := l.token.text)]
  exact hlongest.hasText

end ScriptSyntax
