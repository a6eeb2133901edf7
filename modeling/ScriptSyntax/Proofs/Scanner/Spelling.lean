import ScriptSyntax.Proofs.Scanner.Append

/-!
# Spelling

What the tokens of a text are, their places left aside.  A text that is put together of others has their
tokens one after the other, as long as no token reaches from one into the next; next to a delimiter or a
space none does.

## Main statements

* `Spells.append_break`, `Spells.cons_break`: texts that meet at a delimiter or a space.
* `spells_of_munch`: a text that is a single token.
-/

namespace ScriptSyntax

/-- The text has the tokens `ts`, wherever it stands, and leaves no quote open. -/
structure Spells (text : List Char) (ts : List Token) : Prop where
  even_count : Even (text.count '"')
  tokens_eq : ∀ label offset, (scan label offset text).map (fun l => l.token.unplaced) = ts

/-- The characters that are tokens by themselves, whatever stands beside them. -/
def delimiters : List Char := ['(', ')', '[', ']', '\x7b', '\x7d', ',', ';']

/-- The characters that no longer token contains, strings left aside. -/
def isBreak (c : Char) : Bool := (' ' :: delimiters).contains c

lemma mem_of_isBreak {c : Char} (h : isBreak c = true) :
    c = ' ' ∨ c = '(' ∨ c = ')' ∨ c = '[' ∨ c = ']' ∨ c = '\x7b' ∨ c = '\x7d' ∨ c = ',' ∨ c = ';' := by
  simpa [isBreak, delimiters] using h

lemma joins_of_isBreak_left {c : Char} (h : isBreak c = true) (d : Char) : joins c d = false := by
  rcases mem_of_isBreak h with rfl | rfl | rfl | rfl | rfl | rfl | rfl | rfl | rfl <;>
    simp [joins, isWordChar]

lemma joins_of_isBreak_right {d : Char} (h : isBreak d = true) (c : Char) : joins c d = false := by
  rcases mem_of_isBreak h with rfl | rfl | rfl | rfl | rfl | rfl | rfl | rfl | rfl <;>
    simp [joins, isWordChar]

namespace Spells

variable {a b : List Char} {ts us : List Token} {c : Char}

lemma nil : Spells [] [] := ⟨by simp, fun _ _ => rfl⟩

/-- Texts one after the other spell their tokens one after the other, unless their characters join. -/
theorem append (ha : Spells a ts) (hb : Spells b us)
    (h : ∀ c ∈ a.getLast?, ∀ d ∈ b.head?, joins c d = false) : Spells (a ++ b) (ts ++ us) := by
  constructor
  · rw [List.count_append]
    exact ha.even_count.add hb.even_count
  · intro label offset
    rw [scan_append label offset ⟨ha.even_count, h⟩, List.map_append, ha.tokens_eq, hb.tokens_eq]

/-- A text in front of a break, or of nothing. -/
lemma append_of_head (ha : Spells a ts) (hb : Spells b us) (h : ∀ d ∈ b.head?, isBreak d = true) :
    Spells (a ++ b) (ts ++ us) :=
  ha.append hb fun c _ d hd => joins_of_isBreak_right (h d hd) c

/-- A text in front of a break. -/
lemma append_break (ha : Spells a ts) (hb : Spells (c :: b) us) (hc : isBreak c = true := by decide) :
    Spells (a ++ c :: b) (ts ++ us) := by
  refine ha.append_of_head hb fun d hd => ?_
  obtain rfl : c = d := by simpa using hd
  exact hc

/-- A text behind a break. -/
lemma cons_break (ha : Spells [c] ts) (hb : Spells b us) (hc : isBreak c = true := by decide) :
    Spells (c :: b) (ts ++ us) := by
  refine ha.append hb fun c' hc' d _ => ?_
  obtain rfl : c = c' := by simpa using hc'
  exact joins_of_isBreak_left hc d

lemma space_cons (h : Spells b us) : Spells (' ' :: b) us := by
  have hspace : Spells [' '] [] := ⟨by decide, fun _ _ => rfl⟩
  exact hspace.cons_break h

end Spells

/-! ## Texts of one token -/

/-- A text that is a single token spells it. -/
theorem spells_of_munch {c : Char} {text : List Char} {m : Munch} (hc : ¬isSpace c = true)
    (h : munch c text = m) (hcovered : m.covered = c :: text) (hclosed : m.closed = true) :
    Spells (c :: text) [.bare m.kind (.ofList m.text)] := by
  have hscan : ∀ label offset, scan label offset (c :: text) = [m.place label offset] := by
    intro label offset
    rw [scan_cons hc, h, hcovered, List.drop_length, scan_nil]
  constructor
  · rw [← forall_closed_scan_iff "" 0, hscan]
    simpa [Munch.place] using hclosed
  · intro label offset
    rw [hscan]
    rfl

/-- The token of a single character, at no place. -/
def Token.mark (c : Char) : Token := .bare (Munch.markKind c) (.ofList [c])

/-- A delimiter or an equals sign on its own spells itself. -/
lemma spells_mark {c : Char} (h : c ∈ '=' :: delimiters := by decide) : Spells [c] [.mark c] := by
  have hmunch : ¬isSpace c = true ∧ munch c [] = .plain (Munch.markKind c) [c] := by
    simp only [delimiters, List.mem_cons, List.not_mem_nil, or_false] at h
    rcases h with rfl | rfl | rfl | rfl | rfl | rfl | rfl | rfl | rfl <;> decide
  exact spells_of_munch hmunch.1 hmunch.2 rfl rfl

/-- So does a delimiter in front of any text. -/
lemma Spells.mark_cons {c : Char} {b : List Char} {us : List Token} (h : Spells b us)
    (hc : c ∈ delimiters := by decide) : Spells (c :: b) (.mark c :: us) :=
  (spells_mark (List.mem_cons_of_mem _ hc)).cons_break h (by simp [isBreak, hc])

lemma isSpace_of_isWordChar {c : Char} (h : isWordChar c = true) : ¬isSpace c = true := by
  intro hspace
  simp only [isSpace, Bool.or_eq_true, beq_iff_eq] at hspace
  rcases hspace with ((rfl | rfl) | rfl) | rfl <;> exact absurd h (by decide)

/-- Letters and underscores spell a word. -/
lemma spells_word {name : String} (hne : name ≠ "") (h : ∀ c ∈ name.toList, isWordChar c = true) :
    Spells name.toList [.bare (.ofWord name) name] := by
  cases hname : name.toList with
  | nil => exact absurd (String.toList_eq_nil_iff.1 hname) hne
  | cons c text =>
    rw [hname] at h
    have hc := h c List.mem_cons_self
    have hquote : c ≠ '"' := by
      rintro rfl
      exact absurd hc (by decide)
    have htext : String.ofList (c :: text) = name := by rw [← hname, String.ofList_toList]
    have hmunch : munch c text = .plain (.ofWord name) (c :: text) := by
      rw [munch, if_neg hquote, if_pos hc, Munch.word, List.takeWhile_eq_self_iff.2 h, htext]
    rw [← htext] at hmunch ⊢
    exact spells_of_munch (isSpace_of_isWordChar hc) hmunch rfl rfl

lemma not_isWordChar_of_isDigit {c : Char} (h : c.isDigit = true) : ¬isWordChar c = true := by
  simp only [Char.isDigit, Bool.and_eq_true, decide_eq_true_eq, ge_iff_le] at h
  have hhigh := h.2
  rw [UInt32.le_iff_toNat_le] at hhigh
  -- letters and the underscore are all above the digits
  have habove : ∀ low : UInt32, low ≤ c.val → 57 < low.toNat → False := by
    intro low hlow hlt
    rw [UInt32.le_iff_toNat_le] at hlow
    exact absurd (hlt.trans_le (hlow.trans hhigh)) (by decide)
  intro hword
  rw [isWordChar, Bool.or_eq_true, beq_iff_eq] at hword
  rcases hword with hletter | rfl
  · rcases Bool.or_eq_true_iff.1 hletter with hcase | hcase
    · exact habove 65 (of_decide_eq_true hcase).1 (by decide)
    · exact habove 97 (of_decide_eq_true (Bool.and_eq_true_iff.1 hcase).1) (by decide)
  · exact absurd hhigh (by decide)

/-- Digits spell an integer. -/
lemma spells_digits {digits : String} (hne : digits ≠ "")
    (h : ∀ c ∈ digits.toList, c.isDigit = true) :
    Spells digits.toList [.bare .integer digits] := by
  cases hdigits : digits.toList with
  | nil => exact absurd (String.toList_eq_nil_iff.1 hdigits) hne
  | cons c text =>
    rw [hdigits] at h
    have hc := h c List.mem_cons_self
    have hquote : c ≠ '"' := by
      rintro rfl
      exact absurd hc (by decide)
    have hword : ¬isWordChar c = true := not_isWordChar_of_isDigit hc
    have hspace : ¬isSpace c = true := by
      intro hspace
      simp only [isSpace, Bool.or_eq_true, beq_iff_eq] at hspace
      rcases hspace with ((rfl | rfl) | rfl) | rfl <;> exact absurd hc (by decide)
    have htext : String.ofList (c :: text) = digits := by rw [← hdigits, String.ofList_toList]
    have hmunch : munch c text = .plain .integer (c :: text) := by
      rw [munch, if_neg hquote, if_neg hword, if_pos hc, Munch.integer, List.takeWhile_eq_self_iff.2 h]
    rw [← htext]
    exact spells_of_munch hspace hmunch rfl rfl

/-- Quotes around a text without quotes spell a string. -/
lemma spells_quoted {value : String} (h : '"' ∉ value.toList) :
    Spells ('"' :: (value.toList ++ ['"'])) [.bare .string value] := by
  have hinner : ∀ c ∈ value.toList, (c != '"') = true := by
    intro c hc
    rw [bne_iff_ne]
    rintro rfl
    exact h hc
  have htake : (value.toList ++ ['"']).takeWhile (· != '"') = value.toList := by
    rw [List.takeWhile_append_of_pos hinner]
    simp
  have hdrop : (value.toList ++ ['"']).dropWhile (· != '"') = ['"'] := by
    rw [List.dropWhile_append_of_pos hinner]
    simp
  have hmunch : munch '"' (value.toList ++ ['"']) =
      ⟨.string, value.toList, '"' :: (value.toList ++ ['"']), true⟩ := by
    rw [munch_quote, Munch.string]
    simp only [htake, hdrop]
    rfl
  have hspells := spells_of_munch (by decide) hmunch rfl rfl
  simpa using hspells

end ScriptSyntax
