import ScriptSyntax.Proofs.Scanner.Scan
import ScriptSyntax.Proofs.Tree.Relocate

/-!
# Scanning texts one after the other

Tokens are as long as they can be, so the tokens of `a ++ b` are those of `a` and then those of `b`
unless a token reaches over the place where the two meet.  A string does so if `a` leaves a quote
open, and other tokens do if the characters on the two sides `joins`.

## Main statements

* `scan_append`: at a `Seam` the tokens of two texts follow one another.
* `forall_closed_scan_iff`: every token of a text is complete if and only if its quotes are even in
  number.
* `kind_ne_endOfInput_of_mem_scan`: no token of a text is the end marker.
-/

namespace ScriptSyntax

/-- Whether a token that ends with `c` could go on with `d`, strings left aside. -/
def joins (c d : Char) : Bool :=
  isWordChar c && isWordChar d || c.isDigit && d.isDigit || (c == '=' || c == '!') && d == '='

/-- No token reaches from `a` into `b`. -/
structure Seam (a b : List Char) : Prop where
  even_count : Even (a.count '"')
  joins_eq_false : ∀ c ∈ a.getLast?, ∀ d ∈ b.head?, joins c d = false

/-- What is left of `a` behind complete strings meets `b` as `a` does. -/
lemma Seam.of_append {a₁ a₂ b : List Char} (h : Seam (a₁ ++ a₂) b) (ha : Even (a₁.count '"')) :
    Seam a₂ b := by
  constructor
  · have := h.even_count
    rw [List.count_append, Nat.even_add] at this
    exact this.1 ha
  · intro c hc
    cases a₂ with
    | nil => simp at hc
    | cons x a₂ => exact h.joins_eq_false c (by simpa using hc)

/-! ## Single tokens -/

/-- A run that ends before the last character of `l`, or at it and before `m`, ends there in front of
`m` as well. -/
lemma takeWhile_append_of_getLast {p : Char → Bool} {l m : List Char} (hl : l ≠ [])
    (h : ∀ c ∈ l.getLast?, ∀ d ∈ m.head?, p c = true → p d = false) :
    (l ++ m).takeWhile p = l.takeWhile p := by
  rw [List.takeWhile_append]
  split
  · rename_i hlen
    have hall : l.takeWhile p = l := (List.takeWhile_prefix p).eq_of_length hlen
    have hlast : p (l.getLast hl) = true :=
      List.mem_takeWhile_imp (by rw [hall]; exact List.getLast_mem hl)
    have hm : m.takeWhile p = [] := by
      cases m with
      | nil => rfl
      | cons d m =>
        have := h (l.getLast hl) (List.getLast_mem_getLast? hl) d rfl hlast
        simp [this]
    rw [hm, hall, List.append_nil]
  · rfl

variable {c : Char} {text b : List Char}

lemma munch_quote : munch '"' text = .string text := rfl

lemma munch_of_ne (h : c ≠ '"') :
    munch c text =
      if isWordChar c then .word (c :: text)
      else if c.isDigit then .integer (c :: text)
      else .mark c text := by
  rw [munch, if_neg h]

/-- What stands behind a closing quote is of no matter to the string. -/
lemma Munch.string_append (h : '"' ∈ text) : Munch.string (text ++ b) = Munch.string text := by
  have htake : (text ++ b).takeWhile (· != '"') = text.takeWhile (· != '"') := by
    rw [List.takeWhile_append, if_neg]
    intro hlen
    have hall := (List.takeWhile_prefix (· != '"')).eq_of_length hlen
    have := List.mem_takeWhile_imp (p := (· != '"')) (by rw [hall]; exact h)
    simp at this
  have hne : text.dropWhile (· != '"') ≠ [] := by
    rw [Ne, List.dropWhile_eq_nil_iff]
    intro hall
    simpa using hall _ h
  have hdrop : ((text ++ b).dropWhile (· != '"')).take 1 = (text.dropWhile (· != '"')).take 1 := by
    rw [List.dropWhile_append, if_neg (by simpa using hne)]
    cases hd : text.dropWhile (· != '"') with
    | nil => exact absurd hd hne
    | cons d rest => rfl
  rw [Munch.string, Munch.string, htake, hdrop]

/-- What stands behind a seam is of no matter to the token before it. -/
lemma munch_append (h : Seam (c :: text) b) : munch c (text ++ b) = munch c text := by
  by_cases hc : c = '"'
  · subst hc
    refine Munch.string_append ?_
    by_contra hno
    have heven := h.even_count
    rw [List.count_cons_self, List.count_eq_zero_of_not_mem hno] at heven
    exact absurd heven (by decide)
  · have hlast := h.joins_eq_false
    rw [munch_of_ne hc, munch_of_ne hc]
    split
    · rw [Munch.word, Munch.word, ← List.cons_append,
        takeWhile_append_of_getLast (by simp) ?_]
      intro x hx d hd hp
      have := hlast x hx d hd
      simp only [joins, hp, Bool.true_and, Bool.or_eq_false_iff] at this
      exact this.1.1
    · split
      · rw [Munch.integer, Munch.integer, ← List.cons_append,
          takeWhile_append_of_getLast (by simp) ?_]
        intro x hx d hd hp
        have := hlast x hx d hd
        simp only [joins, hp, Bool.true_and, Bool.or_eq_false_iff] at this
        exact this.1.2
      · cases text with
        | cons x text => rfl
        | nil =>
          cases b with
          | nil => rfl
          | cons d b =>
            have hj := hlast c rfl d rfl
            simp only [joins, Bool.or_eq_false_iff, Bool.and_eq_false_iff, beq_eq_false_iff_ne] at hj
            unfold Munch.mark
            split <;> simp_all

/-! ## Quotes -/

/-- A token that starts with no quote has none, and is complete. -/
lemma count_covered_of_ne (hc : c ≠ '"') :
    (munch c text).covered.count '"' = 0 ∧ (munch c text).closed = true := by
  rw [munch_of_ne hc]
  have hrun : ∀ p : Char → Bool, p '"' = false → ((c :: text).takeWhile p).count '"' = 0 := by
    intro p hp
    refine List.count_eq_zero_of_not_mem fun hmem => ?_
    have := List.mem_takeWhile_imp hmem
    rw [hp] at this
    exact absurd this (by decide)
  split
  · exact ⟨hrun isWordChar (by decide), rfl⟩
  · split
    · exact ⟨hrun Char.isDigit (by decide), rfl⟩
    · unfold Munch.mark
      split
      · exact ⟨by decide, rfl⟩
      · exact ⟨by decide, rfl⟩
      · exact ⟨by simpa [Munch.plain, List.count_cons] using hc, rfl⟩

/-- A string is complete if there is a quote behind the one it opens with. -/
lemma Munch.closed_string_iff : (Munch.string text).closed = true ↔ '"' ∈ text := by
  have hclosed : (Munch.string text).closed = !(text.dropWhile (· != '"')).isEmpty := by
    simp only [Munch.string]
    cases text.dropWhile (· != '"') <;> rfl
  rw [hclosed, Bool.not_eq_true', ← Bool.not_eq_true, List.isEmpty_iff, List.dropWhile_eq_nil_iff]
  constructor
  · intro h
    by_contra hno
    exact h fun x hx => by simpa using ne_of_mem_of_not_mem hx hno
  · intro h hall
    simpa using hall _ h

/-- A complete string has two quotes. -/
lemma Munch.count_covered_string (h : '"' ∈ text) : (Munch.string text).covered.count '"' = 2 := by
  have hrun : (text.takeWhile (· != '"')).count '"' = 0 := by
    refine List.count_eq_zero_of_not_mem fun hmem => ?_
    simpa using List.mem_takeWhile_imp hmem
  cases hd : text.dropWhile (· != '"') with
  | nil =>
    rw [List.dropWhile_eq_nil_iff] at hd
    exact absurd (hd _ h) (by simp)
  | cons d rest =>
    have hq := List.head_dropWhile_not (· != '"') (l := text) (by simp [hd])
    simp only [hd, List.head_cons, bne_eq_false_iff_eq] at hq
    subst hq
    simp [Munch.string, hd, List.count_append, hrun]

/-- A complete token leaves the parity of the quotes as it is. -/
lemma even_count_covered (h : (munch c text).closed = true) :
    Even ((munch c text).covered.count '"') := by
  by_cases hc : c = '"'
  · subst hc
    rw [munch_quote] at h ⊢
    rw [Munch.count_covered_string (Munch.closed_string_iff.1 h)]
    decide
  · rw [(count_covered_of_ne hc).1]
    decide

lemma covered_append_drop (c : Char) (text : List Char) :
    (munch c text).covered ++ (c :: text).drop (munch c text).covered.length = c :: text := by
  obtain ⟨rest, h⟩ := munch_covered_isPrefix c text
  rw [← h, List.drop_left]

/-- The first token is complete if the quotes are even in number, and then those behind it are. -/
lemma even_count_cons_iff (c : Char) (text : List Char) :
    Even ((c :: text).count '"') ↔
      (munch c text).closed = true ∧
        Even (((c :: text).drop (munch c text).covered.length).count '"') := by
  by_cases h : (munch c text).closed = true
  · have hcov := even_count_covered h
    conv_lhs => rw [← covered_append_drop c text, List.count_append]
    rw [Nat.even_add]
    simp [h, hcov]
  · have hc : c = '"' := by
      by_contra hc
      exact h (count_covered_of_ne hc).2
    subst hc
    have hno : '"' ∉ text := fun hmem => h (Munch.closed_string_iff.2 hmem)
    rw [List.count_cons_self, List.count_eq_zero_of_not_mem hno]
    simp [h]

/-- Every token is complete if and only if the quotes are even in number. -/
theorem forall_closed_scan_iff (label : String) (offset : Nat) (text : List Char) :
    (∀ l ∈ scan label offset text, l.closed = true) ↔ Even (text.count '"') := by
  induction text using scan_induction generalizing offset with
  | nil => simp
  | space c text hc ih =>
    have hne : c ≠ '"' := by
      rintro rfl
      exact absurd hc (by decide)
    rw [scan_space hc, ih, List.count_cons_of_ne hne]
  | token c text hc ih =>
    rw [scan_cons hc, List.forall_mem_cons, ih, even_count_cons_iff]
    rfl

/-! ## Texts one after the other -/

/-- At a seam the tokens of two texts follow one another. -/
theorem scan_append (label : String) (offset : Nat) {a b : List Char} (h : Seam a b) :
    scan label offset (a ++ b) =
      scan label offset a ++ scan label (offset + a.length) b := by
  induction a using scan_induction generalizing offset with
  | nil => rfl
  | space c text hc ih =>
    have hne : c ≠ '"' := by
      rintro rfl
      exact absurd hc (by decide)
    have hseam : Seam text b := by
      refine Seam.of_append (show Seam ([c] ++ text) b from h) ?_
      rw [List.count_singleton, if_neg (by simpa using hne)]
      exact Even.zero
    rw [List.cons_append, scan_space hc, scan_space hc, ih _ hseam]
    congr 2
    simp only [List.length_cons]
    omega
  | token c text hc ih =>
    have hclosed := ((even_count_cons_iff c text).1 h.even_count).1
    have hlen := (munch_covered_isPrefix c text).length_le
    have hseam : Seam ((c :: text).drop (munch c text).covered.length) b := by
      refine Seam.of_append ?_ (even_count_covered hclosed)
      rwa [covered_append_drop]
    rw [List.cons_append, scan_cons hc, scan_cons hc, munch_append h, ← List.cons_append,
      List.drop_append_of_le_length hlen, ih _ hseam, List.cons_append]
    congr 3
    rw [List.length_drop]
    omega

/-- A text in front of another moves its tokens to the right. -/
theorem scan_shift (label : String) (offset count : Nat) (text : List Char) :
    scan label (offset + count) text =
      (scan label offset text).map (Lexeme.relocate (Position.shift count)) := by
  induction text using scan_induction generalizing offset with
  | nil => rfl
  | space c text hc ih => rw [scan_space hc, scan_space hc, ← ih, Nat.add_right_comm]
  | token c text hc ih =>
    rw [scan_cons hc, scan_cons hc, List.map_cons, ← ih, Nat.add_right_comm]
    congr 1
    simp only [Munch.place, Lexeme.relocate, Token.relocate, Span.relocate, Position.shift,
      Nat.add_right_comm offset count, UInt32.ofNat_add]

/-! ## Kinds -/

lemma ofWord_mem (word : String) :
    .ofWord word ∈ TokenKind.identifier :: TokenKind.reserved.map Prod.snd := by
  rw [TokenKind.ofWord]
  cases hlookup : TokenKind.reserved.lookup word with
  | none => exact List.mem_cons_self
  | some kind =>
    obtain ⟨before, behind, hreserved, -⟩ := List.lookup_eq_some_iff.1 hlookup
    exact List.mem_cons_of_mem _ (List.mem_map.2 ⟨(word, kind), by simp [hreserved], rfl⟩)

lemma ofWord_ne_endOfInput (word : String) : TokenKind.ofWord word ≠ .endOfInput :=
  ne_of_mem_of_not_mem (ofWord_mem word) (by decide)

lemma munch_kind_ne_endOfInput (c : Char) (text : List Char) :
    (munch c text).kind ≠ .endOfInput := by
  by_cases hc : c = '"'
  · subst hc
    rw [munch_quote]
    simp [Munch.string]
  · rw [munch_of_ne hc]
    split
    · exact ofWord_ne_endOfInput _
    · split
      · simp [Munch.integer, Munch.plain]
      · unfold Munch.mark
        split
        · simp [Munch.plain]
        · simp [Munch.plain]
        · simp only [Munch.plain]
          unfold Munch.markKind
          split <;> simp

/-- No token of a text is the end marker. -/
theorem kind_ne_endOfInput_of_mem_scan {label : String} {offset : Nat} {text : List Char}
    {l : Lexeme} (h : l ∈ scan label offset text) : l.token.kind ≠ .endOfInput := by
  induction text using scan_induction generalizing offset with
  | nil => simp at h
  | space c text hc ih => exact ih (by rwa [scan_space hc] at h)
  | token c text hc ih =>
    rw [scan_cons hc, List.mem_cons] at h
    rcases h with rfl | h
    · exact munch_kind_ne_endOfInput c text
    · exact ih h

/-! ## Places -/

/-- Every token of a text starts at one of its characters. -/
theorem position_of_mem_scan {label : String} {offset : Nat} {text : List Char} {l : Lexeme}
    (h : l ∈ scan label offset text) :
    ∃ k, k < text.length ∧ l.token.position = ⟨.ofNat (offset + k), label⟩ := by
  induction text using scan_induction generalizing offset with
  | nil => simp at h
  | space c text hc ih =>
    rw [scan_space hc] at h
    obtain ⟨k, hk, hp⟩ := ih h
    refine ⟨k + 1, Nat.succ_lt_succ hk, ?_⟩
    rw [hp, Nat.add_assoc, Nat.add_comm 1]
  | token c text hc ih =>
    rw [scan_cons hc, List.mem_cons] at h
    rcases h with rfl | h
    · exact ⟨0, by simp, rfl⟩
    · obtain ⟨k, hk, hp⟩ := ih h
      refine ⟨(munch c text).covered.length + k, ?_, by rw [hp, Nat.add_assoc]⟩
      rw [List.length_drop] at hk
      omega

end ScriptSyntax
