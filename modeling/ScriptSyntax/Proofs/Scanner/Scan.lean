import Mathlib.Data.List.TakeWhile
import Mathlib.Tactic
import ScriptSyntax.Scanner.Basic

/-!
# Scanning without rounds

A scanner counts rounds so that it stops.  `scan` is what it yields, as a function of the text still
to come and of the place where that text stands, and its two equations leave the rounds out: a space
is passed over, and any other character starts the token that `munch` reads.

## Main statements

* `Scanner.lexemes_fst`, `Scanner.lexemes_snd`: the tokens to come are those of `scan`, and behind
  them the scanner stands at the end of the source.
* `scan_space`, `scan_cons`: the equations of `scan`.
* `scan_induction`: texts by their tokens.
-/

namespace ScriptSyntax

/-! ## The tokens of a text -/

/-- The tokens of `text` where it stands behind `offset` characters in the source `label`. -/
def scan (label : String) (offset : Nat) (text : List Char) : List Lexeme :=
  (Scanner.lexemes ⟨label, offset, text, []⟩).1

namespace Scanner

/-- The token before the scanner, by what the text shows. -/
lemma next?_eq (s : Scanner) :
    s.next? =
      match s.rest.dropWhile isSpace with
      | [] => none
      | c :: rest => some (s.skipSpaces.take (munch c rest)) := by
  change (match s.skipSpaces.rest with
    | [] => none
    | c :: rest => some (s.skipSpaces.take (munch c rest))) = _
  rw [rest_skipSpaces]

/-- Rounds enough for the text to come all give the same tokens. -/
lemma drain_eq_of_le (rounds rounds' : Nat) (s : Scanner) (h : s.rest.length ≤ rounds)
    (h' : s.rest.length ≤ rounds') : s.drain rounds = s.drain rounds' := by
  induction rounds generalizing rounds' s with
  | zero =>
    have hnil : s.rest = [] := List.length_eq_zero_iff.1 (Nat.le_zero.1 h)
    have hnone : s.next? = none := by rw [next?_eq, hnil]; rfl
    cases rounds' <;> simp [drain, hnone]
  | succ rounds ih =>
    cases rounds' with
    | zero =>
      have hnil : s.rest = [] := List.length_eq_zero_iff.1 (Nat.le_zero.1 h')
      have hnone : s.next? = none := by rw [next?_eq, hnil]; rfl
      simp [drain, hnone]
    | succ rounds' =>
      cases hnext : s.next? with
      | none => simp [drain, hnext]
      | some found =>
        obtain ⟨lexeme, stop⟩ := found
        have hlt := rest_length_of_next? hnext
        simp only [drain, hnext, ih rounds' stop (by omega) (by omega)]

/-- The tokens to come are the next one and those behind it. -/
lemma lexemes_eq (s : Scanner) :
    s.lexemes =
      match s.next? with
      | none => ([], s.skipSpaces)
      | some (lexeme, stop) => (lexeme :: stop.lexemes.1, stop.lexemes.2) := by
  have h : s.lexemes = s.drain (s.rest.length + 1) :=
    drain_eq_of_le _ _ s le_rfl (Nat.le_succ _)
  rw [h, drain]
  cases hnext : s.next? with
  | none => rfl
  | some found =>
    obtain ⟨lexeme, stop⟩ := found
    have hlt := rest_length_of_next? hnext
    simp only [lexemes, drain_eq_of_le s.rest.length stop.rest.length stop (by omega) le_rfl]

lemma length_takeWhile_isSpace (text : List Char) :
    (text.takeWhile isSpace).length + (text.dropWhile isSpace).length = text.length := by
  rw [← List.length_append, List.takeWhile_append_dropWhile]

/-- What waits with a scanner has no part in the tokens to come, and behind the last of them the
scanner stands at the end of the source. -/
lemma lexemes_spec (s : Scanner) :
    s.lexemes.1 = scan s.label s.offset s.rest ∧
      s.lexemes.2.offset = s.offset + s.rest.length ∧ s.lexemes.2.label = s.label := by
  induction hlen : s.rest.length using Nat.strong_induction_on generalizing s with
  | h n ih =>
    subst hlen
    have hsplit := length_takeWhile_isSpace s.rest
    rw [scan, lexemes_eq s, lexemes_eq ⟨s.label, s.offset, s.rest, []⟩, next?_eq s,
      next?_eq ⟨s.label, s.offset, s.rest, []⟩]
    cases hrest : s.rest.dropWhile isSpace with
    | nil =>
      rw [hrest] at hsplit
      refine ⟨rfl, ?_, rfl⟩
      simp only [skipSpaces, pass]
      simpa using hsplit
    | cons c rest =>
      have hstop : (s.skipSpaces.take (munch c rest)).2.rest.length < s.rest.length := by
        have hnext : s.next? = some (s.skipSpaces.take (munch c rest)) := by rw [next?_eq, hrest]
        exact rest_length_of_next? hnext
      have hcov := (munch_covered_isPrefix c rest).length_le
      have hskip : s.skipSpaces.rest = c :: rest := by rw [rest_skipSpaces, hrest]
      obtain ⟨h₁, h₂, h₃⟩ := ih _ hstop (s.skipSpaces.take (munch c rest)).2 rfl
      obtain ⟨h₄, -, -⟩ := ih _ (by simpa only [take, rest_pass, rest_skipSpaces] using hstop)
        ((Scanner.mk s.label s.offset s.rest []).skipSpaces.take (munch c rest)).2 rfl
      refine ⟨?_, ?_, h₃⟩
      · simp only [h₁, h₄]
        rfl
      · rw [h₂]
        simp only [take, pass, hskip, List.length_drop]
        simp only [skipSpaces, pass]
        rw [hrest] at hsplit
        omega

/-- The tokens to come are those of the text to come. -/
theorem lexemes_fst (s : Scanner) : s.lexemes.1 = scan s.label s.offset s.rest :=
  (lexemes_spec s).1

/-- Behind the last token the scanner stands at the end of the source. -/
theorem lexemes_snd (s : Scanner) :
    s.lexemes.2.position = ⟨.ofNat (s.offset + s.rest.length), s.label⟩ := by
  rw [position, (lexemes_spec s).2.1, (lexemes_spec s).2.2]

end Scanner

/-! ## Equations -/

/-- The token of shape `m` behind `offset` characters of the source `label`. -/
def Munch.place (m : Munch) (label : String) (offset : Nat) : Lexeme :=
  ⟨⟨m.kind, .ofList m.text, ⟨⟨.ofNat offset, label⟩, ⟨.ofNat (offset + m.covered.length), label⟩⟩⟩,
    m.closed⟩

variable {label : String} {offset : Nat} {c : Char} {text : List Char}

@[simp] lemma scan_nil : scan label offset [] = [] := rfl

/-- Spaces are passed over. -/
lemma scan_space (h : isSpace c = true) :
    scan label offset (c :: text) = scan label (offset + 1) text := by
  rw [scan, scan, Scanner.lexemes_eq, Scanner.lexemes_eq ⟨label, offset + 1, text, []⟩,
    Scanner.next?_eq, Scanner.next?_eq]
  simp only [List.dropWhile_cons, h, if_true]
  have hskip : Scanner.skipSpaces ⟨label, offset, c :: text, []⟩ =
      Scanner.skipSpaces ⟨label, offset + 1, text, []⟩ := by
    simp [Scanner.skipSpaces, Scanner.pass, h]
    omega
  cases text.dropWhile isSpace with
  | nil => rfl
  | cons d rest => simp only [hskip]

/-- So are any number of them. -/
lemma scan_spaces_append {spaces : List Char} (h : ∀ c ∈ spaces, isSpace c = true) :
    scan label offset (spaces ++ text) = scan label (offset + spaces.length) text := by
  induction spaces generalizing offset with
  | nil => rfl
  | cons c spaces ih =>
    rw [List.forall_mem_cons] at h
    rw [List.cons_append, scan_space h.1, ih h.2, List.length_cons, Nat.add_right_comm,
      Nat.add_assoc]

/-- A character that is no space starts the token that `munch` reads. -/
lemma scan_cons (h : ¬isSpace c = true) :
    scan label offset (c :: text) =
      (munch c text).place label offset ::
        scan label (offset + (munch c text).covered.length)
          ((c :: text).drop (munch c text).covered.length) := by
  have hskip : Scanner.skipSpaces ⟨label, offset, c :: text, []⟩ = ⟨label, offset, c :: text, []⟩ := by
    simp [Scanner.skipSpaces, Scanner.pass, h]
  rw [scan, Scanner.lexemes_eq, Scanner.next?_eq]
  simp only [List.dropWhile_cons, if_neg h, hskip, Scanner.lexemes_fst]
  rfl

/-- To show something of every text, show it of the empty text, past a space and past a token. -/
theorem scan_induction {motive : List Char → Prop} (nil : motive [])
    (space : ∀ c text, isSpace c = true → motive text → motive (c :: text))
    (token : ∀ c text, ¬isSpace c = true →
      motive ((c :: text).drop (munch c text).covered.length) → motive (c :: text))
    (text : List Char) : motive text := by
  induction hlen : text.length using Nat.strong_induction_on generalizing text with
  | h n ih =>
    cases text with
    | nil => exact nil
    | cons c text =>
      have hpos := List.length_pos_iff.2 (munch_covered_ne_nil c text)
      subst hlen
      by_cases hc : isSpace c = true
      · exact space c text hc (ih _ (by simp) text rfl)
      · refine token c text hc (ih _ ?_ _ rfl)
        simp only [List.length_drop, List.length_cons]
        omega

/-- A text has no more tokens than characters. -/
lemma length_scan_le (label : String) (offset : Nat) (text : List Char) :
    (scan label offset text).length ≤ text.length := by
  induction text using scan_induction generalizing offset with
  | nil => simp
  | space c text hc ih =>
    rw [scan_space hc]
    exact (ih _).trans (Nat.le_succ _)
  | token c text hc ih =>
    have hpos := List.length_pos_iff.2 (munch_covered_ne_nil c text)
    have hrest := ih (offset + (munch c text).covered.length)
    rw [scan_cons hc]
    simp only [List.length_cons, List.length_drop] at hrest ⊢
    omega

end ScriptSyntax
