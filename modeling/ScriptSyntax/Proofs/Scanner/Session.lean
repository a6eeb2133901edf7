import ScriptSyntax.Proofs.Operations
import ScriptSyntax.Proofs.Scanner.Tokenization

/-!
# Driving a scanner by hand

A scanner can be asked for tokens, moved on by any number of characters, relieved of its diagnostics, and
kept as a copy to go back to.  So its cursor can come to stand anywhere, in the middle of a string or of a
number as well.  Wherever that is, it is in the source, and the next token is read from there as from
anywhere else: it is the longest token behind the spaces, the cursor goes to its end, and a string without
a closing quote is all that is ever found wrong.  Every token takes a character, so the end of the source
is reached in time.

## Main statements

* `Session.standsIn_run`: after any requests the scanner and all its copies stand in the source.
* `Scanner.StandsIn.yields`: what the next token is and what becomes of the scanner.
* `Scanner.StandsIn.ends`: the end of the source is reached, and not left again.
* `Session.scanner_run`: all of it, after any requests.
-/

namespace ScriptSyntax

/-! ## Sessions -/

/-- What can be asked of a scanner. -/
inductive Request where
  | next
  /-- To go on by `count` characters. -/
  | advance (count : ℕ)
  | takePending
  /-- To keep a copy of the scanner. -/
  | save
  /-- To go back to the copy that was kept `index` copies before the last one. -/
  | restore (index : ℕ)

/-- A scanner in use, and the copies that were kept of it, the last one first. -/
structure Session where
  scanner : Scanner
  copies : List Scanner

namespace Session

/-- The session at the start of `source`. -/
def ofSource (source : String) (label? : Option String) : Session := ⟨.ofSource source label?, []⟩

/-- The session after a request.  Without the copy that was asked for the scanner stays as it is. -/
def apply (s : Session) : Request → Session
  | .next => { s with scanner := s.scanner.next.2 }
  | .advance count => { s with scanner := s.scanner.advance count }
  | .takePending => { s with scanner := s.scanner.takePending.2 }
  | .save => { s with copies := s.scanner :: s.copies }
  | .restore index => { s with scanner := s.copies[index]?.getD s.scanner }

/-- The session after some requests, one after the other. -/
def run (requests : List Request) (s : Session) : Session := requests.foldl apply s

end Session

variable {source label : String} {s : Scanner}

/-! ## The place of the cursor -/

namespace Scanner

/-- The scanner stands in the source, and the rest of the source is before it. -/
structure StandsIn (source label : String) (s : Scanner) : Prop where
  offset_le : s.offset ≤ source.length
  rest_eq : s.rest = source.toList.drop s.offset
  label_eq : s.label = label

namespace StandsIn

lemma length_rest (h : s.StandsIn source label) : s.offset + s.rest.length = source.length := by
  rw [h.rest_eq, List.length_drop, String.length_toList]
  exact Nat.add_sub_cancel' h.offset_le

lemma pass (h : s.StandsIn source label) {count : ℕ} (hcount : count ≤ s.rest.length) :
    (s.pass count).StandsIn source label where
  offset_le := by
    have := h.length_rest
    show s.offset + count ≤ source.length
    omega
  rest_eq := by
    rw [rest_pass, h.rest_eq, List.drop_drop]
    rfl
  label_eq := h.label_eq

lemma skipSpaces (h : s.StandsIn source label) : s.skipSpaces.StandsIn source label :=
  h.pass (List.takeWhile_prefix isSpace).length_le

lemma advance (h : s.StandsIn source label) (count : ℕ) : (s.advance count).StandsIn source label :=
  h.pass (List.take_prefix count s.rest).length_le

lemma takePending (h : s.StandsIn source label) : s.takePending.2.StandsIn source label :=
  ⟨h.offset_le, h.rest_eq, h.label_eq⟩

lemma take (h : s.StandsIn source label) {m : Munch} (hm : m.covered <+: s.rest) :
    (s.take m).2.StandsIn source label :=
  have hpass := h.pass hm.length_le
  ⟨hpass.offset_le, hpass.rest_eq, hpass.label_eq⟩

end StandsIn

/-- The next token is the end marker or the one behind the spaces. -/
lemma next_cases (s : Scanner) :
    s.skipSpaces.rest = [] ∧ s.next = (.endOfInput s.skipSpaces.position, s.skipSpaces) ∨
      ∃ c rest, s.skipSpaces.rest = c :: rest ∧ isSpace c = false ∧
        s.next = (((munch c rest).place s.label s.skipSpaces.offset).token,
          (s.skipSpaces.take (munch c rest)).2) := by
  cases hrest : s.skipSpaces.rest with
  | nil => exact .inl ⟨rfl, by simp only [next, next?, hrest]⟩
  | cons c rest =>
    refine .inr ⟨c, rest, rfl, ?_, by simp only [next, next?, hrest]; rfl⟩
    have hhead := List.head?_dropWhile_not isSpace s.rest
    rw [← rest_skipSpaces, hrest] at hhead
    simpa using hhead

namespace StandsIn

lemma next (h : s.StandsIn source label) : s.next.2.StandsIn source label := by
  obtain ⟨-, hnext⟩ | ⟨c, rest, hrest, -, hnext⟩ := s.next_cases
  · rw [hnext]
    exact h.skipSpaces
  · rw [hnext]
    exact h.skipSpaces.take (hrest ▸ munch_covered_isPrefix c rest)

lemma pulled (h : s.StandsIn source label) (count : ℕ) :
    (s.pulled count).StandsIn source label := by
  induction count generalizing s with
  | zero => exact h
  | succ count ih => exact ih h.next

end StandsIn

end Scanner

namespace Session

open Scanner

/-- A request keeps the scanner and all copies in the source. -/
lemma standsIn_apply {s : Session} (h : ∀ r ∈ s.scanner :: s.copies, r.StandsIn source label)
    (request : Request) :
    ∀ r ∈ (s.apply request).scanner :: (s.apply request).copies, r.StandsIn source label := by
  rw [List.forall_mem_cons] at h ⊢
  obtain ⟨hscanner, hcopies⟩ := h
  cases request with
  | next => exact ⟨hscanner.next, hcopies⟩
  | advance count => exact ⟨hscanner.advance count, hcopies⟩
  | takePending => exact ⟨hscanner.takePending, hcopies⟩
  | save => exact ⟨hscanner, List.forall_mem_cons.2 ⟨hscanner, hcopies⟩⟩
  | restore index =>
    refine ⟨?_, hcopies⟩
    show (s.copies[index]?.getD s.scanner).StandsIn source label
    cases hcopy : s.copies[index]? with
    | none => exact hscanner
    | some copy => exact hcopies copy (List.mem_of_getElem? hcopy)

/-- After any requests the scanner and all copies stand in the source. -/
theorem standsIn_run (source : String) (label? : Option String) (requests : List Request) :
    ∀ r ∈ (run requests (ofSource source label?)).scanner ::
        (run requests (ofSource source label?)).copies,
      r.StandsIn source (label?.getD defaultLabel) := by
  have hrun : ∀ s : Session,
      (∀ r ∈ s.scanner :: s.copies, r.StandsIn source (label?.getD defaultLabel)) →
        ∀ r ∈ (run requests s).scanner :: (run requests s).copies,
          r.StandsIn source (label?.getD defaultLabel) := by
    induction requests with
    | nil => exact fun s h => h
    | cons request requests ih => exact fun s h => ih _ (standsIn_apply h request)
  refine hrun _ fun r hr => ?_
  obtain rfl := List.mem_singleton.1 hr
  exact ⟨Nat.zero_le _, rfl, rfl⟩

end Session

/-! ## The next token -/

namespace Scanner

/-- What comes of asking the scanner for the next token of the source. -/
structure Yields (source : String) (s : Scanner) : Prop where
  /-- The token starts at the cursor or behind it, with nothing but spaces between. -/
  offset_le_first : s.offset ≤ s.next.1.first
  spaces : ∀ c ∈ (source.toList.drop s.offset).take (s.next.1.first - s.offset), isSpace c = true
  first_le_past : s.next.1.first ≤ s.next.1.past
  past_le : s.next.1.past ≤ source.length
  /-- The cursor goes to the end of the token. -/
  offset_eq_past : s.next.2.offset = s.next.1.past
  /-- The token covers some characters of the source, and its text is among them. -/
  longest : s.next.1.kind ≠ .endOfInput → s.next.1.first < s.next.1.past ∧
    IsLongest (source.toList.drop s.next.1.first) s.next.1.kind s.next.1.text.toList
      (s.next.1.covered source.toList)
  /-- The end marker stands at the end of the source. -/
  offset_of_end : s.next.1.kind = .endOfInput → s.next.2.offset = source.length
  /-- A string without a closing quote is told of once, and nothing else is. -/
  pending_eq : s.next.2.pending = s.pending ++
    if s.next.1.kind = .string ∧ '"' ∉ source.toList.drop (s.next.1.first + 1) then
      [⟨.unterminatedString s.next.1.text, s.next.1.position⟩]
    else []

/-- With so many characters left the end marker comes in time and for ever after; the scanner then
stays at the end of the source and finds nothing wrong. -/
def Ends (source label : String) (s : Scanner) : Prop :=
  ∃ k ≤ s.rest.length, (∀ j < k, (s.yielded j).kind ≠ .endOfInput) ∧
    ∀ j, k ≤ j →
      s.yielded j = .endOfInput ⟨.ofNat source.length, label⟩ ∧
      (s.pulled (j + 1)).offset = source.length ∧
      (s.pulled (j + 1)).pending = (s.pulled k).pending

/-- A token is complete unless it is a string that no quote closes. -/
lemma closed_munch_iff {c : Char} {rest : List Char} (hspace : isSpace c = false) :
    (munch c rest).closed = false ↔ (munch c rest).kind = .string ∧ '"' ∉ rest := by
  have hlongest : IsLongest (c :: rest) _ _ _ := isLongest_munch hspace
  rw [hlongest.kind_eq_string_iff, List.head?_cons, Option.some.injEq]
  by_cases hc : c = '"'
  · subst hc
    rw [munch_quote, ← Bool.not_eq_true, Munch.closed_string_iff]
    simp
  · have hclosed : (munch c rest).closed = true := (count_covered_of_ne hc).2
    simp [hc, hclosed]

namespace StandsIn

/-- The characters that are passed over are spaces. -/
lemma isSpace_of_mem (h : s.StandsIn source label) :
    ∀ c ∈ (source.toList.drop s.offset).take (s.skipSpaces.offset - s.offset), isSpace c = true := by
  have hoffset : s.skipSpaces.offset = s.offset + (s.rest.takeWhile isSpace).length := rfl
  rw [hoffset, Nat.add_sub_cancel_left, ← h.rest_eq,
    ← List.prefix_iff_eq_take.1 (List.takeWhile_prefix isSpace)]
  exact fun c hc => List.mem_takeWhile_imp hc

/-- With nothing but spaces left the scanner yields the end marker. -/
lemma yields_end (hlen : source.length < 2 ^ 32) (h : s.StandsIn source label)
    (hrest : s.skipSpaces.rest = [])
    (hnext : s.next = (.endOfInput s.skipSpaces.position, s.skipSpaces)) : s.Yields source := by
  have hend : s.skipSpaces.offset = source.length := by
    have := h.skipSpaces.length_rest
    rwa [hrest, List.length_nil, Nat.add_zero] at this
  have hle : s.offset ≤ s.skipSpaces.offset := Nat.le_add_right _ _
  have hfirst : s.next.1.first = s.skipSpaces.offset := by
    rw [hnext, hend]
    show s.skipSpaces.offset % 2 ^ 32 = _
    rw [hend, Nat.mod_eq_of_lt hlen]
  have hpast : s.next.1.past = s.next.1.first := by rw [hnext]; rfl
  have hkind : s.next.1.kind = .endOfInput := by rw [hnext]; rfl
  exact {
    offset_le_first := by omega
    spaces := hfirst ▸ h.isSpace_of_mem
    first_le_past := hpast.ge
    past_le := by omega
    offset_eq_past := by rw [hpast, hfirst, hnext]
    longest := fun hne => absurd hkind hne
    offset_of_end := fun _ => by rw [hnext, hend]
    pending_eq := by
      rw [hkind, if_neg (by simp), List.append_nil, hnext]
      rfl }

/-- Otherwise it yields the token that `munch` reads behind the spaces. -/
lemma yields_token (hlen : source.length < 2 ^ 32) (h : s.StandsIn source label) {c : Char}
    {rest : List Char} (hrest : s.skipSpaces.rest = c :: rest) (hspace : isSpace c = false)
    (hnext : s.next = (((munch c rest).place s.label s.skipSpaces.offset).token,
      (s.skipSpaces.take (munch c rest)).2)) : s.Yields source := by
  have hle : s.offset ≤ s.skipSpaces.offset := Nat.le_add_right _ _
  have hprefix := munch_covered_isPrefix c rest
  have hwidth := hprefix.length_le
  have hpos := List.length_pos_iff.2 (munch_covered_ne_nil c rest)
  have htotal := h.skipSpaces.length_rest
  rw [← hrest] at hwidth
  have hfirst : s.next.1.first = s.skipSpaces.offset := by
    rw [hnext]
    exact Munch.first_place (by omega)
  have hpast : s.next.1.past = s.skipSpaces.offset + (munch c rest).covered.length := by
    rw [hnext]
    exact Munch.past_place (by omega)
  have hkind : s.next.1.kind = (munch c rest).kind := by rw [hnext]; rfl
  have hdrop : source.toList.drop s.next.1.first = c :: rest := by
    rw [hfirst, ← h.skipSpaces.rest_eq, hrest]
  have hlongest : IsLongest (source.toList.drop s.next.1.first) s.next.1.kind
      s.next.1.text.toList (s.next.1.covered source.toList) := by
    have hcovered : s.next.1.covered source.toList = (munch c rest).covered := by
      rw [Token.covered, hdrop, hpast, hfirst, Nat.add_sub_cancel_left]
      exact (List.prefix_iff_eq_take.1 hprefix).symm
    have htext : s.next.1.text.toList = (munch c rest).text := by
      rw [hnext]
      exact String.toList_ofList
    rw [hdrop, hcovered, htext, hkind]
    exact isLongest_munch hspace
  exact {
    offset_le_first := by omega
    spaces := hfirst ▸ h.isSpace_of_mem
    first_le_past := by omega
    past_le := by omega
    offset_eq_past := by
      rw [hpast, hnext]
      rfl
    longest := fun _ => ⟨by omega, hlongest⟩
    offset_of_end := fun hend => absurd (hkind.symm.trans hend) (munch_kind_ne_endOfInput c rest)
    pending_eq := by
      have hbehind : source.toList.drop (s.next.1.first + 1) = rest := by
        rw [← List.drop_drop, hdrop, List.drop_one, List.tail_cons]
      have htold : s.next.2.pending = s.pending ++
          ((munch c rest).place s.label s.skipSpaces.offset).diagnostic?.toList := by
        rw [hnext]
        rfl
      rw [hbehind, hkind, if_congr (closed_munch_iff hspace).symm rfl rfl, htold, hnext]
      congr 1
      cases hclosed : (munch c rest).closed <;> simp [Lexeme.diagnostic?, Munch.place, hclosed] }

/-- What comes of asking a scanner in the source for the next token. -/
theorem yields (hlen : source.length < 2 ^ 32) (h : s.StandsIn source label) : s.Yields source := by
  obtain ⟨hrest, hnext⟩ | ⟨c, rest, hrest, hspace, hnext⟩ := s.next_cases
  · exact h.yields_end hlen hrest hnext
  · exact h.yields_token hlen hrest hspace hnext

/-! ## The end of the source -/

/-- A scanner in the source comes to the end of it and stays there. -/
theorem ends (hlen : source.length < 2 ^ 32) (h : s.StandsIn source label) : s.Ends source label := by
  have hend : ∀ j, s.lexemes.1.length ≤ j →
      s.yielded j = .endOfInput ⟨.ofNat source.length, label⟩ := fun j hj => by
    rw [(s.yielded_eq j).1, List.getElem?_eq_none hj, lexemes_snd, h.length_rest, h.label_eq]
    rfl
  have hstep : ∀ j, (s.pulled (j + 1)) = (s.pulled j).next.2 := fun j =>
    Function.iterate_succ_apply' _ j s
  refine ⟨s.lexemes.1.length, ?_, fun j hj => ?_, fun j hj => ⟨hend j hj, ?_, ?_⟩⟩
  · rw [lexemes_fst]
    exact length_scan_le _ _ _
  · have hmem : s.lexemes.1[j] ∈ scan s.label s.offset s.rest := by
      rw [← lexemes_fst]
      exact List.getElem_mem hj
    rw [(s.yielded_eq j).1, List.getElem?_eq_getElem hj]
    exact kind_ne_endOfInput_of_mem_scan hmem
  · rw [hstep]
    exact ((h.pulled j).yields hlen).offset_of_end (congrArg Token.kind (hend j hj))
  · have hidle : ∀ j, s.lexemes.1.length ≤ j → (s.pulled (j + 1)).pending = (s.pulled j).pending := by
      intro j hj
      have hkind : (s.pulled j).next.1.kind = .endOfInput := congrArg Token.kind (hend j hj)
      rw [hstep, ((h.pulled j).yields hlen).pending_eq, hkind, if_neg (by simp), List.append_nil]
    induction j, hj using Nat.le_induction with
    | base => exact hidle _ le_rfl
    | succ j hj ih => rw [hidle (j + 1) (hj.trans (Nat.le_succ j)), ih]

end StandsIn

end Scanner

/-- However a scanner is driven, its cursor stays in the source, and so do the tokens it yields: each
takes a character at least and is the longest one where it starts, and it leaves the cursor at its end.
With `n` characters left the end marker comes after `n` tokens at most and for ever after.  The
diagnostics grow by one with a string that no quote closes, and with nothing else. -/
theorem Session.scanner_run (source : String) (label? : Option String) (requests : List Request)
    (hlen : source.length < 2 ^ 32) :
    (run requests (ofSource source label?)).scanner.StandsIn source (label?.getD defaultLabel) ∧
      (run requests (ofSource source label?)).scanner.Yields source ∧
      (run requests (ofSource source label?)).scanner.Ends source (label?.getD defaultLabel) := by
  have h := standsIn_run source label? requests _ List.mem_cons_self
  exact ⟨h, h.yields hlen, h.ends hlen⟩

/-- A scanner that is moved into the string `"a"`, takes the closing quote for an opening one, and goes
back to where it was moved. -/
theorem Session.scanner_run_inside_string :
    "\"a\"b".length < 2 ^ 32 ∧
      (run [.advance 1, .save, .next, .next, .restore 0] (ofSource "\"a\"b" none)).scanner =
        ⟨"shell", 1, ['a', '"', 'b'], []⟩ ∧
      (⟨"shell", 1, ['a', '"', 'b'], []⟩ : Scanner).Yields "\"a\"b" ∧
      (⟨"shell", 1, ['a', '"', 'b'], []⟩ : Scanner).Ends "\"a\"b" "shell" :=
  ⟨by decide, by decide,
    (scanner_run "\"a\"b" none [.advance 1, .save, .next, .next, .restore 0] (by decide)).2⟩

end ScriptSyntax
