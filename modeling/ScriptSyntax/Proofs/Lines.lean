import Mathlib.Data.List.DropRight
import Mathlib.Tactic
import ScriptSyntax.Text.Line

/-!
# The line at an offset

`lineAt?` walks to an offset and remembers where the current line began.  Here is what it finds, said
without the walk: the line feeds in front of the offset give the number of the line, the characters behind
the last of them give the column, and the line is what stands from there on through the next line feed.
The offsets it finds nothing at are those past the end of the source.

Lines can also be cut all at once.  `linesOf` does so, and the line at an offset is the one of that number
among them, with all the lines in front of it before the offset.

## Main statements

* `LinePlace.IsAt`: what the line at an offset is.
* `lineAt?_eq_some_iff`, `lineAt?_eq_none_iff`: `lineAt?` finds it.
* `LinePlace.IsAt.lines`: the line at an offset among the lines of the text.
* `lineAt?_exact`: all of it in one statement.
-/

namespace ScriptSyntax

variable {text front before rest line : List Char} {offset : ℕ} {l : LinePlace}

/-! ## First lines -/

/-- `line` is the head of `text` through the first line feed, or all of `text` if it has none. -/
structure IsFirstLine (text line : List Char) : Prop where
  isPrefix : line <+: text
  feed_not_mem : '\n' ∉ line.dropLast
  ends : line = text ∨ line.getLast? = some '\n'

lemma isFirstLine_firstLine (text : List Char) : IsFirstLine text (firstLine text) := by
  induction text with
  | nil => exact ⟨List.prefix_refl _, List.not_mem_nil, .inl rfl⟩
  | cons c text ih =>
    rw [firstLine]
    by_cases hc : c = '\n'
    · rw [if_pos hc]
      exact ⟨⟨text, rfl⟩, List.not_mem_nil, .inr (by rw [hc]; rfl)⟩
    · rw [if_neg hc]
      refine ⟨List.cons_prefix_cons.2 ⟨rfl, ih.isPrefix⟩, fun hmem => ?_, ?_⟩
      · cases hline : firstLine text with
        | nil => simp [hline] at hmem
        | cons d line =>
          rw [hline, List.dropLast_cons_cons, List.mem_cons, ← hline] at hmem
          exact hmem.elim (Ne.symm hc) ih.feed_not_mem
      · refine ih.ends.imp (congrArg (c :: ·)) fun hend => ?_
        rw [List.getLast?_cons, hend, Option.getD_some]

/-- Of two first lines none goes on behind the other. -/
lemma IsFirstLine.length_le {line' : List Char} (h : IsFirstLine text line)
    (h' : IsFirstLine text line') : line'.length ≤ line.length := by
  by_contra hlt
  rw [not_le] at hlt
  obtain ⟨more, rfl⟩ := List.prefix_of_prefix_length_le h.isPrefix h'.isPrefix hlt.le
  have hmore : more ≠ [] := by
    rintro rfl
    simp at hlt
  rcases h.ends with rfl | hend
  · have := h'.isPrefix.length_le
    omega
  · refine h'.feed_not_mem ?_
    rw [List.dropLast_append_of_ne_nil hmore]
    exact List.mem_append_left _ (List.mem_of_getLast? hend)

lemma IsFirstLine.unique {line' : List Char} (h : IsFirstLine text line)
    (h' : IsFirstLine text line') : line = line' :=
  (List.prefix_of_prefix_length_le h.isPrefix h'.isPrefix (h'.length_le h)).eq_of_length
    (le_antisymm (h'.length_le h) (h.length_le h'))

/-- A line feed is looked for behind what has none. -/
lemma firstLine_append (h : '\n' ∉ before) : firstLine (before ++ rest) = before ++ firstLine rest := by
  induction before with
  | nil => rfl
  | cons c before ih =>
    rw [List.mem_cons, not_or] at h
    rw [List.cons_append, firstLine, if_neg (Ne.symm h.1), ih h.2, List.cons_append]

/-- The first line starts like the text. -/
lemma head?_firstLine (text : List Char) : (firstLine text).head? = text.head? := by
  cases text with
  | nil => rfl
  | cons c text =>
    rw [firstLine]
    split <;> rfl

/-! ## Whole lines -/

/-- A text of whole lines: the last of its characters, if it has any, is a line feed. -/
def IsWhole (front : List Char) : Prop := front = [] ∨ front.getLast? = some '\n'

lemma IsWhole.tail {c : Char} (h : IsWhole (c :: front)) : IsWhole front := by
  cases front with
  | nil => exact .inl rfl
  | cons d front =>
    rcases h with h | h
    · cases h
    · exact .inr (by rwa [List.getLast?_cons_cons] at h)

lemma IsWhole.ne_nil {c : Char} (h : IsWhole (c :: front)) (hc : c ≠ '\n') : front ≠ [] := by
  rintro rfl
  rcases h with h | h
  · cases h
  · exact hc (by simpa using h)

/-- Behind whole lines the part of a line is what stands behind the last line feed. -/
lemma IsWhole.rtakeWhile_append (hfront : IsWhole front) (hbefore : '\n' ∉ before) :
    (front ++ before).rtakeWhile (· != '\n') = before := by
  have hall : ∀ c ∈ before.reverse, (c != '\n') = true := fun c hc => by
    simpa using ne_of_mem_of_not_mem (List.mem_reverse.1 hc) hbefore
  rw [List.rtakeWhile, List.reverse_append, List.takeWhile_append_of_pos hall]
  rcases hfront with rfl | hend
  · simp
  · rw [← List.head?_reverse] at hend
    cases hrev : front.reverse with
    | nil => simp [hrev] at hend
    | cons c cs =>
      rw [hrev] at hend
      obtain rfl := Option.some.inj hend
      simp

lemma isWhole_rdropWhile (text : List Char) : IsWhole (text.rdropWhile (· != '\n')) := by
  by_cases hnil : text.rdropWhile (· != '\n') = []
  · exact .inl hnil
  · have hlast := List.rdropWhile_last_not (· != '\n') text hnil
    refine .inr ?_
    rw [List.getLast?_eq_some_getLast hnil]
    simpa using hlast

/-! ## The line at an offset -/

namespace LinePlace

/-- The place `offset` characters into `text` is on the line `l`, at its column. -/
structure IsAt (text : List Char) (offset : ℕ) (l : LinePlace) : Prop where
  offset_le : offset ≤ text.length
  /-- The line feeds in front of the place are those of the lines in front. -/
  number_eq : l.number = 1 + (text.take offset).count '\n'
  /-- The column counts the characters behind the last of these line feeds. -/
  column_eq : l.column = ((text.take offset).rtakeWhile (· != '\n')).length
  /-- The line starts so many characters in front of the place. -/
  isFirstLine : IsFirstLine (text.drop (offset - l.column)) l.text

/-- A place is on one line only. -/
lemma IsAt.unique {l' : LinePlace} (h : l.IsAt text offset) (h' : l'.IsAt text offset) : l = l' := by
  have hcolumn : l.column = l'.column := h.column_eq.trans h'.column_eq.symm
  have hline := h.isFirstLine
  rw [hcolumn] at hline
  calc
    l = ⟨l.number, l.text, l.column⟩ := rfl
    _ = ⟨l'.number, l'.text, l'.column⟩ := by
      rw [h.number_eq, ← h'.number_eq, hline.unique h'.isFirstLine, hcolumn]

/-- Where whole lines and the part of a line stand in front. -/
lemma isAt_append (hfront : IsWhole front) (hbefore : '\n' ∉ before) :
    (⟨1 + front.count '\n', firstLine (before ++ rest), before.length⟩ : LinePlace).IsAt
      (front ++ before ++ rest) (front.length + before.length) := by
  have htake : (front ++ before ++ rest).take (front.length + before.length) = front ++ before :=
    List.take_left' (List.length_append)
  refine ⟨?_, ?_, ?_, ?_⟩
  · rw [List.length_append, List.length_append]
    omega
  · rw [htake, List.count_append, List.count_eq_zero_of_not_mem hbefore, Nat.add_zero]
  · rw [htake, hfront.rtakeWhile_append hbefore]
  · show IsFirstLine (List.drop (front.length + before.length - before.length) _) _
    rw [Nat.add_sub_cancel, List.append_assoc, List.drop_left]
    exact isFirstLine_firstLine _

/-- The text cut at a place and where the line of the place begins. -/
theorem IsAt.exists_cut (h : l.IsAt text offset) :
    ∃ front before, text.take offset = front ++ before ∧ IsWhole front ∧ '\n' ∉ before ∧
      l = ⟨1 + front.count '\n', before ++ firstLine (text.drop offset), before.length⟩ := by
  have hsplit := List.rdropWhile_append_rtakeWhile (p := (· != '\n')) (l := text.take offset)
  have hwhole := isWhole_rdropWhile (text.take offset)
  have hbefore : '\n' ∉ (text.take offset).rtakeWhile (· != '\n') := fun hmem => by
    have := List.mem_rtakeWhile_imp hmem
    simp at this
  refine ⟨_, _, hsplit.symm, hwhole, hbefore, ?_⟩
  have hlength := congrArg List.length hsplit
  rw [List.length_take, Nat.min_eq_left h.offset_le, List.length_append] at hlength
  have hcut := @isAt_append _ _ (text.drop offset) hwhole hbefore
  rw [hsplit, List.take_append_drop, hlength, firstLine_append hbefore] at hcut
  exact h.unique hcut

/-- The character at a place stands in its line, at its column. -/
lemma IsAt.getElem?_text (h : l.IsAt text offset) : l.text[l.column]? = text[offset]? := by
  obtain ⟨front, before, -, -, -, rfl⟩ := h.exists_cut
  show (before ++ firstLine (text.drop offset))[before.length]? = text[offset]?
  rw [List.getElem?_append_right le_rfl, Nat.sub_self, ← List.head?_eq_getElem?, head?_firstLine,
    List.head?_drop]

/-- What the walk finds, with whole lines and the part of a line behind it. -/
theorem walk_spec (hfront : IsWhole front) (hbefore : '\n' ∉ before) (offset : ℕ) :
    (walk (1 + front.count '\n') (before ++ rest) before.length offset rest = none ↔
        rest.length < offset) ∧
      ∀ l, walk (1 + front.count '\n') (before ++ rest) before.length offset rest = some l →
        l.IsAt (front ++ before ++ rest) (front.length + before.length + offset) := by
  induction offset generalizing front before rest with
  | zero =>
    refine ⟨by simp [walk], fun l hl => ?_⟩
    rw [walk] at hl
    exact Option.some.inj hl ▸ isAt_append hfront hbefore
  | succ offset ih =>
    cases rest with
    | nil =>
      refine ⟨by simp [walk], fun l hl => ?_⟩
      cases hl
    | cons c rest =>
      rw [walk]
      by_cases hc : c = '\n'
      · -- the line is whole now, and a new one begins
        subst hc
        have hwhole : IsWhole (front ++ before ++ ['\n']) := .inr (by simp)
        obtain ⟨hnone, hsome⟩ := @ih _ _ rest hwhole List.not_mem_nil
        have hnumber : 1 + (front ++ before ++ ['\n']).count '\n' = 1 + front.count '\n' + 1 := by
          simp [List.count_eq_zero_of_not_mem hbefore, Nat.add_assoc]
        have htext : front ++ before ++ ['\n'] ++ [] ++ rest = front ++ before ++ '\n' :: rest := by
          simp
        have hplace : (front ++ before ++ ['\n']).length + ([] : List Char).length + offset =
            front.length + before.length + (offset + 1) := by
          simp only [List.length_append, List.length_singleton, List.length_nil]
          omega
        rw [hnumber, htext, hplace] at hsome
        rw [hnumber] at hnone
        rw [if_pos rfl, List.length_cons, Nat.succ_lt_succ_iff]
        exact ⟨hnone, hsome⟩
      · have hclean : '\n' ∉ before ++ [c] := by simp [hbefore, Ne.symm hc]
        obtain ⟨hnone, hsome⟩ := @ih _ _ rest hfront hclean
        have hline : before ++ [c] ++ rest = before ++ c :: rest := by simp
        have htext : front ++ (before ++ [c]) ++ rest = front ++ before ++ c :: rest := by simp
        have hplace : front.length + (before ++ [c]).length + offset =
            front.length + before.length + (offset + 1) := by
          rw [List.length_append, List.length_singleton]
          omega
        rw [hline, List.length_append, List.length_singleton] at hnone
        rw [htext, hplace, hline, List.length_append, List.length_singleton] at hsome
        rw [if_neg hc, List.length_cons, Nat.succ_lt_succ_iff]
        exact ⟨hnone, hsome⟩

end LinePlace

section Source

variable {source : String} {place : UInt32}

/-- Nothing is found past the end of the source. -/
theorem lineAt?_eq_none_iff : lineAt? source place = none ↔ source.length < place.toNat := by
  have hwalk := (@LinePlace.walk_spec [] [] source.toList (.inl rfl) List.not_mem_nil
    place.toNat).1
  rwa [String.length_toList] at hwalk

lemma isAt_of_lineAt? (h : lineAt? source place = some l) : l.IsAt source.toList place.toNat := by
  have hwalk := (@LinePlace.walk_spec [] [] source.toList (.inl rfl) List.not_mem_nil
    place.toNat).2 l h
  rwa [List.nil_append, List.nil_append, List.length_nil, Nat.add_zero, Nat.zero_add] at hwalk

/-- Anywhere else the line at the place is found. -/
theorem lineAt?_eq_some_iff : lineAt? source place = some l ↔ l.IsAt source.toList place.toNat := by
  refine ⟨isAt_of_lineAt?, fun h => ?_⟩
  cases hfound : lineAt? source place with
  | none =>
    have hle := h.offset_le
    rw [String.length_toList] at hle
    exact absurd (lineAt?_eq_none_iff.1 hfound) hle.not_gt
  | some l' => rw [(isAt_of_lineAt? hfound).unique h]

end Source

/-! ## The lines of a text -/

/-- The lines of a text, each with its line feed if it has one. -/
def linesOf : List Char → List (List Char)
  | [] => []
  | c :: text =>
    if c = '\n' then [c] :: linesOf text
    else
      match linesOf text with
      | [] => [[c]]
      | line :: lines => (c :: line) :: lines

lemma linesOf_feed (text : List Char) : linesOf ('\n' :: text) = ['\n'] :: linesOf text := by
  rw [linesOf, if_pos rfl]

lemma linesOf_cons {c : Char} (hc : c ≠ '\n') (text : List Char) :
    linesOf (c :: text) = (c :: (linesOf text).headD []) :: (linesOf text).tail := by
  rw [linesOf, if_neg hc]
  cases linesOf text <;> rfl

/-- Nothing of the text is lost. -/
lemma flatten_linesOf (text : List Char) : (linesOf text).flatten = text := by
  induction text with
  | nil => rfl
  | cons c text ih =>
    by_cases hc : c = '\n'
    · rw [hc, linesOf_feed, List.flatten_cons, ih, List.singleton_append]
    · rw [linesOf_cons hc]
      cases hlines : linesOf text <;> simp_all

/-- The first of the lines is the first line. -/
lemma headD_linesOf (text : List Char) : (linesOf text).headD [] = firstLine text := by
  induction text with
  | nil => rfl
  | cons c text ih =>
    rw [firstLine]
    by_cases hc : c = '\n'
    · rw [if_pos hc, hc, linesOf_feed, List.headD_cons]
    · rw [if_neg hc, linesOf_cons hc, List.headD_cons, ih]

lemma linesOf_ne_nil (h : text ≠ []) : linesOf text ≠ [] := by
  intro hlines
  have hflat := flatten_linesOf text
  rw [hlines, List.flatten_nil] at hflat
  exact h hflat.symm

/-- Whole lines are lines by themselves, and they are as many as their line feeds. -/
lemma IsWhole.linesOf_append (h : IsWhole front) (text : List Char) :
    linesOf (front ++ text) = linesOf front ++ linesOf text ∧
      (linesOf front).length = front.count '\n' := by
  induction front with
  | nil => exact ⟨rfl, rfl⟩
  | cons c front ih =>
    obtain ⟨hlines, hcount⟩ := ih h.tail
    by_cases hc : c = '\n'
    · rw [hc, List.cons_append, linesOf_feed, linesOf_feed, hlines, List.length_cons, hcount,
        List.count_cons_self]
      exact ⟨rfl, rfl⟩
    · obtain ⟨line, lines, hcons⟩ := List.exists_cons_of_ne_nil (linesOf_ne_nil (h.ne_nil hc))
      rw [List.cons_append, linesOf_cons hc, linesOf_cons hc, hlines, hcons, List.length_cons,
        List.count_cons_of_ne hc, ← hcount, hcons]
      exact ⟨rfl, rfl⟩

namespace LinePlace

/-- The line at a place, and the one of its number, with the lines in front of it. -/
theorem IsAt.lines (h : l.IsAt text offset) :
    ((linesOf text).take (l.number - 1)).flatten.length + l.column = offset ∧
      (linesOf text)[l.number - 1]?.getD [] = l.text := by
  obtain ⟨front, before, hsplit, hwhole, hbefore, rfl⟩ := h.exists_cut
  obtain ⟨hlines, hcount⟩ := hwhole.linesOf_append (before ++ text.drop offset)
  rw [← List.append_assoc, ← hsplit, List.take_append_drop] at hlines
  have hlength := congrArg List.length hsplit
  rw [List.length_take, Nat.min_eq_left h.offset_le, List.length_append] at hlength
  show (List.take (1 + front.count '\n' - 1) _).flatten.length + before.length = offset ∧
    (linesOf text)[1 + front.count '\n' - 1]?.getD [] = before ++ firstLine (text.drop offset)
  rw [Nat.add_sub_cancel_left, ← hcount, hlines, List.take_left, flatten_linesOf, hlength,
    List.getElem?_append_right le_rfl, Nat.sub_self, ← List.head?_eq_getElem?,
    ← List.headD_eq_head?_getD, headD_linesOf, firstLine_append hbefore]
  exact ⟨rfl, rfl⟩

/-- Behind the column the line runs through the next line feed. -/
lemma IsAt.isFirstLine_drop (h : l.IsAt text offset) :
    IsFirstLine (text.drop offset) (l.text.drop l.column) := by
  obtain ⟨front, before, -, -, -, rfl⟩ := h.exists_cut
  show IsFirstLine (text.drop offset) ((before ++ firstLine (text.drop offset)).drop before.length)
  rw [List.drop_left]
  exact isFirstLine_firstLine _

end LinePlace

/-- The look-up of lines is exact at every place.  Nothing is found past the end of the source, and
anywhere else the line that the place is on: so many line feeds are in front of it, the column counts
the characters behind the last of them, and the line goes on from there through the next line feed at or
behind the place.  Together with the column the lines in front make up the offset of the place, and the
character at the place stands in the column. -/
theorem lineAt?_exact (source : String) (place : UInt32) :
    (lineAt? source place = none ↔ source.length < place.toNat) ∧
      (∀ l, lineAt? source place = some l ↔ l.IsAt source.toList place.toNat) ∧
      ∀ l, lineAt? source place = some l →
        IsFirstLine (source.toList.drop place.toNat) (l.text.drop l.column) ∧
        ((linesOf source.toList).take (l.number - 1)).flatten.length + l.column = place.toNat ∧
        (linesOf source.toList)[l.number - 1]?.getD [] = l.text ∧
        l.text[l.column]? = source.toList[place.toNat]? := by
  refine ⟨lineAt?_eq_none_iff, fun l => lineAt?_eq_some_iff, fun l hl => ?_⟩
  have hat := isAt_of_lineAt? hl
  obtain ⟨hcount, hline⟩ := hat.lines
  exact ⟨hat.isFirstLine_drop, hcount, hline, hat.getElem?_text⟩

/-- Behind the last line feed an empty line begins. -/
example : lineAt? "x\n" 2 = some ⟨2, [], 0⟩ := by decide

end ScriptSyntax
