import ScriptSyntax.Proofs.Scanner.Append

/-!
# Strings without a closing quote

Quotes are closed in pairs, from the left.  So a text has a string without a closing quote just if its
quotes are odd in number; that string opens at the last of them, it is the last token of the text, and no
other token is incomplete.

## Main statements

* `scan_unclosed`: the tokens of a text whose last quote closes nothing.
* `exists_of_mem_scan`: an incomplete token is the string that the last quote opens.
* `filterMap_diagnostic?_scan_unclosed`: the one thing that is wrong with the tokens of such a text by
  themselves.
* `map_closed_scan`: which tokens of a text are complete.
-/

namespace ScriptSyntax

variable {label : String} {offset : Nat} {text front back : List Char} {l : Lexeme}

/-- Quotes that are odd in number are an even number of them and then the last one. -/
lemma exists_last_quote (h : Odd (text.count '"')) :
    ∃ front back, text = front ++ '"' :: back ∧ '"' ∉ back ∧ Even (front.count '"') := by
  have hmem : '"' ∈ text.reverse := by
    rw [List.mem_reverse]
    exact List.count_pos_iff.1 h.pos
  obtain ⟨back, front, hsplit, hback⟩ := List.eq_append_cons_of_mem hmem
  have htext : text = front.reverse ++ '"' :: back.reverse := by
    rw [← List.reverse_reverse text, hsplit]
    simp
  have hnone : '"' ∉ back.reverse := by rwa [List.mem_reverse]
  refine ⟨front.reverse, back.reverse, htext, hnone, ?_⟩
  rw [htext, List.count_append, List.count_cons_self, List.count_eq_zero_of_not_mem hnone,
    Nat.odd_add_one, Nat.not_odd_iff_even] at h
  exact h

/-- A string that is not closed runs to the end of the text. -/
lemma Munch.string_of_not_mem (h : '"' ∉ back) :
    Munch.string back = ⟨.string, back, '"' :: back, false⟩ := by
  have hall : ∀ c ∈ back, (c != '"') = true := fun c hc => by
    simpa using ne_of_mem_of_not_mem hc h
  have hdrop : back.dropWhile (· != '"') = [] := List.dropWhile_eq_nil_iff.2 hall
  simp [Munch.string, List.takeWhile_eq_self_iff.2 hall, hdrop]

/-- No token goes on with a quote. -/
lemma seam_quote (h : Even (front.count '"')) : Seam front ('"' :: back) where
  even_count := h
  joins_eq_false c _ d hd := by
    obtain rfl : '"' = d := Option.some.inj hd
    simp [joins, show isWordChar '"' = false by decide, show '"'.isDigit = false by decide]

/-- The tokens of a text whose last quote closes nothing: those in front of the quote, and the string
that it opens. -/
theorem scan_unclosed (hfront : Even (front.count '"')) (hback : '"' ∉ back) :
    scan label offset (front ++ '"' :: back) =
      scan label offset front ++ [(Munch.string back).place label (offset + front.length)] := by
  rw [scan_append label offset (seam_quote hfront), scan_cons (by decide), munch_quote,
    Munch.string_of_not_mem hback, List.drop_length, scan_nil]

/-- An incomplete token is the string that the last quote opens. -/
theorem exists_of_mem_scan (h : l ∈ scan label offset text) (hopen : l.closed = false) :
    ∃ front back, text = front ++ '"' :: back ∧ '"' ∉ back ∧
      l = (Munch.string back).place label (offset + front.length) := by
  have hodd : Odd (text.count '"') := by
    rw [← Nat.not_even_iff_odd, ← forall_closed_scan_iff label offset text]
    intro hclosed
    exact Bool.false_ne_true (hopen.symm.trans (hclosed l h))
  obtain ⟨front, back, rfl, hback, hfront⟩ := exists_last_quote hodd
  refine ⟨front, back, rfl, hback, ?_⟩
  rw [scan_unclosed hfront hback, List.mem_append, List.mem_singleton] at h
  refine h.resolve_left fun hmem => ?_
  have hclosed := (forall_closed_scan_iff label offset front).2 hfront l hmem
  exact Bool.false_ne_true (hopen.symm.trans hclosed)

/-- Nothing is wrong with the tokens of a text by themselves if its quotes are even in number. -/
lemma filterMap_diagnostic?_scan (h : Even (text.count '"')) :
    (scan label offset text).filterMap Lexeme.diagnostic? = [] := by
  refine List.filterMap_eq_nil_iff.2 fun l hl => ?_
  rw [Lexeme.diagnostic?, (forall_closed_scan_iff label offset text).2 h l hl, if_pos rfl]

/-- Otherwise it is the string that the last quote opens, and nothing else. -/
theorem filterMap_diagnostic?_scan_unclosed (hfront : Even (front.count '"')) (hback : '"' ∉ back) :
    (scan label offset (front ++ '"' :: back)).filterMap Lexeme.diagnostic? =
      [⟨.unterminatedString (.ofList back), ⟨.ofNat (offset + front.length), label⟩⟩] := by
  rw [scan_unclosed hfront hback, List.filterMap_append, filterMap_diagnostic?_scan hfront,
    Munch.string_of_not_mem hback]
  rfl

/-- Which tokens of a text are complete: all of them, or all but the last if its quotes are odd in
number. -/
lemma map_closed_scan :
    (scan label offset text).map Lexeme.closed =
      if Even (text.count '"') then List.replicate (scan label offset text).length true
      else List.replicate ((scan label offset text).length - 1) true ++ [false] := by
  have hcomplete : ∀ front : List Char, Even (front.count '"') →
      (scan label offset front).map Lexeme.closed =
        List.replicate (scan label offset front).length true := fun front h =>
    List.eq_replicate_iff.2 ⟨List.length_map _, fun b hb => by
      obtain ⟨l, hl, rfl⟩ := List.mem_map.1 hb
      exact (forall_closed_scan_iff label offset front).2 h l hl⟩
  split
  · rename_i h
    exact hcomplete text h
  · rename_i h
    obtain ⟨front, back, rfl, hback, hfront⟩ := exists_last_quote (Nat.not_even_iff_odd.1 h)
    rw [scan_unclosed hfront hback, List.map_append, hcomplete front hfront,
      Munch.string_of_not_mem hback]
    simp [Munch.place]

end ScriptSyntax
