import ScriptSyntax.Proofs.Scanner.Longest

/-!
# Tokenization

The tokens of a source, said without the scanner that finds them: they cover the source in order, they
leave out nothing but spaces, and each of them is the longest token where it starts.  That fixes the
tokens, so `tokenize` is the only function that yields them.

## Main statements

* `IsTokenization`: what the tokens of a text are.
* `scan_eq_iff_isTokenization`: `scan` yields them, and they are the only ones of their kind.
* `tokenize_eq_iff`: the tokens of a source are those of its text, and then the end marker.
-/

namespace ScriptSyntax

/-! ## Places in the text -/

namespace Token

/-- The index of the first character that the token covers. -/
def first (t : Token) : ℕ := t.span.start.offset.toNat

/-- The index behind the last character that the token covers. -/
def past (t : Token) : ℕ := t.span.stop.offset.toNat

/-- The characters of `text` that the token covers. -/
def covered (t : Token) (text : List Char) : List Char :=
  (text.drop t.first).take (t.past - t.first)

end Token

/-- `ts` are the tokens of `text` from the index `start` on, where `label` is the label of the
source. -/
structure IsTokenization (label : String) (text : List Char) (start : ℕ) (ts : List Token) :
    Prop where
  label_eq : ∀ t ∈ ts, t.span.start.label = label ∧ t.span.stop.label = label
  kind_ne_endOfInput : ∀ t ∈ ts, t.kind ≠ .endOfInput
  start_le : ∀ t ∈ ts, start ≤ t.first
  first_lt_past : ∀ t ∈ ts, t.first < t.past
  past_le : ∀ t ∈ ts, t.past ≤ text.length
  increasing : ts.Pairwise fun t u => t.past ≤ u.first
  /-- Behind a token that reaches the end of the text there is no other. -/
  last : ∀ t ∈ ts, t.past = text.length → ts.getLast? = some t
  /-- Only spaces stand before, between and behind the tokens. -/
  spaces : ∀ i (h : i < text.length), start ≤ i → (∀ t ∈ ts, ¬(t.first ≤ i ∧ i < t.past)) →
    isSpace text[i] = true
  /-- Each token is the longest one at its place. -/
  longest : ∀ t ∈ ts, IsLongest (text.drop t.first) t.kind t.text.toList (t.covered text)

namespace IsTokenization

variable {label : String} {text : List Char} {start : ℕ} {t : Token} {ts : List Token}

/-- At the end of the text there is no token. -/
lemma eq_nil (h : IsTokenization label text start ts) (hstart : text.length ≤ start) : ts = [] := by
  refine List.eq_nil_iff_forall_not_mem.2 fun t ht => ?_
  have h₁ := h.start_le t ht
  have h₂ := h.first_lt_past t ht
  have h₃ := h.past_le t ht
  omega

/-- What is asked of no token is asked of spaces only. -/
lemma nil (hspaces : ∀ i (h : i < text.length), start ≤ i → isSpace text[i] = true) :
    IsTokenization label text start [] := by
  refine ⟨?_, ?_, ?_, ?_, ?_, .nil, ?_, fun i hi hle _ => hspaces i hi hle, ?_⟩ <;>
    exact fun t ht => absurd ht List.not_mem_nil

/-- A token and those behind it. -/
lemma cons (hlabel : t.span.start.label = label ∧ t.span.stop.label = label)
    (hkind : t.kind ≠ .endOfInput) (hlt : t.first < t.past) (hpast : t.past ≤ text.length)
    (hlongest : IsLongest (text.drop t.first) t.kind t.text.toList (t.covered text))
    (h : IsTokenization label text t.past ts) : IsTokenization label text t.first (t :: ts) where
  label_eq := List.forall_mem_cons.2 ⟨hlabel, h.label_eq⟩
  kind_ne_endOfInput := List.forall_mem_cons.2 ⟨hkind, h.kind_ne_endOfInput⟩
  start_le := List.forall_mem_cons.2 ⟨le_rfl, fun u hu => hlt.le.trans (h.start_le u hu)⟩
  first_lt_past := List.forall_mem_cons.2 ⟨hlt, h.first_lt_past⟩
  past_le := List.forall_mem_cons.2 ⟨hpast, h.past_le⟩
  increasing := List.pairwise_cons.2 ⟨h.start_le, h.increasing⟩
  last := by
    refine List.forall_mem_cons.2 ⟨fun hend => ?_, fun u hu hend => ?_⟩
    · rw [h.eq_nil hend.ge, List.getLast?_singleton]
    · rw [List.getLast?_cons, h.last u hu hend, Option.getD_some]
  spaces i hi hle hnone := by
    obtain ⟨hfirst, hothers⟩ := List.forall_mem_cons.1 hnone
    exact h.spaces i hi (by omega) hothers
  longest := List.forall_mem_cons.2 ⟨hlongest, h.longest⟩

/-- Behind the first token stand the others. -/
lemma tail (h : IsTokenization label text start (t :: ts)) :
    IsTokenization label text t.past ts where
  label_eq := (List.forall_mem_cons.1 h.label_eq).2
  kind_ne_endOfInput := (List.forall_mem_cons.1 h.kind_ne_endOfInput).2
  start_le := (List.pairwise_cons.1 h.increasing).1
  first_lt_past := (List.forall_mem_cons.1 h.first_lt_past).2
  past_le := (List.forall_mem_cons.1 h.past_le).2
  increasing := (List.pairwise_cons.1 h.increasing).2
  last u hu hend := by
    have hlast := h.last u (List.mem_cons_of_mem t hu) hend
    obtain ⟨v, vs, rfl⟩ := List.exists_cons_of_ne_nil (List.ne_nil_of_mem hu)
    rwa [List.getLast?_cons_cons] at hlast
  spaces i hi hle hnone := by
    have hstart := (List.forall_mem_cons.1 h.start_le).1
    have hlt := (List.forall_mem_cons.1 h.first_lt_past).1
    exact h.spaces i hi (by omega) (List.forall_mem_cons.2 ⟨by omega, hnone⟩)
  longest := (List.forall_mem_cons.1 h.longest).2

/-- No token starts at a space. -/
lemma isSpace_eq_false (h : IsTokenization label text start ts) (ht : t ∈ ts)
    (hlt : t.first < text.length) : isSpace text[t.first] = false := by
  refine (h.longest t ht).isSpace_eq_false _ ?_
  rw [List.head?_drop]
  exact List.getElem?_eq_getElem hlt

/-- A space at the start has no part in the tokens. -/
lemma space_iff (hstart : start < text.length) (hspace : isSpace text[start] = true) :
    IsTokenization label text start ts ↔ IsTokenization label text (start + 1) ts := by
  constructor
  · intro h
    refine { h with
      start_le := fun t ht => ?_
      spaces := fun i hi hle => h.spaces i hi (by omega) }
    refine Nat.succ_le_of_lt ((h.start_le t ht).lt_of_ne ?_)
    rintro rfl
    rw [h.isSpace_eq_false ht hstart] at hspace
    cases hspace
  · intro h
    refine { h with
      start_le := fun t ht => (Nat.le_succ start).trans (h.start_le t ht)
      spaces := fun i hi hle hnone => ?_ }
    rcases hle.eq_or_lt with rfl | hlt
    · exact hspace
    · exact h.spaces i hi hlt hnone

/-- At a character that is no space the first token starts. -/
lemma exists_cons (h : IsTokenization label text start ts) (hstart : start < text.length)
    (hspace : isSpace text[start] = false) :
    ∃ t us, ts = t :: us ∧ t.first = start := by
  obtain ⟨t, ht, hfirst, hpast⟩ : ∃ t ∈ ts, t.first ≤ start ∧ start < t.past := by
    by_contra hnone
    have := h.spaces start hstart le_rfl fun t ht hcovers => hnone ⟨t, ht, hcovers⟩
    rw [hspace] at this
    cases this
  obtain ⟨u, us, rfl⟩ := List.exists_cons_of_ne_nil (List.ne_nil_of_mem ht)
  have hu := h.start_le u List.mem_cons_self
  refine ⟨u, us, rfl, ?_⟩
  rcases List.mem_cons.1 ht with rfl | ht
  · omega
  · -- a token in front of `t` would end where `t` starts, and start behind there
    have hbefore := (List.pairwise_cons.1 h.increasing).1 t ht
    have hlt := h.first_lt_past u List.mem_cons_self
    omega

end IsTokenization

/-! ## The scanner -/

lemma drop_eq_cons_iff {α : Type} {l rest : List α} {x : α} {i : ℕ} :
    l.drop i = x :: rest ↔ ∃ h : i < l.length, l[i] = x ∧ l.drop (i + 1) = rest := by
  constructor
  · intro h
    have hi : i < l.length := by
      by_contra hle
      simp [List.drop_eq_nil_iff.2 (not_lt.1 hle)] at h
    rw [List.drop_eq_getElem_cons hi] at h
    injection h with hhead htail
    exact ⟨hi, hhead, htail⟩
  · rintro ⟨hi, rfl, rfl⟩
    exact List.drop_eq_getElem_cons hi

variable {label : String} {offset : ℕ} {m : Munch}

lemma Munch.first_place (h : offset < 2 ^ 32) : (m.place label offset).token.first = offset :=
  Nat.mod_eq_of_lt h

lemma Munch.past_place (h : offset + m.covered.length < 2 ^ 32) :
    (m.place label offset).token.past = offset + m.covered.length :=
  Nat.mod_eq_of_lt h

/-- A token is its kind, its text and the places it covers. -/
lemma Token.mk_eq {t : Token} (h : t.span.start.label = label ∧ t.span.stop.label = label) :
    ⟨t.kind, t.text, ⟨⟨.ofNat t.first, label⟩, ⟨.ofNat t.past, label⟩⟩⟩ = t := by
  obtain ⟨hstart, hstop⟩ := h
  obtain ⟨kind, text, ⟨⟨first, _⟩, ⟨past, _⟩⟩⟩ := t
  subst hstart
  cases hstop
  simp only [Token.first, Token.past, UInt32.ofNat_toNat]

/-- The longest token at a place is the one that `munch` reads there. -/
lemma IsTokenization.eq_place {text : List Char} {start : ℕ} {t : Token} {ts : List Token}
    (h : IsTokenization label text start ts) (ht : t ∈ ts) {c : Char} {rest : List Char}
    (hdrop : text.drop t.first = c :: rest) (hspace : isSpace c = false) :
    t = ((munch c rest).place label t.first).token ∧
      t.past = t.first + (munch c rest).covered.length := by
  have hlongest := h.longest t ht
  rw [hdrop, isLongest_iff hspace] at hlongest
  obtain ⟨hkind, htext, hcovered⟩ := hlongest
  have hpast : t.past = t.first + (munch c rest).covered.length := by
    have hlt := h.first_lt_past t ht
    have hle := h.past_le t ht
    rw [← hcovered, Token.covered, List.length_take, List.length_drop]
    omega
  refine ⟨?_, hpast⟩
  rw [Munch.place, ← hkind, ← htext, ← hpast, String.ofList_toList]
  exact (Token.mk_eq (h.label_eq t ht)).symm

/-- The token that `munch` reads, and the tokens behind it. -/
lemma IsTokenization.cons_place {text : List Char} (hlen : text.length < 2 ^ 32) {start : ℕ}
    {ts : List Token} {c : Char} {rest : List Char} (hdrop : text.drop start = c :: rest)
    (hspace : isSpace c = false) (hwidth : start + (munch c rest).covered.length ≤ text.length)
    (h : IsTokenization label text (start + (munch c rest).covered.length) ts) :
    IsTokenization label text start (((munch c rest).place label start).token :: ts) := by
  have hpos := List.length_pos_iff.2 (munch_covered_ne_nil c rest)
  have hfirst : ((munch c rest).place label start).token.first = start :=
    Munch.first_place (by omega)
  have hpast : ((munch c rest).place label start).token.past =
      start + (munch c rest).covered.length := Munch.past_place (by omega)
  have hcovered : ((munch c rest).place label start).token.covered text =
      (munch c rest).covered := by
    rw [Token.covered, hfirst, hpast, Nat.add_sub_cancel_left, hdrop]
    exact (List.prefix_iff_eq_take.1 (munch_covered_isPrefix c rest)).symm
  have hlongest : IsLongest (text.drop start) (munch c rest).kind
      (String.ofList (munch c rest).text).toList (munch c rest).covered := by
    rw [hdrop, String.toList_ofList]
    exact isLongest_munch hspace
  rw [← hpast] at h
  rw [← hcovered] at hlongest
  have hcons := IsTokenization.cons ⟨rfl, rfl⟩ (munch_kind_ne_endOfInput c rest)
    (by rw [hfirst, hpast]; omega) (by rwa [hpast]) (by rwa [hfirst]) h
  rwa [hfirst] at hcons

/-- `scan` yields the tokens of a text, and they are the only ones. -/
theorem scan_eq_iff_isTokenization {text : List Char} (hlen : text.length < 2 ^ 32) {start : ℕ}
    {ts : List Token} :
    (scan label start (text.drop start)).map Lexeme.token = ts ↔
      IsTokenization label text start ts := by
  induction hrest : text.drop start using scan_induction generalizing start ts with
  | nil =>
    have hend : text.length ≤ start := List.drop_eq_nil_iff.1 hrest
    rw [scan_nil, List.map_nil]
    constructor
    · rintro rfl
      exact .nil fun i hi hle => absurd hi (by omega)
    · exact fun h => (h.eq_nil hend).symm
  | space c rest hc ih =>
    obtain ⟨hstart, hhead, htail⟩ := drop_eq_cons_iff.1 hrest
    rw [scan_space hc, IsTokenization.space_iff hstart (by rwa [hhead])]
    exact ih htail
  | token c rest hc ih =>
    obtain ⟨hstart, hhead, -⟩ := drop_eq_cons_iff.1 hrest
    rw [Bool.not_eq_true] at hc
    have hwidth : start + (munch c rest).covered.length ≤ text.length := by
      have hle := (munch_covered_isPrefix c rest).length_le
      rw [← hrest, List.length_drop] at hle
      omega
    have hbehind : text.drop (start + (munch c rest).covered.length) =
        (c :: rest).drop (munch c rest).covered.length := by
      rw [← hrest, List.drop_drop]
    rw [scan_cons (by simpa using hc), List.map_cons]
    constructor
    · rintro rfl
      exact .cons_place hlen hrest hc hwidth ((ih hbehind).1 rfl)
    · intro h
      obtain ⟨t, us, rfl, rfl⟩ := h.exists_cons hstart (by rwa [hhead])
      obtain ⟨ht, hstop⟩ := h.eq_place List.mem_cons_self hrest hc
      rw [← ht, (ih hbehind).2 (hstop ▸ h.tail)]

/-- What the scanner yields for a source. -/
lemma tokenize_eq_scan (source : String) (label? : Option String) :
    tokenize source label? =
      (scan (label?.getD defaultLabel) 0 source.toList).map Lexeme.token ++
        [.endOfInput ⟨.ofNat source.length, label?.getD defaultLabel⟩] := by
  rw [tokenize, Scanner.tokens, Scanner.lexemes_fst, Scanner.lexemes_snd]
  simp only [Scanner.ofSource, Nat.zero_add, String.length_toList]

lemma isTokenization_scan {source : String} (hlen : source.length < 2 ^ 32) (label : String) :
    IsTokenization label source.toList 0 ((scan label 0 source.toList).map Lexeme.token) :=
  (@scan_eq_iff_isTokenization label source.toList (by rwa [String.length_toList]) 0 _).1 rfl

/-- The tokens of a source, the end marker with them, start one behind the other. -/
theorem tokenize_pairwise_first {source : String} (hlen : source.length < 2 ^ 32)
    (label? : Option String) : (tokenize source label?).Pairwise fun t u => t.first < u.first := by
  have h := isTokenization_scan hlen (label?.getD defaultLabel)
  rw [tokenize_eq_scan, List.pairwise_append]
  refine ⟨?_, List.pairwise_singleton _ _, fun t ht u hu => ?_⟩
  · exact h.increasing.imp_of_mem fun ht _ hle => (h.first_lt_past _ ht).trans_le hle
  · obtain rfl := List.mem_singleton.1 hu
    have hend : (Token.endOfInput ⟨.ofNat source.length, label?.getD defaultLabel⟩).first =
        source.length := Nat.mod_eq_of_lt hlen
    have hlt := h.first_lt_past t ht
    have hle := h.past_le t ht
    rw [String.length_toList] at hle
    rw [hend]
    omega

/-- The tokens of a source are those of its text, and then the end marker. -/
theorem tokenize_eq_iff (source : String) (label? : Option String) (ts : List Token)
    (hlen : source.length < 2 ^ 32) :
    tokenize source label? = ts ↔
      ∃ front, ts = front ++
          [.endOfInput ⟨.ofNat source.length, label?.getD defaultLabel⟩] ∧
        IsTokenization (label?.getD defaultLabel) source.toList 0 front := by
  have hscan : ∀ front, (scan (label?.getD defaultLabel) 0 source.toList).map Lexeme.token = front ↔
      IsTokenization (label?.getD defaultLabel) source.toList 0 front := fun front =>
    @scan_eq_iff_isTokenization _ source.toList (by rwa [String.length_toList]) 0 front
  rw [tokenize_eq_scan]
  constructor
  · rintro rfl
    exact ⟨_, rfl, isTokenization_scan hlen _⟩
  · rintro ⟨front, rfl, hfront⟩
    rw [(hscan front).2 hfront]

/-- A comparison with a string that is not closed: no other tokens fit its text. -/
theorem isTokenization_comparison :
    "x==\"a b".length < 2 ^ 32 ∧
      ∃ front,
        [⟨.identifier, "x", ⟨⟨0, "shell"⟩, ⟨1, "shell"⟩⟩⟩,
            ⟨.equal, "==", ⟨⟨1, "shell"⟩, ⟨3, "shell"⟩⟩⟩,
            ⟨.string, "a b", ⟨⟨3, "shell"⟩, ⟨7, "shell"⟩⟩⟩,
            .endOfInput ⟨7, "shell"⟩] = front ++ [.endOfInput ⟨.ofNat 7, "shell"⟩] ∧
          IsTokenization "shell" "x==\"a b".toList 0 front :=
  ⟨by decide, (tokenize_eq_iff "x==\"a b" none _ (by decide)).1 (by decide)⟩

end ScriptSyntax
