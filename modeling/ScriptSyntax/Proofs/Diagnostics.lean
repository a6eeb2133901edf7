import ScriptSyntax.Proofs.Acceptance
import ScriptSyntax.Proofs.FirstFault
import ScriptSyntax.Proofs.Parser.Course
import ScriptSyntax.Proofs.Scanner.Unclosed

/-!
# The diagnostics of a source

What the diagnostics of a source are worth, whatever the source is: each of them is about one token and
tells the truth about it, they come in the order of the source, and a string without a closing quote is
among them just if there is one.  The first two are invariants of the parser.  The third follows the
window over the tokens: what is wrong with a token by itself is told when the window moves onto it, and
the window passes every token once.

## Main statements

* `parse_diagnostic_fits`: every diagnostic fits the one token that starts at its place.
* `parse_diagnostics_ordered`: the diagnostics come in the order of the source.
* `parse_unterminated_iff_odd`: a string without a closing quote is told of once, and just if the quotes
  of the source are odd in number.
-/

namespace ScriptSyntax

open Rule

variable {source : String} {label? : Option String}

/-- The index of the character that the diagnostic is about. -/
def Diagnostic.offset (d : Diagnostic) : ℕ := d.position.offset.toNat

lemma Lexeme.position_of_diagnostic? {l : Lexeme} {d : Diagnostic} (h : l.diagnostic? = some d) :
    d.position = l.token.position := by
  rw [(of_diagnostic? h).2]

/-! ## The tokens in the window -/

namespace Parser

variable {p q : Parser}

/-- The tokens from the current one on, the end marker with them. -/
def stream (p : Parser) : List Token := p.tokens ++ [.endOfInput p.finish]

/-- Every token that the window shows is one of them, and none behind the end marker. -/
lemma getElem?_stream (p : Parser) (k : ℕ) :
    p.stream[min k p.lexemes.length]? = some (p.tokenAt k) := by
  rcases lt_or_ge k p.lexemes.length with hk | hk
  · simp [stream, tokens, tokenAt, hk.le, hk]
  · simp [stream, tokens, tokenAt, hk]

/-- Moving the window takes at most one token away. -/
lemma stream_advance_sublist (p : Parser) : p.advance.stream.Sublist p.stream := by
  rw [stream, stream, tokens_advance]
  exact (List.tail_sublist _).append_right _

/-- What is told when the window moves. -/
lemma mem_diagnostics_advance {d : Diagnostic} (h : d ∈ p.advance.diagnostics) :
    d ∈ p.diagnostics ∨
      ∃ l ∈ p.lexemes, l.diagnostic? = some d ∧ l.token = p.tokenAt 1 := by
  rw [← Array.mem_toList_iff, Parser.advance, Array.toList_appendList, List.mem_append,
    Array.mem_toList_iff] at h
  refine h.imp_right fun hfound => ?_
  cases hl : p.lexemes[1]? with
  | none => simp [hl] at hfound
  | some l =>
    refine ⟨l, List.mem_of_getElem? hl, ?_, ?_⟩
    · simpa [hl, eq_comm] using hfound
    · simp [tokenAt, hl]

end Parser

/-! ## What diagnostics tell -/

/-- What a fault says of the token `t` of `text` that `i` others stand in front of. -/
def Fault.Fits (text : List Char) (i : ℕ) (t : Token) : Fault → Prop
  | .expectedToken expected received => t.kind = received ∧ received ≠ expected
  | .noOperand kind => t.kind = kind ∧ operand? expression kind = none
  | .integerRange digits => t.kind = .integer ∧ t.text = digits ∧ 2 ^ 63 ≤ Grammar.decimal t
  | .unterminatedString value =>
    t.kind = .string ∧ t.text = value ∧ t.past = text.length ∧
      text.drop t.first = '"' :: value.toList ∧ '"' ∉ value.toList
  | .nestingTooDeep limit => limit = 100 ∧ 100 ≤ i

/-- The diagnostic is about a token of the source, and true of it. -/
def Diagnostic.Fits (source : String) (label? : Option String) (d : Diagnostic) : Prop :=
  ∃ i t, (tokenize source label?)[i]? = some t ∧ t.position = d.position ∧
    d.fault.Fits source.toList i t

/-- An incomplete token of a text is a string that runs to its end.  Places are 32-bit words, so the text
has to be short enough for them. -/
lemma fits_of_mem_scan {label : String} {text : List Char} (hlen : text.length < 2 ^ 32) {l : Lexeme}
    (hl : l ∈ scan label 0 text) (hopen : l.closed = false) (i : ℕ) :
    Fault.Fits text i l.token (.unterminatedString l.token.text) := by
  obtain ⟨front, back, rfl, hback, rfl⟩ := exists_of_mem_scan hl hopen
  rw [List.length_append, List.length_cons] at hlen
  rw [Munch.string_of_not_mem hback, Nat.zero_add]
  let m : Munch := ⟨.string, back, '"' :: back, false⟩
  have hfirst : (m.place label front.length).token.first = front.length :=
    Munch.first_place (by omega)
  have hpast : (m.place label front.length).token.past = front.length + (back.length + 1) :=
    Munch.past_place hlen
  refine ⟨rfl, rfl, ?_, ?_, ?_⟩
  · rw [hpast, List.length_append, List.length_cons]
  · rw [hfirst, List.drop_left]
    simp [Munch.place]
  · simpa [Munch.place] using hback

/-- What is wrong with a token of the source by itself is true of it. -/
lemma fits_of_mem_start (hlen : source.length < 2 ^ 32) {l : Lexeme} {d : Diagnostic}
    (hl : l ∈ (Parser.start source label?).lexemes) (hd : l.diagnostic? = some d) :
    d.Fits source label? := by
  obtain ⟨hopen, rfl⟩ := Lexeme.of_diagnostic? hd
  have hmem : l.token ∈ tokenize source label? := by
    rw [Parser.tokenize_eq_start, Parser.tokens]
    exact List.mem_append_left _ (List.mem_map_of_mem hl)
  obtain ⟨i, hi⟩ := List.mem_iff_getElem?.1 hmem
  rw [Parser.lexemes_start] at hl
  rw [← String.length_toList] at hlen
  exact ⟨i, l.token, hi, rfl, fits_of_mem_scan hlen hl hopen i⟩

namespace Parser

variable {p q : Parser}

/-- The parser `q` stands on the token of the source that `i` others stand in front of. -/
structure StandsAt (source : String) (label? : Option String) (i : ℕ) (q : Parser) : Prop where
  le : i ≤ (start source label?).lexemes.length
  lexemes_eq : q.lexemes = (start source label?).lexemes.drop i
  finish_eq : q.finish = (start source label?).finish

namespace StandsAt

variable {i : ℕ}

lemma stream_eq (h : StandsAt source label? i q) : q.stream = (tokenize source label?).drop i := by
  have hle : i ≤ (start source label?).tokens.length := by simpa [tokens] using h.le
  rw [tokenize_eq_start, List.drop_append_of_le_length hle, stream, tokens, h.lexemes_eq,
    h.finish_eq, List.map_drop, ← tokens]

/-- The tokens in the window are tokens of the source. -/
lemma exists_getElem? (h : StandsAt source label? i q) (k : ℕ) :
    ∃ j, i ≤ j ∧ (tokenize source label?)[j]? = some (q.tokenAt k) := by
  refine ⟨i + min k q.lexemes.length, Nat.le_add_right _ _, ?_⟩
  rw [← List.getElem?_drop, ← h.stream_eq, getElem?_stream]

/-- Moving the window passes a token unless it stands on the end marker. -/
lemma advance (h : StandsAt source label? i q) :
    ∃ j, StandsAt source label? j q.advance ∧ i ≤ j ∧ (q.lexemes ≠ [] → i < j) := by
  have htail : q.advance.lexemes = (start source label?).lexemes.drop (i + 1) := by
    rw [lexemes_advance, h.lexemes_eq, List.tail_drop]
  rcases h.le.lt_or_eq with hlt | heq
  · exact ⟨i + 1, ⟨hlt, htail, h.finish_eq⟩, Nat.le_succ i, fun _ => Nat.lt_succ_self i⟩
  · have hnil : q.lexemes = [] := by rw [h.lexemes_eq, heq, List.drop_length]
    refine ⟨i, ⟨h.le, ?_, h.finish_eq⟩, le_rfl, fun hne => absurd hnil hne⟩
    rw [lexemes_advance, hnil, heq, List.drop_length, List.tail_nil]

end StandsAt

/-- The parser `q` has told nothing but the truth, and it has passed a token for each of its levels of
nesting but `entered` of them. -/
structure Truthful (source : String) (label? : Option String) (entered : ℕ) (q : Parser) : Prop where
  stands : ∃ i, StandsAt source label? i q ∧ q.depth ≤ i + entered
  fits : ∀ d ∈ q.diagnostics, d.Fits source label?

namespace Truthful

variable {entered : ℕ} {d : Diagnostic}

lemma fits_advance (hlen : source.length < 2 ^ 32) (h : Truthful source label? entered q) :
    ∀ d ∈ q.advance.diagnostics, d.Fits source label? := by
  intro d hd
  obtain ⟨i, hi, -⟩ := h.stands
  rcases mem_diagnostics_advance hd with hold | ⟨l, hl, hwrong, -⟩
  · exact h.fits d hold
  · rw [hi.lexemes_eq] at hl
    exact fits_of_mem_start hlen (List.mem_of_mem_drop hl) hwrong

lemma advance (hlen : source.length < 2 ^ 32) (h : Truthful source label? 0 q) :
    Truthful source label? 0 q.advance := by
  obtain ⟨i, hi, hdepth⟩ := h.stands
  obtain ⟨j, hj, hle, -⟩ := hi.advance
  exact ⟨⟨j, hj, hdepth.trans hle⟩, h.fits_advance hlen⟩

/-- A token that was passed pays for the level that was entered on it. -/
lemma advance_of_entered (hlen : source.length < 2 ^ 32) (h : Truthful source label? 1 q)
    (hne : q.lexemes ≠ []) : Truthful source label? 0 q.advance := by
  obtain ⟨i, hi, hdepth⟩ := h.stands
  obtain ⟨j, hj, -, hlt⟩ := hi.advance
  exact ⟨⟨j, hj, hdepth.trans (hlt hne)⟩, h.fits_advance hlen⟩

/-- What a rule fails with is true. -/
lemma fits_of_raises (h : Truthful source label? 0 q)
    (hd : q.Raises (Truthful source label? 0) d) : d.Fits source label? := by
  obtain ⟨i, hi, -⟩ := h.stands
  obtain ⟨j, -, hj⟩ := hi.exists_getElem? 0
  cases hd with
  | unexpected hkind =>
    obtain ⟨k, -, hk⟩ := hi.exists_getElem? 1
    exact ⟨k, _, hk, rfl, rfl, hkind⟩
  | notAnOperand hkind => exact ⟨j, _, hj, rfl, rfl, hkind expression⟩
  | integerRange hkind hbound => exact ⟨j, _, hj, rfl, hkind, rfl, hbound⟩
  | tooDeep hlevels hdeep =>
    obtain ⟨i', hi', hdepth⟩ := hdeep.stands
    obtain ⟨k, hk, hget⟩ := hi'.exists_getElem? 0
    exact ⟨k, _, hget, rfl, rfl, (hlevels.trans hdepth).trans hk⟩
  | unclosed hkind => exact ⟨j, _, hj, rfl, hkind, by decide⟩

lemma record (h : Truthful source label? 0 q) (hd : q.Raises (Truthful source label? 0) d) :
    Truthful source label? 0 (q.record d) := by
  obtain ⟨i, hi, hdepth⟩ := h.stands
  refine ⟨⟨i, ⟨hi.le, hi.lexemes_eq, hi.finish_eq⟩, hdepth⟩, fun e he => ?_⟩
  rcases Array.mem_push.1 he with hold | rfl
  · exact h.fits e hold
  · exact h.fits_of_raises hd

lemma start (hlen : source.length < 2 ^ 32) : Truthful source label? 0 (start source label?) := by
  refine ⟨⟨0, ⟨Nat.zero_le _, rfl, rfl⟩, Nat.zero_le _⟩, fun d hd => ?_⟩
  rw [← Array.mem_toList_iff, diagnostics_start] at hd
  obtain ⟨l, hl, hwrong⟩ := List.mem_filterMap.1 hd
  exact fits_of_mem_start hlen (List.mem_of_mem_head? (Option.mem_toList.1 hl)) hwrong

end Truthful

/-- Telling the truth is an invariant. -/
def truthful (label? : Option String) (hlen : source.length < 2 ^ 32) : Invariant where
  Holds := Truthful source label? 0
  Entered := Truthful source label? 1
  entered_of_holds := fun ⟨⟨i, hi, hdepth⟩, hfits⟩ => ⟨⟨i, hi, hdepth.trans (Nat.le_succ i)⟩, hfits⟩
  advance h := h.advance hlen
  advance_of_entered h hne := h.advance_of_entered hlen hne
  enter := fun ⟨⟨i, hi, hdepth⟩, hfits⟩ =>
    ⟨⟨i, ⟨hi.le, hi.lexemes_eq, hi.finish_eq⟩, Nat.succ_le_succ hdepth⟩, hfits⟩
  leave := fun ⟨⟨i, hi, hdepth⟩, hfits⟩ =>
    ⟨⟨i, ⟨hi.le, hi.lexemes_eq, hi.finish_eq⟩, Nat.le_of_succ_le_succ hdepth⟩, hfits⟩
  recover _ h hd :=
    (synchronize_induction (motive := Truthful source label? 0) (fun _ h => h.advance hlen)
      (h.record hd)).advance hlen
  close h hd _ := h.record hd

end Parser

/-- What holds of the parser that a source is read from, and is kept, holds when it is read. -/
lemma Invariant.holds_parse (I : Invariant) (h : I.Holds (Parser.start source label?)) :
    ∃ q : Parser, I.Holds q ∧ (parse source label?).diagnostics = q.diagnostics.toList :=
  have hlevels : maxNesting ≤ (Parser.start source label?).depth + maxNesting := Nat.le_add_left _ _
  ⟨_, I.holds_statementList hlevels false h, diagnostics_parse source label?⟩

/-- Every diagnostic of a source is true. -/
lemma fits_of_mem_parse (hlen : source.length < 2 ^ 32) {d : Diagnostic}
    (hd : d ∈ (parse source label?).diagnostics) : d.Fits source label? := by
  obtain ⟨q, hq, hdiagnostics⟩ := (Parser.truthful label? hlen).holds_parse (.start hlen)
  rw [hdiagnostics, Array.mem_toList_iff] at hd
  exact hq.fits d hd

/-- Every diagnostic tells the truth: one token of the source starts at its place, and what it says of
this token is so. -/
theorem parse_diagnostic_fits (source : String) (label? : Option String) (d : Diagnostic)
    (hlen : source.length < 2 ^ 32) (hd : d ∈ (parse source label?).diagnostics) :
    ∃ i t, (tokenize source label?)[i]? = some t ∧ t.position = d.position ∧
      (∀ j u, (tokenize source label?)[j]? = some u → u.position = d.position → j = i) ∧
      d.fault.Fits source.toList i t := by
  obtain ⟨i, t, hget, hplace, hfits⟩ := fits_of_mem_parse hlen hd
  refine ⟨i, t, hget, hplace, fun j u hu huplace => ?_, hfits⟩
  exact eq_of_position_eq hlen hget hu (huplace.trans hplace.symm)

/-- An integer that is too large, in a call that is not closed: the diagnostic is about the integer. -/
theorem parse_diagnostic_fits_integer :
    "f(1, 9223372036854775808".length < 2 ^ 32 ∧
      (⟨.integerRange "9223372036854775808", ⟨5, "shell"⟩⟩ : Diagnostic) ∈
        (parse "f(1, 9223372036854775808" none).diagnostics ∧
      ∃ (i : ℕ) (t : Token), (tokenize "f(1, 9223372036854775808" none)[i]? = some t ∧
        t.position = ⟨5, "shell"⟩ ∧
        (∀ (j : ℕ) (u : Token), (tokenize "f(1, 9223372036854775808" none)[j]? = some u →
          u.position = ⟨5, "shell"⟩ → j = i) ∧
        t.kind = .integer ∧ t.text = "9223372036854775808" ∧ 2 ^ 63 ≤ Grammar.decimal t := by
  have hd : (⟨.integerRange "9223372036854775808", ⟨5, "shell"⟩⟩ : Diagnostic) ∈
      (parse "f(1, 9223372036854775808" none).diagnostics := by decide +kernel
  exact ⟨by decide, hd, parse_diagnostic_fits _ none _ (by decide) hd⟩

/-! ## The order of diagnostics -/

namespace Parser

variable {p q : Parser} {k : ℕ}

/-- The parser has its tokens and its diagnostics in order, and no diagnostic lies behind the token `k`
places after the current one. -/
structure Ordered (k : ℕ) (q : Parser) : Prop where
  tokens : q.stream.Pairwise fun t u => t.first ≤ u.first
  diagnostics : q.diagnostics.toList.Pairwise fun d e => d.offset ≤ e.offset
  offset_le : ∀ d ∈ q.diagnostics, d.offset ≤ (q.tokenAt k).first

namespace Ordered

variable {d : Diagnostic}

lemma first_current_le (h : q.Ordered k) : q.current.first ≤ q.lookahead.first := by
  have hsorted := h.tokens
  cases hl : q.lexemes with
  | nil => simp [current, lookahead, tokenAt, hl]
  | cons l ls =>
    have hstream : q.stream = q.current :: q.advance.stream := by
      simp [stream, Parser.tokens, current, tokenAt, hl]
    rw [hstream, List.pairwise_cons] at hsorted
    refine hsorted.1 _ ?_
    have hnext := getElem?_stream q.advance 0
    rw [Nat.zero_min] at hnext
    exact current_advance q ▸ List.mem_of_getElem? hnext

lemma mono (h : q.Ordered 0) : q.Ordered 1 :=
  ⟨h.tokens, h.diagnostics, fun d hd => (h.offset_le d hd).trans h.first_current_le⟩

/-- What a token tells when it becomes current lies behind all that was told before. -/
lemma advance (h : q.Ordered 1) : q.advance.Ordered 0 := by
  have hle : ∀ d ∈ q.advance.diagnostics, d.offset ≤ (q.advance.tokenAt 0).first := by
    intro d hd
    rw [tokenAt_advance]
    rcases mem_diagnostics_advance hd with hold | ⟨l, -, hwrong, htoken⟩
    · exact h.offset_le d hold
    · rw [Diagnostic.offset, Lexeme.position_of_diagnostic? hwrong, htoken]
      exact le_rfl
  refine ⟨h.tokens.sublist q.stream_advance_sublist, ?_, hle⟩
  rw [Parser.advance, Array.toList_appendList, List.pairwise_append]
  have hfound : ∀ d ∈ q.lexemes[1]?.toList.filterMap Lexeme.diagnostic?,
      d.offset = (q.tokenAt 1).first := by
    intro d hd
    obtain ⟨l, hl, hwrong⟩ := List.mem_filterMap.1 hd
    rw [Option.mem_toList] at hl
    rw [Diagnostic.offset, Lexeme.position_of_diagnostic? hwrong, tokenAt, hl]
    rfl
  refine ⟨h.diagnostics, List.pairwise_of_forall_mem_list fun d hd e he => ?_, fun d hd e he => ?_⟩
  · rw [hfound d hd, hfound e he]
  · rw [hfound e he]
    exact h.offset_le d (Array.mem_toList_iff.1 hd)

/-- What lies behind all that was told may be told next. -/
lemma record (h : q.Ordered 0) (hle : q.current.first ≤ d.offset)
    (hk : d.offset ≤ (q.tokenAt k).first) : (q.record d).Ordered k := by
  refine ⟨h.tokens, ?_, fun e he => ?_⟩
  · rw [Parser.record, Array.toList_push, List.pairwise_append]
    refine ⟨h.diagnostics, List.pairwise_singleton _ _, fun e he e' he' => ?_⟩
    obtain rfl := List.mem_singleton.1 he'
    exact (h.offset_le e (Array.mem_toList_iff.1 he)).trans hle
  · rcases Array.mem_push.1 he with hold | rfl
    · exact ((h.offset_le e hold).trans hle).trans hk
    · exact hk

/-- A diagnostic about a token in the window lies behind all that was told. -/
lemma record_of_raises {Holds : Parser → Prop} (h : q.Ordered 0) (hd : q.Raises Holds d) :
    (q.record d).Ordered 1 := by
  rcases hd.position_eq with hplace | hplace
  · have hfirst : d.offset = q.current.first := congrArg (fun place => place.offset.toNat) hplace
    exact h.record hfirst.ge (hfirst.le.trans h.first_current_le)
  · have hfirst : d.offset = q.lookahead.first := congrArg (fun place => place.offset.toNat) hplace
    exact h.record (h.first_current_le.trans hfirst.ge) hfirst.le

lemma start (hlen : source.length < 2 ^ 32) : (start source label?).Ordered 0 := by
  have hfirst : ∀ d ∈ (Parser.start source label?).diagnostics.toList,
      d.offset = (Parser.start source label?).current.first := by
    intro d hd
    rw [diagnostics_start] at hd
    obtain ⟨l, hl, hwrong⟩ := List.mem_filterMap.1 hd
    rw [Option.mem_toList, List.head?_eq_getElem?] at hl
    rw [Diagnostic.offset, Lexeme.position_of_diagnostic? hwrong, current, tokenAt, hl]
    rfl
  refine ⟨?_, List.pairwise_of_forall_mem_list fun d hd e he => ?_, fun d hd => ?_⟩
  · rw [stream, ← tokenize_eq_start]
    exact (tokenize_pairwise_first hlen label?).imp le_of_lt
  · rw [hfirst d hd, hfirst e he]
  · exact (hfirst d (Array.mem_toList_iff.2 hd)).le

end Ordered

/-- The order of the diagnostics is an invariant.  Recovery moves the window at least once, so that what
was told of the lookahead is behind it. -/
def ordered : Invariant where
  Holds := Ordered 0
  Entered := Ordered 0
  entered_of_holds h := h
  advance h := h.mono.advance
  advance_of_entered h _ := h.mono.advance
  enter h := ⟨h.tokens, h.diagnostics, h.offset_le⟩
  leave h := ⟨h.tokens, h.diagnostics, h.offset_le⟩
  recover _ h hd :=
    (synchronize_induction (motive := Ordered 1) (fun _ h => h.advance.mono)
      (h.record_of_raises hd)).advance
  close h hd hclose := by
    have hfirst := congrArg (fun place => place.offset.toNat) (hd.position_of_closesBlock hclose)
    exact h.record hfirst.ge hfirst.le

end Parser

/-- No token of a source starts behind its last character. -/
lemma first_le_of_mem_tokenize (hlen : source.length < 2 ^ 32) {t : Token}
    (ht : t ∈ tokenize source label?) : t.first ≤ source.length := by
  have h := isTokenization_scan hlen (label?.getD defaultLabel)
  rw [tokenize_eq_scan, List.mem_append, List.mem_singleton] at ht
  rcases ht with ht | rfl
  · rw [← String.length_toList]
    exact (h.first_lt_past t ht).le.trans (h.past_le t ht)
  · exact (Nat.mod_eq_of_lt hlen).le

/-- The diagnostics come in the order of the source, those about tokens by themselves and those about the
grammar together, and none of them is about a place behind its end. -/
theorem parse_diagnostics_ordered (source : String) (label? : Option String)
    (hlen : source.length < 2 ^ 32) :
    ((parse source label?).diagnostics.map Diagnostic.offset).Pairwise (· ≤ ·) ∧
      ∀ d ∈ (parse source label?).diagnostics, d.offset ≤ source.length := by
  refine ⟨?_, fun d hd => ?_⟩
  · obtain ⟨q, hq, hdiagnostics⟩ := Parser.ordered.holds_parse (Parser.Ordered.start hlen)
    rw [hdiagnostics, List.pairwise_map]
    exact hq.diagnostics
  · obtain ⟨i, t, hget, hplace, -⟩ := fits_of_mem_parse hlen hd
    rw [Diagnostic.offset, ← hplace]
    exact first_le_of_mem_tokenize hlen (List.mem_of_getElem? hget)

/-- A block that the source does not close, around a faulty statement and in front of a string without a
closing quote. -/
theorem parse_diagnostics_ordered_open_block :
    "fn(x) \x7b let = 1; \"a".length < 2 ^ 32 ∧
      (parse "fn(x) \x7b let = 1; \"a" none).diagnostics.map Diagnostic.offset = [12, 17, 19] ∧
      ((parse "fn(x) \x7b let = 1; \"a" none).diagnostics.map Diagnostic.offset).Pairwise (· ≤ ·) ∧
      ∀ d ∈ (parse "fn(x) \x7b let = 1; \"a" none).diagnostics, d.offset ≤ 19 :=
  ⟨by decide, by decide +kernel, parse_diagnostics_ordered "fn(x) \x7b let = 1; \"a" none (by decide)⟩

/-! ## Strings without a closing quote -/

/-- The diagnostics about tokens by themselves are those of the tokens of the source, each told once. -/
theorem filter_isLexical_parse (source : String) (label? : Option String) :
    (parse source label?).diagnostics.filter Diagnostic.isLexical =
      (scan (label?.getD defaultLabel) 0 source.toList).filterMap Lexeme.diagnostic? := by
  have hcourse := statements_course (expressionAt maxNesting) false
    (Parser.start source label?).lexemes (.start source label?)
  have hnil := lexemes_statementList_start source label? maxNesting
  rw [statementList] at hnil
  obtain ⟨m, hlexemes, hlexical⟩ := hcourse.exists_drop
  rw [hnil, eq_comm, List.drop_eq_nil_iff] at hlexemes
  rw [diagnostics_parse, statementList, hlexical, Parser.diagnostics_start,
    List.take_of_length_le (by rw [List.length_tail]; omega), ← Parser.lexemes_start source label?]
  -- the first token tells what is wrong with it before the window moves
  rw [filter_isLexical_filterMap, ← List.filterMap_append]
  cases (Parser.start source label?).lexemes <;> rfl

/-- A string without a closing quote is told of just if the quotes of the source are odd in number, and
then once, whatever else is wrong: it opens at the last quote, and its text is all that follows. -/
theorem parse_unterminated_iff_odd (source : String) (label? : Option String)
    (hlen : source.length < 2 ^ 32) :
    ((∃ d ∈ (parse source label?).diagnostics, d.isLexical = true) ↔
      Odd (source.toList.count '"')) ∧
    (Odd (source.toList.count '"') →
      ∃ front back d, source.toList = front ++ '"' :: back ∧ '"' ∉ back ∧
        (parse source label?).diagnostics.filter Diagnostic.isLexical = [d] ∧
        d.fault = .unterminatedString (.ofList back) ∧ d.offset = front.length) := by
  have hodd : Odd (source.toList.count '"') →
      ∃ front back d, source.toList = front ++ '"' :: back ∧ '"' ∉ back ∧
        (parse source label?).diagnostics.filter Diagnostic.isLexical = [d] ∧
        d.fault = .unterminatedString (.ofList back) ∧ d.offset = front.length := by
    intro h
    obtain ⟨front, back, hsplit, hback, hfront⟩ := exists_last_quote h
    have hlength : front.length < source.length := by
      rw [← String.length_toList, hsplit, List.length_append, List.length_cons]
      omega
    let place : Position := ⟨.ofNat front.length, label?.getD defaultLabel⟩
    refine ⟨front, back, ⟨.unterminatedString (.ofList back), place⟩, hsplit, hback, ?_, rfl,
      Nat.mod_eq_of_lt (hlength.trans hlen)⟩
    rw [filter_isLexical_parse, hsplit, filterMap_diagnostic?_scan_unclosed hfront hback,
      Nat.zero_add]
  refine ⟨⟨fun ⟨d, hd, hlexical⟩ => ?_, fun h => ?_⟩, hodd⟩
  · rw [← Nat.not_even_iff_odd]
    intro heven
    have hmem := List.mem_filter.2 ⟨hd, hlexical⟩
    rw [filter_isLexical_parse, filterMap_diagnostic?_scan heven] at hmem
    exact List.not_mem_nil hmem
  · obtain ⟨front, back, d, -, -, hd, -⟩ := hodd h
    exact ⟨d, List.mem_filter.1 (hd ▸ List.mem_singleton_self d)⟩

/-- Three quotes behind a `let` that is missing its name: the string that the last of them opens is told
of once, behind the other fault. -/
theorem parse_unterminated_third_quote :
    "let = \"a\" + \"b;".length < 2 ^ 32 ∧ Odd ("let = \"a\" + \"b;".toList.count '"') ∧
      ∃ front back d, "let = \"a\" + \"b;".toList = front ++ '"' :: back ∧ '"' ∉ back ∧
        (parse "let = \"a\" + \"b;" none).diagnostics.filter Diagnostic.isLexical = [d] ∧
        d.fault = .unterminatedString (.ofList back) ∧ d.offset = front.length :=
  ⟨by decide, by decide,
    (parse_unterminated_iff_odd "let = \"a\" + \"b;" none (by decide)).2 (by decide)⟩

end ScriptSyntax
