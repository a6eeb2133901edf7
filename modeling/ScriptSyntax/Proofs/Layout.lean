import ScriptSyntax.Proofs.Diagnostics
import ScriptSyntax.Proofs.Parser.Relocation

/-!
# Layout and labels

A parse depends on the kinds and the texts of the tokens of its source, and on whether a string is left
open.  Where the tokens stand, what spaces are between them and how the source is called has no part in
it: two sources with the same tokens have the same program but for places, and the same diagnostics, each
about the token with the same number.

Places of one source have no counterpart in the other by themselves, since a token may start where the one
before it stops in one of them and further on in the other.  So both are compared with a third parser,
whose places say no more than the number of the token that starts or stops there.  What it finds is moved
to either source.

## Main statements

* `Parser.moved_counting`: a source is what the counting parser sees, at other places.
* `parse_of_same_tokens`: sources with the same tokens are parsed alike.
-/

namespace ScriptSyntax

open Rule

/-! ## Tokens without places -/

/-- The token without its place. -/
def Lexeme.unplaced (l : Lexeme) : Lexeme := l.relocate fun _ => default

lemma Lexeme.unplaced_eq_iff {l l' : Lexeme} :
    l.unplaced = l'.unplaced ↔
      (l.token.kind, l.token.text) = (l'.token.kind, l'.token.text) ∧ l.closed = l'.closed := by
  obtain ⟨⟨kind, text, span⟩, closed⟩ := l
  obtain ⟨⟨kind', text', span'⟩, closed'⟩ := l'
  simp [unplaced, relocate, Token.relocate, Span.relocate, and_assoc]

lemma map_unplaced_eq {ls ls' : List Lexeme}
    (htokens : ls.map (fun l => (l.token.kind, l.token.text)) =
      ls'.map (fun l => (l.token.kind, l.token.text)))
    (hclosed : ls.map Lexeme.closed = ls'.map Lexeme.closed) :
    ls.map Lexeme.unplaced = ls'.map Lexeme.unplaced := by
  induction ls generalizing ls' with
  | nil => cases ls' <;> simp_all
  | cons l ls ih =>
    cases ls' with
    | nil => simp at htokens
    | cons l' ls' =>
      rw [List.map_cons, List.map_cons, List.cons.injEq] at htokens hclosed
      rw [List.map_cons, List.map_cons, ih htokens.2 hclosed.2,
        Lexeme.unplaced_eq_iff.2 ⟨htokens.1, hclosed.1⟩]

/-! ## A parser that counts its tokens -/

/-- The place that says no more than that the token with number `i` starts or stops there. -/
def countedSpan (i : ℕ) : Span := ⟨⟨.ofNat i, "start"⟩, ⟨.ofNat i, "stop"⟩⟩

/-- The token at a place that says no more than its number. -/
def Lexeme.counted (i : ℕ) (l : Lexeme) : Lexeme :=
  ⟨⟨l.token.kind, l.token.text, countedSpan i⟩, l.closed⟩

namespace Parser

/-- The parser of a source with these tokens, if they stood at places that count them. -/
def counting (ls : List Lexeme) : Parser where
  lexemes := ls.mapIdx Lexeme.counted
  finish := (countedSpan ls.length).start
  diagnostics := ((ls.mapIdx Lexeme.counted).head?.toList.filterMap Lexeme.diagnostic?).toArray
  depth := 0
  transcript := #[]

/-- Where the counting places are among the tokens of `p`. -/
def placeOf (p : Parser) (place : Position) : Position :=
  let span := (p.tokenAt place.offset.toNat).span
  if place.label = "start" then span.start else span.stop

/-- The parser with the places of its tokens and of its diagnostics moved by `f`. -/
def relocate (f : Position → Position) (p : Parser) : Parser where
  lexemes := p.lexemes.map (Lexeme.relocate f)
  finish := f p.finish
  diagnostics := p.diagnostics.map (Diagnostic.relocate f)
  depth := p.depth
  transcript := #[]

lemma moved_relocate (f : Position → Position) (p : Parser) : p.Moved f [] (p.relocate f) :=
  ⟨rfl, rfl, by simp [relocate], rfl⟩

variable {source source' : String} {label? label?' : Option String} {p : Parser}

/-- What is wrong with tokens by themselves moves with them. -/
lemma filterMap_diagnostic?_relocate (f : Position → Position) (ls : List Lexeme) :
    (ls.map (Lexeme.relocate f)).filterMap Lexeme.diagnostic? =
      (ls.filterMap Lexeme.diagnostic?).map (Diagnostic.relocate f) := by
  rw [List.filterMap_map, List.map_filterMap]
  exact List.filterMap_congr fun l _ => l.diagnostic?_relocate f

lemma counting_congr {ls ls' : List Lexeme} (h : ls.map Lexeme.unplaced = ls'.map Lexeme.unplaced) :
    counting ls = counting ls' := by
  have hlexemes : ls.mapIdx Lexeme.counted = ls'.mapIdx Lexeme.counted := by
    refine List.ext_getElem? fun i => ?_
    have hi := congrArg (·[i]?) h
    simp only [List.getElem?_map] at hi
    rw [List.getElem?_mapIdx, List.getElem?_mapIdx]
    cases hl : ls[i]? <;> cases hl' : ls'[i]? <;> simp only [hl, hl', Option.map_some,
      Option.map_none, Option.some.injEq, reduceCtorEq] at hi ⊢
    obtain ⟨hcontent, hclosed⟩ := Lexeme.unplaced_eq_iff.1 hi
    rw [Prod.mk.injEq] at hcontent
    rw [Lexeme.counted, Lexeme.counted, hcontent.1, hcontent.2, hclosed]
  have hlength : ls.length = ls'.length := by simpa using congrArg List.length h
  rw [counting, counting, hlexemes, hlength]

/-- The place that counts a token is where the token stands. -/
lemma placeOf_countedSpan {i : ℕ} (hi : i < 2 ^ 32) :
    (countedSpan i).relocate p.placeOf = (p.tokenAt i).span := by
  have hnumber : (UInt32.ofNat i).toNat = i := UInt32.toNat_ofNat_of_lt' hi
  simp [countedSpan, Span.relocate, placeOf, hnumber]

/-- A parser that has told of its current token alone sees what the counting parser sees, at other
places. -/
lemma moved_counting (hcount : p.lexemes.length < 2 ^ 32) (hdepth : p.depth = 0)
    (hdiagnostics : p.diagnostics.toList = p.lexemes.head?.toList.filterMap Lexeme.diagnostic?) :
    (counting p.lexemes).Moved p.placeOf [] p := by
  have hlexemes : p.lexemes = (p.lexemes.mapIdx Lexeme.counted).map (Lexeme.relocate p.placeOf) := by
    refine List.ext_getElem (by simp) fun i hi _ => ?_
    have hspan := placeOf_countedSpan (p := p) (hi.trans hcount)
    rw [tokenAt, List.getElem?_eq_getElem hi] at hspan
    simp only [List.getElem_map, List.getElem_mapIdx, Lexeme.counted, Lexeme.relocate,
      Token.relocate, hspan]
    rfl
  refine ⟨hlexemes, ?_, ?_, hdepth⟩
  · have hspan := placeOf_countedSpan (p := p) hcount
    rw [tokenAt, List.getElem?_eq_none le_rfl] at hspan
    exact (congrArg Span.start hspan).symm
  · have hhead : p.lexemes.head?.toList =
        (p.lexemes.mapIdx Lexeme.counted).head?.toList.map (Lexeme.relocate p.placeOf) := by
      conv_lhs => rw [hlexemes, List.head?_map, Option.toList_map]
    rw [hdiagnostics, hhead, filterMap_diagnostic?_relocate]
    rfl

lemma length_lexemes_start_lt (hlen : source.length < 2 ^ 32) (label? : Option String) :
    (start source label?).lexemes.length < 2 ^ 32 := by
  rw [lexemes_start]
  exact (length_scan_le _ _ _).trans_lt (by rwa [String.length_toList])

/-- A source is what the counting parser sees, at other places. -/
theorem moved_counting_start (hlen : source.length < 2 ^ 32) (label? : Option String) :
    (counting (start source label?).lexemes).Moved (start source label?).placeOf []
      (start source label?) :=
  moved_counting (length_lexemes_start_lt hlen label?) rfl (diagnostics_start source label?)

/-- The tokens of the counting parser are at the places of their numbers. -/
lemma position_tokenAt_counting (ls : List Lexeme) (i : ℕ) :
    ∃ k ≤ ls.length, ((counting ls).tokenAt i).position = (countedSpan k).start := by
  rcases lt_or_ge i ls.length with hi | hi
  · exact ⟨i, hi.le, by simp [tokenAt, counting, hi, Lexeme.counted, Token.position]⟩
  · exact ⟨ls.length, le_rfl, by simp [tokenAt, counting, hi, Token.position, Token.endOfInput]⟩

/-- Along a course the tokens in the window are those of the first parser. -/
lemma Course.exists_tokenAt {p q : Parser} (h : p.Course q) (i : ℕ) :
    ∃ k, q.tokenAt i = p.tokenAt k := by
  obtain ⟨m, hlexemes, -⟩ := h.exists_drop
  exact ⟨m + i, by rw [tokenAt, tokenAt, hlexemes, List.getElem?_drop, h.trail.finish_eq]⟩

/-- Along a course every diagnostic that is told is about one of the tokens of the first parser. -/
lemma Course.position_of_mem {p q : Parser} (h : p.Course q) {d : Diagnostic}
    (hd : d ∈ q.diagnostics) : d ∈ p.diagnostics ∨ ∃ k, d.position = (p.tokenAt k).position := by
  induction h with
  | refl => exact .inl hd
  | @advance q h ih =>
    rcases mem_diagnostics_advance hd with hold | ⟨l, -, hwrong, htoken⟩
    · exact ih hold
    · obtain ⟨k, hk⟩ := h.exists_tokenAt 1
      exact .inr ⟨k, by rw [Lexeme.position_of_diagnostic? hwrong, htoken, hk]⟩
  | @record q e he h ih =>
    rcases Array.mem_push.1 hd with hold | rfl
    · exact ih hold
    · obtain ⟨i, hi⟩ : ∃ i, d.position = (q.tokenAt i).position :=
        he.position_eq.elim (fun h => ⟨0, h⟩) fun h => ⟨1, h⟩
      obtain ⟨k, hk⟩ := h.exists_tokenAt i
      exact .inr ⟨k, by rw [hi, hk]⟩

/-- Every diagnostic of the counting parser is at the place of a token, by its number. -/
lemma position_of_mem_counting {ls : List Lexeme} {q : Parser} (h : (counting ls).Course q)
    {d : Diagnostic} (hd : d ∈ q.diagnostics) :
    ∃ i ≤ ls.length, d.position = (countedSpan i).start := by
  obtain ⟨i, hi⟩ : ∃ i, d.position = ((counting ls).tokenAt i).position := by
    refine (h.position_of_mem hd).elim (fun hstart => ⟨0, ?_⟩) id
    obtain ⟨l, hl, hwrong⟩ := List.mem_filterMap.1 (Array.mem_toList_iff.2 hstart)
    rw [Option.mem_toList, List.head?_eq_getElem?] at hl
    rw [Lexeme.position_of_diagnostic? hwrong, tokenAt]
    simp only [counting, hl]
    rfl
  obtain ⟨k, hk, hplace⟩ := position_tokenAt_counting ls i
  exact ⟨k, hk, hi.trans hplace⟩

/-- The tokens of a source by their numbers, the end marker with them. -/
lemma getElem?_tokenize {i : ℕ} (hi : i ≤ (start source label?).lexemes.length) :
    (tokenize source label?)[i]? = some ((start source label?).tokenAt i) := by
  rw [tokenize_eq_start, ← stream, ← getElem?_stream, Nat.min_eq_left hi]

end Parser

/-! ## Sources with the same tokens -/

/-- The diagnostics say the same of tokens with the same number, `d` of one of `ts` and `d'` of one of
`ts'`. -/
structure Diagnostic.Corresponds (ts ts' : List Token) (d d' : Diagnostic) : Prop where
  fault_eq : d'.fault = d.fault
  exists_token : ∃ (i : ℕ) (t t' : Token), ts[i]? = some t ∧ ts'[i]? = some t' ∧
    d.position = t.position ∧ d'.position = t'.position

variable {source source' : String} {label? label?' : Option String}

/-- Every token of a source starts in it, or at its end. -/
lemma position_of_mem_tokenize {t : Token} (h : t ∈ tokenize source label?) :
    ∃ k ≤ source.length, t.position = ⟨.ofNat k, label?.getD defaultLabel⟩ := by
  rw [tokenize_eq_scan, List.mem_append, List.mem_map, List.mem_singleton] at h
  rcases h with ⟨l, hl, rfl⟩ | rfl
  · obtain ⟨k, hk, hplace⟩ := position_of_mem_scan hl
    rw [String.length_toList] at hk
    rw [Nat.zero_add] at hplace
    exact ⟨k, hk.le, hplace⟩
  · exact ⟨source.length, le_rfl, rfl⟩

/-- Every token has the label of its source. -/
lemma label_of_mem_tokenize {t : Token} (h : t ∈ tokenize source label?) :
    t.position.label = label?.getD "shell" := by
  obtain ⟨k, -, hplace⟩ := position_of_mem_tokenize h
  rw [hplace]
  rfl

/-- Sources whose tokens agree in kind and text, and whose quotes are odd in number in both or in
neither, have the same tokens but for places. -/
lemma map_unplaced_start
    (htokens : (tokenize source label?).map (fun t => (t.kind, t.text)) =
      (tokenize source' label?').map (fun t => (t.kind, t.text)))
    (hquotes : Even (source.toList.count '"') ↔ Even (source'.toList.count '"')) :
    (Parser.start source label?).lexemes.map Lexeme.unplaced =
      (Parser.start source' label?').lexemes.map Lexeme.unplaced := by
  rw [tokenize_eq_scan, tokenize_eq_scan, List.map_append, List.map_append] at htokens
  have hcontents := List.append_inj_left' htokens rfl
  rw [List.map_map, List.map_map] at hcontents
  have hlength := by simpa using congrArg List.length hcontents
  rw [Parser.lexemes_start, Parser.lexemes_start]
  refine map_unplaced_eq hcontents ?_
  simp only [map_closed_scan, hlength, hquotes]

lemma Parser.relocate_start_congr
    (h : (Parser.start source label?).lexemes.map Lexeme.unplaced =
      (Parser.start source' label?').lexemes.map Lexeme.unplaced) :
    (Parser.start source label?).relocate (fun _ => default) =
      (Parser.start source' label?').relocate (fun _ => default) := by
  have hstart : ∀ (source : String) (label? : Option String),
      (Parser.start source label?).diagnostics.map (Diagnostic.relocate fun _ => default) =
        (((Parser.start source label?).lexemes.map Lexeme.unplaced).head?.toList.filterMap
          Lexeme.diagnostic?).toArray := fun source label? => by
    rw [← Array.toList_inj, Array.toList_map, Parser.diagnostics_start, List.head?_map,
      Option.toList_map, ← filterMap_diagnostic?_relocate]
    rfl
  have hlexemes : (Parser.start source label?).lexemes.map (Lexeme.relocate fun _ => default) =
      (Parser.start source' label?').lexemes.map (Lexeme.relocate fun _ => default) := h
  rw [Parser.relocate, Parser.relocate, hstart, hstart, h, hlexemes, Parser.depth_start,
    Parser.depth_start]

/-- The program of a source but for places depends on its tokens but for places. -/
lemma unplaced_program_congr
    (h : (Parser.start source label?).lexemes.map Lexeme.unplaced =
      (Parser.start source' label?').lexemes.map Lexeme.unplaced) :
    (parse source label?).program.unplaced = (parse source' label?').program.unplaced := by
  have hmoved : ∀ (source : String) (label? : Option String),
      (parse source label?).program.unplaced =
        (statementList (expressionAt maxNesting) false
          ((Parser.start source label?).relocate fun _ => default)).1 := fun source label? => by
    rw [(statementList_moved (Parser.moved_relocate _ _) maxNesting false).1, ← program_parse]
    rfl
  rw [hmoved, hmoved, Parser.relocate_start_congr h]

/-- The diagnostics of a source are those of the counting parser, moved to where its tokens stand. -/
lemma diagnostics_parse_eq_map (hlen : source.length < 2 ^ 32) :
    (parse source label?).diagnostics =
      (statementList (expressionAt maxNesting) false
        (Parser.counting (Parser.start source label?).lexemes)).2.diagnostics.toList.map
        (Diagnostic.relocate (Parser.start source label?).placeOf) := by
  have hmoved := (statementList_moved (Parser.moved_counting_start hlen label?) maxNesting false).2
  rw [diagnostics_parse, hmoved.diagnostics_eq, List.nil_append]

/-- A source is parsed by its tokens.  Two sources whose tokens agree in kind and text one by one, and
whose quotes are odd in number in both or in neither, have the same program but for places.  Their
diagnostics say the same, one by one, of tokens with the same number, and each carries the label of its
own source. -/
theorem parse_of_same_tokens (source source' : String) (label? label?' : Option String)
    (hlen : source.length < 2 ^ 32) (hlen' : source'.length < 2 ^ 32)
    (htokens : (tokenize source label?).map (fun t => (t.kind, t.text)) =
      (tokenize source' label?').map (fun t => (t.kind, t.text)))
    (hquotes : Even (source.toList.count '"') ↔ Even (source'.toList.count '"')) :
    (parse source label?).program.unplaced = (parse source' label?').program.unplaced ∧
      List.Forall₂
        (Diagnostic.Corresponds (tokenize source label?) (tokenize source' label?'))
        (parse source label?).diagnostics (parse source' label?').diagnostics ∧
      (∀ d ∈ (parse source label?).diagnostics, d.position.label = label?.getD "shell") ∧
      ∀ d ∈ (parse source' label?').diagnostics, d.position.label = label?'.getD "shell" := by
  have hsame := map_unplaced_start htokens hquotes
  have hlabel : ∀ {source : String} {label? : Option String}, source.length < 2 ^ 32 →
      ∀ d ∈ (parse source label?).diagnostics, d.position.label = label?.getD "shell" := by
    intro source label? hlen d hd
    obtain ⟨i, t, hget, hplace, -⟩ := fits_of_mem_parse hlen hd
    rw [← hplace]
    exact label_of_mem_tokenize (List.mem_of_getElem? hget)
  refine ⟨unplaced_program_congr hsame, ?_, hlabel hlen, hlabel hlen'⟩
  rw [diagnostics_parse_eq_map hlen, diagnostics_parse_eq_map hlen',
    ← Parser.counting_congr hsame, List.forall₂_map_left_iff, List.forall₂_map_right_iff,
    List.forall₂_same]
  intro d hd
  have hcourse := statements_course (expressionAt maxNesting) false
    (Parser.counting (Parser.start source label?).lexemes).lexemes
    (Parser.counting (Parser.start source label?).lexemes)
  obtain ⟨i, hi, hplace⟩ := Parser.position_of_mem_counting hcourse (Array.mem_toList_iff.1 hd)
  have hi' : i ≤ (Parser.start source' label?').lexemes.length := by
    simpa using hi.trans_eq (by simpa using congrArg List.length hsame)
  have hcount := hi.trans_lt (Parser.length_lexemes_start_lt hlen label?)
  refine ⟨rfl, i, _, _, Parser.getElem?_tokenize hi, Parser.getElem?_tokenize hi', ?_, ?_⟩
  · rw [Diagnostic.relocate, hplace]
    exact congrArg Span.start (Parser.placeOf_countedSpan hcount)
  · rw [Diagnostic.relocate, hplace]
    exact congrArg Span.start (Parser.placeOf_countedSpan hcount)

/-- A faulty sum without spaces, and the same sum on two lines of another source. -/
theorem parse_of_same_tokens_sum :
    "let x=1+;\"a".length < 2 ^ 32 ∧ "let x = 1 +\n  ; \"a".length < 2 ^ 32 ∧
      (tokenize "let x=1+;\"a" none).map (fun t => (t.kind, t.text)) =
        (tokenize "let x = 1 +\n  ; \"a" (some "two")).map (fun t => (t.kind, t.text)) ∧
      (Even ("let x=1+;\"a".toList.count '"') ↔
        Even ("let x = 1 +\n  ; \"a".toList.count '"')) ∧
      (parse "let x=1+;\"a" none).diagnostics.map Diagnostic.position =
        [⟨8, "shell"⟩, ⟨9, "shell"⟩] ∧
      (parse "let x = 1 +\n  ; \"a" (some "two")).diagnostics.map Diagnostic.position =
        [⟨14, "two"⟩, ⟨16, "two"⟩] ∧
      List.Forall₂
        (Diagnostic.Corresponds (tokenize "let x=1+;\"a" none)
          (tokenize "let x = 1 +\n  ; \"a" (some "two")))
        (parse "let x=1+;\"a" none).diagnostics
        (parse "let x = 1 +\n  ; \"a" (some "two")).diagnostics := by
  have htokens : (tokenize "let x=1+;\"a" none).map (fun t => (t.kind, t.text)) =
      (tokenize "let x = 1 +\n  ; \"a" (some "two")).map (fun t => (t.kind, t.text)) := by
    decide +kernel
  have hquotes : Even ("let x=1+;\"a".toList.count '"') ↔
      Even ("let x = 1 +\n  ; \"a".toList.count '"') := by decide +kernel
  exact ⟨by decide, by decide, htokens, hquotes, by decide +kernel, by decide +kernel,
    (parse_of_same_tokens _ _ none (some "two") (by decide) (by decide) htokens hquotes).2.1⟩

end ScriptSyntax
