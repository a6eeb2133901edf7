import ScriptSyntax.Diagnostic.Report
import ScriptSyntax.Proofs.Layout
import ScriptSyntax.Proofs.Lines
import ScriptSyntax.Proofs.Parser.Continuation

/-!
# Reports of diagnostics

The report of a diagnostic shows the line that the diagnostic is about, with a caret under the first
character of the token at fault.  That the caret stands there has to do with all that is in front of
it: the number of the line is as wide as the space under it, the spaces and tabs that are left out at
the start of the line are left out of the dashes too, and no token starts among them.

## Main statements

* `Diagnostic.feed_not_mem_message`: a message stands on one line.
* `LinePlace.exists_trims`: what a report leaves out of a line, and what it shows.
* `parse_report`: the report of a diagnostic, and what stands above its caret.
* `parse_report_wrapped`: a place that does not fit its word is found in the indentation.
-/

namespace ScriptSyntax

/-! ## Messages of one line -/

lemma feed_not_mem_toDigits {b : ℕ} (hb : 1 < b) (n : ℕ) : '\n' ∉ Nat.toDigits b n := by
  have hdigit : ∀ k : ℕ, '\n' ≠ k.digitChar := fun k => (Nat.digitChar_ne '\n' (by decide)).symm
  induction n using Nat.base_induction b hb with
  | single m hm =>
    rw [Nat.toDigits_of_lt_base hm, List.mem_singleton]
    exact hdigit m
  | digit m k hk hm ih =>
    rw [← Nat.toDigits_append_toDigits hb hm hk, List.mem_append, Nat.toDigits_of_lt_base hk,
      List.mem_singleton]
    exact not_or.2 ⟨ih, hdigit k⟩

/-- The written form of a character is no line feed, not even that of the line feed. -/
lemma feed_not_mem_escapeChar (c : Char) : '\n' ∉ escapeChar c := by
  unfold escapeChar
  split
  case h_1 letter hletter =>
    unfold escapeLetter? at hletter
    split at hletter <;> cases hletter <;> decide
  case h_2 hletter =>
    split
    · rw [List.mem_singleton]
      rintro rfl
      cases hletter
    · have hdigits := feed_not_mem_toDigits (b := 16) (by decide) c.toNat
      simp [codePointEscape, hdigits]

lemma feed_not_mem_quoted (s : String) : '\n' ∉ (quoted s).toList := by
  simp [quoted, feed_not_mem_escapeChar]

lemma TokenKind.feed_not_mem_name (kind : TokenKind) : '\n' ∉ kind.name.toList := by
  cases kind <;> decide

lemma feed_not_mem_append {s s' : String} (h : '\n' ∉ s.toList) (h' : '\n' ∉ s'.toList) :
    '\n' ∉ (s ++ s').toList := by
  rw [String.toList_append, List.mem_append]
  exact not_or.2 ⟨h, h'⟩

/-- A message stands on one line, whatever is in the source. -/
theorem Diagnostic.feed_not_mem_message (d : Diagnostic) : '\n' ∉ d.message.toList := by
  rw [message]
  cases d.fault with
  | expectedToken expected received =>
    refine feed_not_mem_append (feed_not_mem_append (feed_not_mem_append (feed_not_mem_append
      (by decide) ?_) (by decide)) ?_) (by decide)
    · exact expected.feed_not_mem_name
    · exact received.feed_not_mem_name
  | noOperand kind =>
    exact feed_not_mem_append (feed_not_mem_append (by decide) kind.feed_not_mem_name) (by decide)
  | integerRange text =>
    exact feed_not_mem_append (feed_not_mem_append (by decide) (feed_not_mem_quoted text)) (by decide)
  | unterminatedString text => exact feed_not_mem_append (by decide) (feed_not_mem_quoted text)
  | nestingTooDeep limit =>
    have hlimit : '\n' ∉ (toString limit).toList := by
      rw [Nat.toString_eq_repr, Nat.toList_repr]
      exact feed_not_mem_toDigits (by decide) limit
    exact feed_not_mem_append (feed_not_mem_append (by decide) hlimit) (by decide)

/-! ## What is shown of a line -/

/-- A line cut into the spaces and tabs that open it, what is shown of it, and the blank characters at
its end. -/
structure Trims (row indent shown blank : List Char) : Prop where
  row_eq : row = indent ++ (shown ++ blank)
  indents : ∀ c ∈ indent, c = ' ' ∨ c = '\t'
  head_ne : ∀ c ∈ (shown ++ blank).head?, c ≠ ' ' ∧ c ≠ '\t'
  blanks : ∀ c ∈ blank, isBlank c = true
  last_not_blank : ∀ c ∈ shown.getLast?, isBlank c = false

lemma isIndent_iff {c : Char} : isIndent c = true ↔ c = ' ' ∨ c = '\t' := by
  simp [isIndent]

/-- What a report shows of a line. -/
lemma LinePlace.exists_trims (l : LinePlace) :
    ∃ indent blank, Trims l.text indent l.shown.toList blank ∧ indent.length = l.indent := by
  have hshown : l.shown.toList = trimEnd (l.text.dropWhile isIndent) := String.toList_ofList
  have hrest := trimEnd_append (l.text.dropWhile isIndent)
  refine ⟨_, ((l.text.dropWhile isIndent).reverse.takeWhile isBlank).reverse,
    ⟨?_, ?_, ?_, ?_, ?_⟩, rfl⟩
  · rw [hshown, hrest, List.takeWhile_append_dropWhile]
  · exact fun c hc => isIndent_iff.1 (List.mem_takeWhile_imp hc)
  · intro c hc
    have hfirst := List.head?_dropWhile_not isIndent l.text
    rw [hshown, hrest, Option.mem_def] at hc
    rw [hc] at hfirst
    exact not_or.1 fun h => by simp [isIndent_iff.2 h] at hfirst
  · exact fun c hc => List.mem_takeWhile_imp (List.mem_reverse.1 hc)
  · intro c hc
    have hlast := List.head?_dropWhile_not isBlank (l.text.dropWhile isIndent).reverse
    rw [hshown, trimEnd, List.getLast?_reverse, Option.mem_def] at hc
    rwa [hc] at hlast

namespace Trims

variable {row indent shown blank text : List Char}

/-- No line feed is shown. -/
lemma feed_not_mem (h : Trims row indent shown blank) (hline : IsFirstLine text row) :
    '\n' ∉ shown := by
  intro hmem
  have hne := List.ne_nil_of_mem hmem
  have hlast := h.last_not_blank _ (List.getLast?_eq_some_getLast hne)
  have hfront : '\n' ∈ shown.dropLast := by
    rw [← List.dropLast_append_getLast hne, List.mem_append, List.mem_singleton] at hmem
    refine hmem.resolve_right fun hfeed => ?_
    rw [← hfeed] at hlast
    exact absurd hlast (by decide)
  refine hline.feed_not_mem (h.row_eq ▸ ?_)
  rw [List.dropLast_append_of_ne_nil (by simp [hne]), List.mem_append]
  right
  cases blank with
  | nil => rwa [List.append_nil]
  | cons c blank =>
    rw [List.dropLast_append_of_ne_nil (List.cons_ne_nil c blank)]
    exact List.mem_append_left _ (List.mem_of_mem_dropLast hfront)

/-- A place at which something else than a space or a tab stands is not in the indentation. -/
lemma length_indent_le (h : Trims row indent shown blank) {column : ℕ}
    (hcolumn : ∀ c ∈ row[column]?, c ≠ ' ' ∧ c ≠ '\t') : indent.length ≤ column := by
  by_contra hlt
  rw [not_le] at hlt
  have hmem : indent[column] ∈ row[column]? := by
    rw [h.row_eq, List.getElem?_append_left hlt]
    exact List.getElem?_eq_getElem hlt
  rcases h.indents _ (List.getElem_mem hlt) with hspace | htab
  · exact (hcolumn _ hmem).1 hspace
  · exact (hcolumn _ hmem).2 htab

/-- A line that opens with a space or a tab is indented. -/
lemma length_indent_pos (h : Trims row indent shown blank) {c : Char} (hhead : row[0]? = some c)
    (hc : c = ' ' ∨ c = '\t') : 0 < indent.length := by
  refine List.length_pos_iff.2 ?_
  rintro rfl
  rw [h.row_eq, List.nil_append, ← List.head?_eq_getElem?] at hhead
  exact hc.elim (h.head_ne c hhead).1 (h.head_ne c hhead).2

/-- What is shown of a line stands in it behind the indentation. -/
lemma getElem?_shown (h : Trims row indent shown blank) {column : ℕ}
    (hle : indent.length ≤ column) (hlt : column < indent.length + shown.length) :
    shown[column - indent.length]? = row[column]? := by
  rw [h.row_eq, List.getElem?_append_right hle, List.getElem?_append_left (by omega)]

end Trims

/-! ## Where diagnostics stand -/

section Places

variable {source : String} {label? : Option String} {t : Token} {d : Diagnostic}

/-- Every diagnostic is at the place of a token. -/
lemma exists_token_of_mem_parse (hd : d ∈ (parse source label?).diagnostics) :
    ∃ t ∈ tokenize source label?, t.position = d.position := by
  have hcourse := Rule.statements_course (Rule.expressionAt maxNesting) false
    (Parser.start source label?).lexemes (.start source label?)
  rw [diagnostics_parse, Rule.statementList, Array.mem_toList_iff] at hd
  rw [Parser.tokenize_eq_start, ← Parser.stream]
  rcases hcourse.position_of_mem hd with hstart | ⟨k, hk⟩
  · rw [← Array.mem_toList_iff, Parser.diagnostics_start, List.mem_filterMap] at hstart
    obtain ⟨l, hl, hwrong⟩ := hstart
    refine ⟨l.token, ?_, (Lexeme.position_of_diagnostic? hwrong).symm⟩
    exact List.mem_append_left _ (List.mem_map_of_mem (List.mem_of_mem_head? (by simpa using hl)))
  · exact ⟨_, List.mem_of_getElem? (Parser.getElem?_stream _ k), hk.symm⟩

/-- The label of a diagnostic is that of its source, and the line it stands on is found. -/
lemma exists_lineAt?_of_mem_parse (hd : d ∈ (parse source label?).diagnostics) :
    d.position.label = label?.getD defaultLabel ∧
      ∃ l, lineAt? source d.position.offset = some l := by
  obtain ⟨t, ht, hplace⟩ := exists_token_of_mem_parse hd
  obtain ⟨k, hk, hposition⟩ := position_of_mem_tokenize ht
  rw [← hplace, hposition]
  refine ⟨rfl, Option.ne_none_iff_exists'.1 fun hnone => ?_⟩
  have hlt := lineAt?_eq_none_iff.1 hnone
  have hle := Nat.mod_le k (2 ^ 32)
  rw [UInt32.toNat_ofNat'] at hlt
  omega

/-- What stands where a token starts is the first character of the token, and no space.  At the end of
the source there is none. -/
lemma getElem?_first_of_mem_tokenize (hlen : source.length < 2 ^ 32)
    (ht : t ∈ tokenize source label?) :
    source.toList[t.first]? = (t.covered source.toList).head? ∧
      ∀ c ∈ source.toList[t.first]?, isSpace c = false := by
  have h := isTokenization_scan hlen (label?.getD defaultLabel)
  rw [tokenize_eq_scan, List.mem_append, List.mem_singleton] at ht
  rcases ht with ht | rfl
  · have hlt := h.first_lt_past t ht
    have hin := hlt.trans_le (h.past_le t ht)
    constructor
    · rw [Token.covered, List.head?_take, if_neg (by omega), List.head?_drop]
    · intro c hc
      rw [List.getElem?_eq_getElem hin] at hc
      exact Option.some.inj hc ▸ h.isSpace_eq_false ht hin
  · have hfirst : (Token.endOfInput ⟨.ofNat source.length, label?.getD defaultLabel⟩).first =
        source.toList.length := by
      rw [String.length_toList]
      exact Nat.mod_eq_of_lt hlen
    rw [Token.covered, hfirst, List.getElem?_eq_none le_rfl, List.drop_length, List.take_nil]
    exact ⟨rfl, fun _ hc => absurd hc (by simp)⟩

end Places

/-! ## The lines of a report -/

/-- The lines `top`, `middle` and `bottom` show the place `l` without the `indent` that opens its line,
and say `message` of it. -/
structure LinePlace.Pictured (l : LinePlace) (indent shown : List Char) (message : String)
    (top middle bottom : List Char) : Prop where
  trims : ∃ blank, Trims l.text indent shown blank
  top_eq : top = List.replicate ((toString l.number).length + 1) ' ' ++ ['|']
  middle_eq : middle = (toString l.number).toList ++ ' ' :: '|' :: ' ' :: shown
  bottom_eq : bottom = List.replicate ((toString l.number).length + 1) ' ' ++ '|' :: ' ' ::
    (List.replicate (l.column - indent.length) '-' ++ '^' :: ' ' :: message.toList)
  /-- Each of them is a line. -/
  single : ∀ row ∈ [top, middle, bottom], '\n' ∉ row
  /-- The bars stand one under the other. -/
  bars : ∀ row ∈ [top, middle, bottom], row[(toString l.number).length + 1]? = some '|'
  caret : bottom[(toString l.number).length + 3 + (l.column - indent.length)]? = some '^'

lemma getElem?_append_cons {front back : List Char} {c : Char} {k : ℕ} (h : front.length = k) :
    (front ++ c :: back)[k]? = some c := by
  rw [List.getElem?_append_right h.le, h, Nat.sub_self, List.getElem?_cons_zero]

/-- What is shown of the line stands above the caret and on either side. -/
lemma LinePlace.Pictured.getElem?_middle {l : LinePlace} {indent shown : List Char} {message : String}
    {top middle bottom : List Char} (h : l.Pictured indent shown message top middle bottom) (k : ℕ) :
    middle[(toString l.number).length + 3 + k]? = shown[k]? := by
  have hdigits : (toString l.number).toList.length = (toString l.number).length :=
    String.length_toList
  have hindex : (toString l.number).length + 3 + k - (toString l.number).length = k + 3 := by omega
  rw [h.middle_eq, List.getElem?_append_right (by omega), hdigits, hindex]
  rfl

/-- A report shows the place of its diagnostic in three lines. -/
lemma Diagnostic.exists_pictured {d : Diagnostic} {source : String} {l : LinePlace}
    (hl : lineAt? source d.position.offset = some l) :
    ∃ indent shown top middle bottom, l.Pictured indent shown d.message top middle bottom ∧
      d.report source = d.header ++
        String.ofList (top ++ '\n' :: middle ++ '\n' :: bottom ++ ['\n']) := by
  obtain ⟨indent, blank, htrims, hindent⟩ := l.exists_trims
  have hdigits := feed_not_mem_toDigits (b := 10) (by decide) l.number
  have hshown := htrims.feed_not_mem (isAt_of_lineAt? hl).isFirstLine
  refine ⟨indent, l.shown.toList, _, _, _, ⟨⟨blank, htrims⟩, rfl, rfl, rfl, ?_, ?_, ?_⟩, ?_⟩
  · simp [hdigits, hshown, d.feed_not_mem_message]
  · refine List.forall_mem_cons.2 ⟨?_, List.forall_mem_cons.2 ⟨?_, List.forall_mem_singleton.2 ?_⟩⟩
    · exact getElem?_append_cons List.length_replicate
    · rw [List.append_cons]
      apply getElem?_append_cons
      rw [List.length_append, String.length_toList, List.length_singleton]
    · exact getElem?_append_cons List.length_replicate
  · rw [List.append_cons, List.append_cons, ← List.append_assoc]
    apply getElem?_append_cons
    simp only [List.length_append, List.length_replicate, List.length_singleton]
  · rw [report, hl, ← String.toList_inj]
    simp [LinePlace.gutter, LinePlace.caret, runOf, hindent]

/-- Reports put the caret under the first character of the token at fault.  The line that a diagnostic
is about is found, and its report is a header and three lines: a bar, the line itself without the spaces
and tabs that open it and the blank characters at its end, and dashes that lead to a caret with the
message beside it.  In a source whose places fit their 32-bit words the diagnostic is not about the
indentation, and if the character it is about is shown, the caret stands under this character, which is
the first one of the token that the diagnostic is true of. -/
theorem parse_report (source : String) (label? : Option String) (d : Diagnostic)
    (hd : d ∈ (parse source label?).diagnostics) :
    ∃ (l : LinePlace) (indent shown top middle bottom : List Char),
      lineAt? source d.position.offset = some l ∧
      l.Pictured indent shown d.message top middle bottom ∧
      d.report source =
        "Error: " ++ d.fault.name ++ (d.fault.tip?.elim "" fun tip => " (" ++ tip ++ ")") ++
          "\n-> " ++ label?.getD defaultLabel ++ "\n" ++
          String.ofList (top ++ '\n' :: middle ++ '\n' :: bottom ++ ['\n']) ∧
      '\n' ∉ d.message.toList ∧
      (source.length < 2 ^ 32 → indent.length ≤ l.column ∧
        (l.column < indent.length + shown.length →
          ∃ i t c, (tokenize source label?)[i]? = some t ∧ t.position = d.position ∧
            d.fault.Fits source.toList i t ∧ (t.covered source.toList).head? = some c ∧
            middle[(toString l.number).length + 3 + (l.column - indent.length)]? = some c)) := by
  obtain ⟨hlabel, l, hl⟩ := exists_lineAt?_of_mem_parse hd
  obtain ⟨indent, shown, top, middle, bottom, hpictured, hreport⟩ := d.exists_pictured hl
  refine ⟨l, indent, shown, top, middle, bottom, hl, hpictured, ?_, d.feed_not_mem_message,
    fun hlen => ?_⟩
  · rw [hreport, Diagnostic.header, hlabel]
    cases d.fault.tip? <;> rfl
  · obtain ⟨i, t, hget, hplace, hfits⟩ := fits_of_mem_parse hlen hd
    obtain ⟨hhead, hspace⟩ := getElem?_first_of_mem_tokenize hlen (List.mem_of_getElem? hget)
    obtain ⟨blank, htrims⟩ := hpictured.trims
    have hchar : l.text[l.column]? = source.toList[t.first]? := by
      rw [(isAt_of_lineAt? hl).getElem?_text, Token.first]
      exact congrArg (fun place => source.toList[place.offset.toNat]?) hplace.symm
    -- the place is the start of a token or the end of the source, and so no space stands there
    have hindent : indent.length ≤ l.column := htrims.length_indent_le fun c hc => by
      have hc := hspace c (hchar ▸ hc)
      constructor <;> rintro rfl <;> cases hc
    refine ⟨hindent, fun hshown => ?_⟩
    obtain ⟨c, hc⟩ : ∃ c, shown[l.column - indent.length]? = some c :=
      ⟨_, List.getElem?_eq_getElem (by omega)⟩
    refine ⟨i, t, c, hget, hplace, hfits, ?_, ?_⟩
    · rw [← hhead, ← hchar, ← htrims.getElem?_shown hindent hshown, hc]
    · rw [hpictured.getElem?_middle, hc]

/-- A faulty statement on an indented line: the caret stands under the integer. -/
theorem parse_report_indented :
    (⟨.expectedToken .assign .integer, ⟨19, "two"⟩⟩ : Diagnostic) ∈
        (parse "let a = 1;\n  let b 2;" (some "two")).diagnostics ∧
      (⟨.expectedToken .assign .integer, ⟨19, "two"⟩⟩ : Diagnostic).report
          "let a = 1;\n  let b 2;" =
        "Error: ExpectedToken\n-> two\n  |\n2 | let b 2;\n" ++
          "  | ------^ expected next token to be ASSIGN, got INT instead\n" ∧
      ∃ (l : LinePlace) (indent shown top middle bottom : List Char),
        lineAt? "let a = 1;\n  let b 2;" 19 = some l ∧
        l.Pictured indent shown "expected next token to be ASSIGN, got INT instead" top middle
          bottom ∧
        indent.length ≤ l.column ∧
        (l.column < indent.length + shown.length →
          ∃ (i : ℕ) (t : Token) (c : Char),
            (tokenize "let a = 1;\n  let b 2;" (some "two"))[i]? = some t ∧
            t.position = ⟨19, "two"⟩ ∧ t.kind = .integer ∧
            (t.covered "let a = 1;\n  let b 2;".toList).head? = some c ∧
            middle[(toString l.number).length + 3 + (l.column - indent.length)]? = some c) := by
  have hd : (⟨.expectedToken .assign .integer, ⟨19, "two"⟩⟩ : Diagnostic) ∈
      (parse "let a = 1;\n  let b 2;" (some "two")).diagnostics := by decide +kernel
  obtain ⟨l, indent, shown, top, middle, bottom, hl, hpictured, -, -, habove⟩ :=
    parse_report "let a = 1;\n  let b 2;" (some "two") _ hd
  obtain ⟨hindent, habove⟩ := habove (by decide)
  refine ⟨hd, by decide +kernel, l, indent, shown, top, middle, bottom, hl, hpictured, hindent,
    fun hshown => ?_⟩
  obtain ⟨i, t, c, hget, hplace, hfits, hrest⟩ := habove hshown
  exact ⟨i, t, c, hget, hplace, hfits.1, hrest⟩

/-- So many spaces that the place behind them wraps around to the start of the source. -/
def wordOfSpaces : String := String.ofList (List.replicate (2 ^ 32) ' ')

lemma toList_wordOfSpaces : wordOfSpaces.toList = List.replicate (2 ^ 32) ' ' := String.toList_ofList

lemma length_wordOfSpaces : wordOfSpaces.length = 2 ^ 32 := by
  rw [← String.length_toList, toList_wordOfSpaces, List.length_replicate]

lemma isSpace_of_mem_wordOfSpaces : ∀ c ∈ wordOfSpaces.toList, isSpace c = true := by
  intro c hc
  rw [toList_wordOfSpaces] at hc
  rw [List.eq_of_mem_replicate hc]
  rfl

/-- Without a bound on the length of the source a diagnostic can be about the indentation.  Behind 2 ^ 32
spaces the place of a parenthesis is 0, where the first of the spaces stands. -/
theorem parse_report_wrapped :
    (⟨.noOperand .rightParen, ⟨0, "shell"⟩⟩ : Diagnostic) ∈
        (parse (wordOfSpaces ++ ")") none).diagnostics ∧
      ∃ l, lineAt? (wordOfSpaces ++ ")") 0 = some l ∧ l.column = 0 ∧
        ∀ indent shown message top middle bottom,
          l.Pictured indent shown message top middle bottom → ¬indent.length ≤ l.column := by
  -- the source is never computed: what is told of it comes from what stands behind the spaces
  have hd : (⟨.noOperand .rightParen, ⟨0, "shell"⟩⟩ : Diagnostic) ∈
      (parse (wordOfSpaces ++ ")") none).diagnostics := by
    rw [(parse_spaces_append isSpace_of_mem_wordOfSpaces ")" none).2, length_wordOfSpaces]
    refine List.mem_map.2 ⟨⟨.noOperand .rightParen, ⟨0, "shell"⟩⟩, by decide +kernel, ?_⟩
    rfl
  obtain ⟨-, l, hl⟩ := exists_lineAt?_of_mem_parse hd
  have hat := isAt_of_lineAt? hl
  have hcolumn : l.column = 0 := hat.column_eq
  have hfirst : l.text[0]? = some ' ' := by
    have hhead : wordOfSpaces.toList.head? = some ' ' := by
      rw [toList_wordOfSpaces, List.head?_replicate, if_neg (by decide)]
    rw [← hcolumn, hat.getElem?_text, UInt32.toNat_zero, ← List.head?_eq_getElem?,
      String.toList_append, List.head?_append, hhead, Option.some_or]
  refine ⟨hd, l, hl, hcolumn, fun indent shown message top middle bottom hpictured => ?_⟩
  obtain ⟨blank, htrims⟩ := hpictured.trims
  rw [hcolumn, not_le]
  exact htrims.length_indent_pos hfirst (.inl rfl)

end ScriptSyntax
