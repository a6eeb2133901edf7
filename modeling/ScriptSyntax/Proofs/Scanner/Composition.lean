import ScriptSyntax.Proofs.Scanner.TokenText
import ScriptSyntax.Proofs.Scanner.Tokenization

/-!
# Sources put together

The scanner remembers nothing of the tokens behind it.  Two sources one after the other have the tokens
of the first and then those of the second, unless a token reaches from the one into the other; and
tokens that are printed with spaces between them are scanned again to what they say.

## Main statements

* `tokenize_append`: two sources one after the other.
* `tokenize_printed_iff`: the tokens that come back from a printed list.
* `tokenize_printed`: scanning undoes printing, and whatever was scanned can be printed.
-/

namespace ScriptSyntax

/-! ## One source after the other -/

/-- The tokens of two sources one after the other.  What the first one leaves to the second is the
number of its characters, by which the places of the second move; this is so unless the first leaves
a quote open or the two characters at the seam belong together. -/
theorem tokenize_append (a b : String) (label? : Option String)
    (heven : Even (a.toList.count '"'))
    (hseam : ∀ c ∈ a.toList.getLast?, ∀ d ∈ b.toList.head?, joins c d = false) :
    tokenize (a ++ b) label? =
      (tokenize a label?).dropLast ++
        (tokenize b label?).map (Token.relocate (.shift a.length)) := by
  have hscan := scan_append (label?.getD defaultLabel) 0 ⟨heven, hseam⟩
  have hshift := scan_shift (label?.getD defaultLabel) 0 a.length b.toList
  have hend : (Token.endOfInput ⟨.ofNat b.length, label?.getD defaultLabel⟩).relocate
      (.shift a.length) = .endOfInput ⟨.ofNat (a ++ b).length, label?.getD defaultLabel⟩ := by
    rw [String.length_append, UInt32.ofNat_add, UInt32.add_comm]
    rfl
  rw [tokenize_eq_scan, tokenize_eq_scan a, tokenize_eq_scan b, List.dropLast_concat,
    String.toList_append, hscan, String.length_toList, hshift, List.map_append, List.map_append,
    List.map_singleton, hend, List.map_map, List.map_map, List.append_assoc]
  rfl

/-- A string that is closed at the seam. -/
theorem tokenize_append_closed_string :
    Even ("x == \"a b\"".toList.count '"') ∧
      (∀ c ∈ "x == \"a b\"".toList.getLast?, ∀ d ∈ "=1".toList.head?, joins c d = false) ∧
      tokenize ("x == \"a b\"" ++ "=1") none =
        (tokenize "x == \"a b\"" none).dropLast ++
          (tokenize "=1" none).map (Token.relocate (.shift 10)) := by
  have heven : Even ("x == \"a b\"".toList.count '"') := by decide
  have hseam : ∀ c ∈ "x == \"a b\"".toList.getLast?, ∀ d ∈ "=1".toList.head?,
      joins c d = false := by
    intro c hc d hd
    obtain rfl : '"' = c := Option.some.inj hc
    obtain rfl : '=' = d := Option.some.inj hd
    decide
  exact ⟨heven, hseam, tokenize_append "x == \"a b\"" "=1" none heven hseam⟩

/-! ## What a token says -/

/-- What a token says, wherever it stands: its kind and its text. -/
def Token.content (t : Token) : TokenKind × String := (t.kind, t.text)

/-- A character that is no space and that stands, outside of strings, in illegal tokens only. -/
structure IsStray (c : Char) : Prop where
  isSpace_eq_false : isSpace c = false
  isWordChar_eq_false : isWordChar c = false
  isDigit_eq_false : c.isDigit = false
  ne_quote : c ≠ '"'
  not_mem_operator : ∀ entry ∈ operators, c ∉ entry.1

/-- A token of a source can say this: the text is one of the kind, and an illegal text is a single
character that starts no other token. -/
structure IsContent (content : TokenKind × String) : Prop where
  hasText : content.1.HasText content.2
  stray : content.1 = .illegal → ∃ c, content.2 = .singleton c ∧ IsStray c

lemma IsStray.spells {c : Char} (h : IsStray c) : Spells [c] [.bare .illegal (.singleton c)] := by
  have hmark : Munch.mark c [] = .plain (Munch.markKind c) [c] := by
    unfold Munch.mark
    split <;> simp_all
  have hkind : Munch.markKind c = .illegal :=
    markKind_eq_illegal fun hmem => h.not_mem_operator _ hmem List.mem_cons_self
  have hmunch : munch c [] = .plain .illegal [c] := by
    rw [munch_of_ne h.ne_quote, h.isWordChar_eq_false, h.isDigit_eq_false, ← hkind, ← hmark]
    rfl
  have hspace : ¬isSpace c = true := by
    rw [h.isSpace_eq_false]
    exact Bool.false_ne_true
  exact spells_of_munch hspace hmunch rfl rfl

/-- An operator or a delimiter spells itself. -/
lemma spells_operator {text : String} {kind : TokenKind} (h : (text.toList, kind) ∈ operators) :
    Spells text.toList [.bare kind text] := by
  have htable : ∀ entry ∈ operators, ¬isSpace (entry.1.headD ' ') = true ∧
      munch (entry.1.headD ' ') entry.1.tail = .plain entry.2 entry.1 := by decide
  obtain ⟨hspace, hmunch⟩ := htable _ h
  cases htext : text.toList with
  | nil =>
    rw [htext] at hspace
    exact absurd rfl hspace
  | cons c rest =>
    rw [htext] at hspace hmunch
    have hchars : text = .ofList (c :: rest) := by rw [← htext, String.ofList_toList]
    rw [hchars]
    exact spells_of_munch hspace hmunch rfl rfl

/-- An illegal token is a single character that starts no other token. -/
lemma IsLongest.isStray {text value covered : List Char}
    (h : IsLongest text .illegal value covered) : ∃ c, value = [c] ∧ IsStray c := by
  obtain ⟨c, rest, rfl⟩ := h.exists_cons
  have hquote : c ≠ '"' := by
    rintro rfl
    simpa using h.kind_eq_string_iff.2 rfl
  have hword : isWordChar c = false := by
    rw [← Bool.not_eq_true]
    intro hword
    have hmem := ofWord_mem (.ofList value)
    rw [← isWordKind_iff.1 (h.word c rfl hword).2] at hmem
    exact absurd hmem (by decide)
  have hdigit : c.isDigit = false := by
    rw [← Bool.not_eq_true]
    intro hdigit
    exact absurd (h.integer c rfl hdigit).2 (by decide)
  have hcovered : covered = value := h.covered_eq (by decide)
  subst hcovered
  cases h.mark c rfl hquote hword hdigit with
  | operator hmem =>
    have htable : ∀ entry ∈ operators, entry.2 ≠ .illegal := by decide
    exact absurd rfl (htable _ hmem)
  | @illegal d hhead hnone =>
    obtain rfl : c = d := by simpa using hhead
    refine ⟨c, rfl, h.isSpace_eq_false c rfl, hword, hdigit, hquote, fun entry hentry hc => ?_⟩
    -- every character of an operator is an operator by itself
    have htable : ∀ entry ∈ operators,
        entry.1.all (fun x => ([x], Munch.markKind x) ∈ operators) = true := by decide
    have hmem : ([c], Munch.markKind c) ∈ operators := by
      simpa using List.all_eq_true.1 (htable entry hentry) c hc
    exact hnone _ hmem ⟨rest, rfl⟩

/-- Every token of a source says something that a token can say. -/
lemma isContent_of_mem_scan {label : String} {offset : Nat} {text : List Char} {l : Lexeme}
    (h : l ∈ scan label offset text) : IsContent l.token.content := by
  refine ⟨hasText_of_mem_scan h, fun hkind => ?_⟩
  obtain ⟨behind, covered, hlongest⟩ := exists_isLongest_of_mem_scan h
  rw [show l.token.kind = .illegal from hkind] at hlongest
  obtain ⟨c, htext, hstray⟩ := hlongest.isStray
  refine ⟨c, ?_, hstray⟩
  rw [← String.toList_inj, String.toList_singleton]
  exact htext

/-! ## Printing -/

/-- The text that a token with this content has in a source: a string stands in quotes. -/
def written (content : TokenKind × String) : String :=
  if content.1 = .string then "\"" ++ content.2 ++ "\"" else content.2

/-- The contents written one after the other, with single spaces between them. -/
def printed (contents : List (TokenKind × String)) : String :=
  " ".intercalate (contents.map written)

lemma written_of_ne {kind : TokenKind} (text : String) (h : kind ≠ .string) :
    written (kind, text) = text := if_neg h

lemma IsContent.spells {content : TokenKind × String} (h : IsContent content) :
    Spells (written content).toList [.bare content.1 content.2] := by
  obtain ⟨kind, text⟩ := content
  obtain ⟨htext, hstray⟩ := h
  cases htext with
  | identifier hname =>
    have hkind : TokenKind.identifier = .ofWord text :=
      isWordKind_iff.1 (.inr ⟨rfl, fun entry hentry heq =>
        hname.not_reserved (heq ▸ List.mem_map_of_mem hentry)⟩)
    rw [written_of_ne _ (by decide), hkind]
    exact spells_word hname.ne_empty hname.isWordChar
  | integer hne hdigits =>
    rw [written_of_ne _ (by decide)]
    exact spells_digits hne hdigits
  | string hquote =>
    simpa [written] using spells_quoted hquote
  | reserved hmem =>
    have htable : ∀ entry ∈ TokenKind.reserved, entry.2 ≠ .string ∧ entry.1 ≠ "" ∧
        entry.1.toList.all isWordChar = true := by decide
    obtain ⟨hkind, hne, hchars⟩ := htable _ hmem
    rw [written_of_ne _ hkind, show kind = .ofWord text from isWordKind_iff.1 (.inl hmem)]
    exact spells_word hne (List.all_eq_true.1 hchars)
  | operator hmem =>
    have htable : ∀ entry ∈ operators, entry.2 ≠ .string := by decide
    rw [written_of_ne _ (htable _ hmem)]
    exact spells_operator hmem
  | illegal =>
    obtain ⟨c, rfl, hc⟩ := hstray rfl
    rw [written_of_ne _ (by decide), String.toList_singleton]
    exact hc.spells

/-- Next to a space no token reaches from one text into the next. -/
lemma spells_printed {contents : List (TokenKind × String)} (h : ∀ c ∈ contents, IsContent c) :
    Spells (printed contents).toList (contents.map fun c => .bare c.1 c.2) := by
  induction contents with
  | nil => exact Spells.nil
  | cons c contents ih =>
    obtain ⟨hc, hrest⟩ := List.forall_mem_cons.1 h
    cases contents with
    | nil => simpa [printed] using hc.spells
    | cons d contents =>
      have htext : (printed (c :: d :: contents)).toList =
          (written c).toList ++ ' ' :: (printed (d :: contents)).toList := by
        rw [printed, List.map_cons, List.map_cons, String.intercalate_cons_cons, ← List.map_cons,
          String.toList_append, String.toList_append, ← printed]
        simp
      rw [htext]
      exact hc.spells.append_break (ih hrest).space_cons

lemma Spells.map_content_tokenize {source : String} {ts : List Token}
    (h : Spells source.toList ts) (label? : Option String) :
    (tokenize source label?).map Token.content =
      ts.map Token.content ++ [(.endOfInput, "")] := by
  rw [tokenize_eq_scan, List.map_append, ← h.tokens_eq (label?.getD defaultLabel) 0, List.map_map,
    List.map_map]
  rfl

lemma isContent_of_mem_tokenize {source : String} {label? : Option String} {t : Token}
    (h : t ∈ (tokenize source label?).dropLast) : IsContent t.content := by
  rw [tokenize_eq_scan, List.dropLast_concat] at h
  obtain ⟨l, hl, rfl⟩ := List.mem_map.1 h
  exact isContent_of_mem_scan hl

/-- A printed list comes back from the scanner if and only if tokens can say each of its entries. -/
theorem tokenize_printed_iff (contents : List (TokenKind × String)) (label? : Option String) :
    (tokenize (printed contents) label?).map Token.content =
        contents ++ [(.endOfInput, "")] ↔
      ∀ content ∈ contents, IsContent content := by
  constructor
  · intro h content hmem
    have hfront := congrArg List.dropLast h
    rw [List.dropLast_concat, ← List.map_dropLast] at hfront
    rw [← hfront] at hmem
    obtain ⟨t, ht, rfl⟩ := List.mem_map.1 hmem
    exact isContent_of_mem_tokenize ht
  · intro h
    have hcontents : (contents.map fun c => Token.bare c.1 c.2).map Token.content = contents := by
      rw [List.map_map]
      exact List.map_id _
    rw [(spells_printed h).map_content_tokenize, hcontents]

/-- Scanning undoes printing.  What tokens can say comes back in order and is followed by the end
marker; the tokens of a source, quotes open or not, all say such things, so that a printed source says
what the source says. -/
theorem tokenize_printed (label? : Option String) :
    (∀ contents, (∀ content ∈ contents, IsContent content) →
      (tokenize (printed contents) label?).map Token.content =
        contents ++ [(.endOfInput, "")]) ∧
    ∀ source, (∀ t ∈ (tokenize source label?).dropLast, IsContent t.content) ∧
      (tokenize (printed ((tokenize source label?).dropLast.map Token.content)) label?).map
          Token.content =
        (tokenize source label?).map Token.content := by
  refine ⟨fun contents => (tokenize_printed_iff contents label?).2, fun source => ?_⟩
  have hcontent : ∀ t ∈ (tokenize source label?).dropLast, IsContent t.content :=
    fun t => isContent_of_mem_tokenize
  refine ⟨hcontent, ?_⟩
  rw [(tokenize_printed_iff _ label?).2 (List.forall_mem_map.2 hcontent), tokenize_eq_scan,
    List.dropLast_concat, List.map_append]
  rfl

/-- A string with a space in it, a comparison, a reserved word and a stray character come back. -/
theorem tokenize_printed_stray :
    (∀ content ∈ [(.string, "a b"), (.equal, "=="), (.letWord, "let"), (.illegal, "§")],
      IsContent content) ∧
    (tokenize (printed [(.string, "a b"), (.equal, "=="), (.letWord, "let"), (.illegal, "§")])
        none).map Token.content =
      [(.string, "a b"), (.equal, "=="), (.letWord, "let"), (.illegal, "§"), (.endOfInput, "")] := by
  have hstray : IsStray '§' := ⟨by decide, by decide, by decide, by decide, by decide⟩
  have hcontents : ∀ content ∈ [(.string, "a b"), (.equal, "=="), (.letWord, "let"),
      (.illegal, "§")], IsContent content := by
    simp only [List.forall_mem_cons, List.not_mem_nil, IsEmpty.forall_iff, implies_true, and_true]
    refine ⟨⟨.string (by decide), fun h => ?_⟩, ⟨.operator (by decide), fun h => ?_⟩,
      ⟨.reserved (by decide), fun h => ?_⟩, ⟨.illegal, fun _ => ⟨'§', rfl, hstray⟩⟩⟩ <;>
      exact absurd h (by decide)
  exact ⟨hcontents, (tokenize_printed none).1 _ hcontents⟩

end ScriptSyntax
