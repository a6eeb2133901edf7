import ScriptSyntax.Proofs.Parser.Start

/-!
# The transcript

What the transcript of a parse tells.  Between its first and its last events it tells of moves of the
window, by one token each and none left out, and of the diagnostics about the grammar, none left out and
none twice; so the tokens of the source and the diagnostics of the parse can be read off it.

## Main statements

* `Parser.Course.exists_narrates`: what the transcript tells of a course.
* `parse_log`: the log of a parse, with every event shown.
* `parse_log_debug`: with the start and the end shown only.
-/

namespace ScriptSyntax

/-! ## Events in order -/

/-- The events tell of so many moves of the window, where the tokens are numbered from the one that was
current at first, and of the diagnostics in `recorded`.  A move lets in the token two places behind the
one that was current and makes the one in between current. -/
inductive Narrates (token : ℕ → Token) : ℕ → List Event → List Diagnostic → Prop
  | start : Narrates token 0 [] []
  | move {moves : ℕ} {events : List Event} {recorded : List Diagnostic} :
      Narrates token moves events recorded →
      Narrates token (moves + 1)
        (events ++ [.scanned (token (moves + 2)), .reached (token (moves + 1))]) recorded
  | record {moves : ℕ} {events : List Event} {recorded : List Diagnostic} (d : Diagnostic) :
      Narrates token moves events recorded →
      Narrates token moves (events ++ [.recorded d]) (recorded ++ [d])

/-- Moves and diagnostics are told of at the finest level only. -/
lemma Narrates.level_eq {token : ℕ → Token} {moves : ℕ} {events : List Event}
    {recorded : List Diagnostic} (h : Narrates token moves events recorded) :
    ∀ e ∈ events, e.level = .trace := by
  induction h with
  | start => exact fun e he => absurd he List.not_mem_nil
  | move _ ih =>
    refine List.forall_mem_append.2 ⟨ih, List.forall_mem_cons.2 ⟨rfl, ?_⟩⟩
    exact List.forall_mem_singleton.2 rfl
  | record d _ ih => exact List.forall_mem_append.2 ⟨ih, List.forall_mem_singleton.2 rfl⟩

namespace Parser

/-- What the transcript tells of a course: each move and each diagnostic once, in their order. -/
theorem Course.exists_narrates {p q : Parser} (h : p.Course q) :
    ∃ moves events recorded, Narrates p.tokenAt moves events recorded ∧
      (∀ i, q.tokenAt i = p.tokenAt (moves + i)) ∧
      q.transcript.toList = p.transcript.toList ++ events ∧
      q.grammatical = p.grammatical ++ recorded := by
  induction h with
  | refl => exact ⟨0, [], [], .start, by simp⟩
  | @advance q _ ih =>
    obtain ⟨moves, events, recorded, hnarrates, htoken, htranscript, hgrammatical⟩ := ih
    refine ⟨moves + 1, _, recorded, hnarrates.move, fun i => ?_, ?_, ?_⟩
    · rw [tokenAt_advance, htoken, Nat.add_right_comm, Nat.add_assoc]
    · rw [← List.append_assoc, ← htranscript, ← htoken 1, ← htoken 2]
      simp [Parser.advance, lookahead]
    · rw [grammatical_advance, hgrammatical]
  | @record q d hd _ ih =>
    obtain ⟨moves, events, recorded, hnarrates, htoken, htranscript, hgrammatical⟩ := ih
    refine ⟨moves, _, _, hnarrates.record d, htoken, ?_, ?_⟩
    · rw [← List.append_assoc, ← htranscript]
      simp [Parser.record]
    · rw [grammatical_record hd.isLexical_eq_false, hgrammatical, List.append_assoc]

end Parser

/-! ## The log of a parse -/

/-- The token of a source with this number; the end marker has all the numbers behind its own as well. -/
def tokenOf (source : String) (label? : Option String) (i : ℕ) : Token :=
  (tokenize source label?).getD i ((tokenize source label?).getLastD default)

/-- The line of a log that tells of an event, with the level it is of. -/
def Event.line (e : Event) : Level × String := (e.level, e.text)

/-- The log of a parse at this level. -/
def Parsed.log (parsed : Parsed) (level : Level) : List (Level × String) :=
  (parsed.transcript.filter (·.isShownAt level)).map Event.line

variable (source : String) (label? : Option String)

lemma tokenOf_eq_tokenAt : tokenOf source label? = (Parser.start source label?).tokenAt := by
  funext i
  rw [tokenOf, Parser.tokenize_eq_start, List.getLastD_concat]
  generalize Parser.start source label? = p
  rw [List.getD_eq_getElem?_getD, Parser.tokenAt, Parser.tokens]
  rcases lt_or_ge i p.lexemes.length with hi | hi
  · rw [List.getElem?_append_left (by simpa using hi), List.getElem?_map]
  · rw [List.getElem?_append_right (by simpa using hi), List.getElem?_eq_none hi, Option.map_none]
    cases i - (p.lexemes.map Lexeme.token).length <;> rfl

/-- Before the parse begins two tokens have entered the window. -/
lemma transcript_start :
    (Parser.start source label?).transcript.toList =
      [.scanned (tokenOf source label? 0), .scanned (tokenOf source label? 1),
        .began (label?.getD defaultLabel)] := by
  have hlabel : (Parser.start source label?).finish.label = label?.getD defaultLabel := by
    rw [Parser.finish_start]
  rw [tokenOf_eq_tokenAt, ← hlabel]
  rfl

/-- The last event tells of how much was found. -/
lemma transcript_parse :
    (parse source label?).transcript =
      (Rule.statementList Rule.expression false (.start source label?)).2.transcript.toList ++
        [.finished (parse source label?).program.length
          (parse source label?).diagnostics.length] := by
  rw [(parse_eq_statementList source label?).1, (parse_eq_statementList source label?).2,
    Array.length_toList, ← Array.toList_push]
  rfl

/-- Behind the tokens that the window starts on the transcript tells of moves and diagnostics, and last
of how much was found. -/
theorem parse_transcript :
    ∃ moves events,
      Narrates (tokenOf source label?) moves events
        ((parse source label?).diagnostics.filter fun d => !d.isLexical) ∧
      (parse source label?).transcript =
        [.scanned (tokenOf source label? 0), .scanned (tokenOf source label? 1),
            .began (label?.getD defaultLabel)] ++ events ++
          [.finished (parse source label?).program.length
            (parse source label?).diagnostics.length] := by
  have hcourse : (Parser.start source label?).Course
      (Rule.statementList Rule.expression false (.start source label?)).2 :=
    Rule.statements_course Rule.expression false _ _
  obtain ⟨moves, events, recorded, hnarrates, -, htranscript, hgrammatical⟩ :=
    hcourse.exists_narrates
  rw [Parser.grammatical_start, List.nil_append] at hgrammatical
  subst hgrammatical
  refine ⟨moves, events, ?_, ?_⟩
  · rw [tokenOf_eq_tokenAt, (parse_eq_statementList source label?).2]
    exact hnarrates
  · rw [transcript_parse, htranscript, transcript_start]

/-- The log of a parse with every event shown.  First come the two tokens that the window starts on and
the label of the source; then each move of the window, the token that it lets in and the one that it
makes current, with the diagnostics about the grammar in between, all of them and in their order; and
last how many statements and diagnostics there are. -/
theorem parse_log :
    ∃ moves events,
      Narrates (tokenOf source label?) moves events
        ((parse source label?).diagnostics.filter fun d => !d.isLexical) ∧
      (parse source label?).log .trace =
        ([Event.scanned (tokenOf source label? 0), .scanned (tokenOf source label? 1),
            .began (label?.getD defaultLabel)] ++ events ++
          [Event.finished (parse source label?).program.length
            (parse source label?).diagnostics.length]).map Event.line := by
  obtain ⟨moves, events, hnarrates, htranscript⟩ := parse_transcript source label?
  refine ⟨moves, events, hnarrates, ?_⟩
  have hall : (parse source label?).transcript.filter (·.isShownAt .trace) =
      (parse source label?).transcript := List.filter_eq_self.2 fun _ _ => rfl
  rw [Parsed.log, hall, htranscript]

/-- A word on its own: the end of the source enters the window a second time when it becomes current. -/
example : (parse "let" none).log .trace =
    [(.trace, "scanned LET ()"), (.trace, "scanned EOF ()"), (.debug, "parsing program from shell"),
      (.trace, "recorded error: expected next token to be IDENT, got EOF instead"),
      (.trace, "scanned EOF ()"), (.trace, "current token EOF ()"),
      (.debug, "parsed 0 statement(s) with 1 error(s)")] := by
  decide +kernel

/-- The log of a parse with the start and the end shown only. -/
theorem parse_log_debug :
    (parse source label?).log .debug =
      [Event.began (label?.getD defaultLabel),
        .finished (parse source label?).program.length
          (parse source label?).diagnostics.length].map Event.line := by
  obtain ⟨moves, events, hnarrates, htranscript⟩ := parse_transcript source label?
  have hnone : events.filter (·.isShownAt .debug) = [] := by
    rw [List.filter_eq_nil_iff]
    intro e he
    rw [Event.isShownAt, hnarrates.level_eq e he]
    decide
  rw [Parsed.log, htranscript, List.filter_append, List.filter_append, hnone]
  rfl

end ScriptSyntax
