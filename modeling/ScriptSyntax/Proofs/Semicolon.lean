import ScriptSyntax.Proofs.Acceptance
import ScriptSyntax.Proofs.Parser.Barrier
import ScriptSyntax.Proofs.Parser.Continuation

/-!
# Semicolons

A semicolon outside of all blocks is a barrier: nothing before it, however malformed or deep, changes
how what follows is parsed, and nothing that follows changes how what is before it is.  Before it no
block may be left open.  That is so if no brace opens one, and it is so as well if nothing is found
wrong before the semicolon.

In the first case two parses that part behind the semicolon go side by side up to it.  In the second the
statements before it have a reading, and since the last of them ends with the semicolon they have it
whatever comes next.

## Main statements

* `parse_semicolon_append`: the statements and the diagnostics of two sources with a semicolon between
  them.
-/

namespace ScriptSyntax

open Grammar Rule

variable {g b : String} {label? : Option String}

lemma length_semicolon (g : String) : (g ++ ";").length = g.length + 1 := by
  rw [String.length_append]
  rfl

lemma seam_semicolon (heven : Even (g.toList.count '"')) : Seam g.toList ";".toList :=
  ⟨heven, by simp [joins, isWordChar]⟩

lemma seam_of_semicolon (heven : Even (g.toList.count '"')) (b : String) :
    Seam (g ++ ";").toList b.toList := by
  refine ⟨by simpa using heven, fun c hc d _ => ?_⟩
  obtain rfl : ';' = c := by simpa [String.toList_append] using hc
  simp [joins, isWordChar]

/-- The last token of `g` and a semicolon is the semicolon. -/
lemma lexemes_start_semicolon (heven : Even (g.toList.count '"')) (label? : Option String) :
    ∃ last, last.token.kind = .semicolon ∧
      (Parser.start (g ++ ";") label?).lexemes = (Parser.start g label?).lexemes ++ [last] := by
  refine ⟨_, ?_, Parser.lexemes_start_append (seam_semicolon heven) label?⟩
  rfl

/-- A parser of `g`, a semicolon and `b` that stands on the semicolon, all of `g` behind it. -/
structure StandsBefore (g b : String) (label? : Option String) (q : Parser) : Prop where
  trail : (Parser.start (g ++ ";" ++ b) label?).Trail q
  lexemes_eq : ∃ last, q.lexemes = last ::
    (Parser.start b label?).lexemes.map (Lexeme.relocate (Position.shift (g.length + 1)))
  diagnostics_eq : q.diagnostics.toList = (parse (g ++ ";") label?).diagnostics
  statementList_eq :
    statementList (expressionAt maxNesting) false (.start (g ++ ";" ++ b) label?) =
      ((parse (g ++ ";") label?).program ++
        (statementList (expressionAt maxNesting) false q.advance).1,
        (statementList (expressionAt maxNesting) false q.advance).2)

/-- From the semicolon on `b` is parsed as it is alone. -/
lemma StandsBefore.parse_eq {q : Parser} (hq : StandsBefore g b label? q) :
    (parse (g ++ ";" ++ b) label?).program =
        (parse (g ++ ";") label?).program ++
          Program.relocate (Position.shift (g.length + 1)) (parse b label?).program ∧
      (parse (g ++ ";" ++ b) label?).diagnostics =
        (parse (g ++ ";") label?).diagnostics ++
          (parse b label?).diagnostics.map
            (Diagnostic.relocate (Position.shift (g.length + 1))) := by
  obtain ⟨last, hlexemes⟩ := hq.lexemes_eq
  have hfinish : q.finish = (Parser.start b label?).finish.shift (g.length + 1) := by
    rw [hq.trail.finish_eq, Parser.finish_start_append, length_semicolon]
  have hreaches := Parser.reaches_advance hlexemes hfinish hq.trail.depth_eq
  rw [program_parse (g ++ ";" ++ b), diagnostics_parse (g ++ ";" ++ b), hq.statementList_eq]
  exact ⟨by rw [← hreaches.program_eq], by rw [hreaches.diagnostics_eq_append, hq.diagnostics_eq]⟩

/-- Without an opening brace in `g` the parse comes to the semicolon as that of `g` alone does. -/
lemma exists_standsBefore_of_no_brace (heven : Even (g.toList.count '"'))
    (hbrace : ∀ t ∈ tokenize g label?, t.kind ≠ .leftBrace) :
    ∃ q, StandsBefore g b label? q := by
  obtain ⟨last, hlast, hlexemes⟩ := lexemes_start_semicolon heven label?
  have happend := Parser.lexemes_start_append (seam_of_semicolon heven b) label?
  rw [length_semicolon] at happend
  have hfragment : Fragment last (Parser.start (g ++ ";") label?).lexemes := by
    refine ⟨by rw [hlexemes, List.getLast?_concat], ?_, fun l hl => ?_,
      fun l hl => Parser.kind_ne_of_mem_start _ _ hl⟩
    · exact (Parser.forall_closed_start_iff _ _).2 (by simpa using heven)
    rw [hlexemes, List.mem_append, List.mem_singleton] at hl
    rcases hl with hl | rfl
    · refine hbrace l.token (List.mem_of_mem_dropLast ?_)
      rw [← Parser.tokens_start]
      exact List.mem_map_of_mem hl
    · rw [hlast]
      decide
  obtain ⟨l, X, hX⟩ : ∃ l X, (Parser.start (g ++ ";") label?).lexemes = l :: X := by
    rw [hlexemes]
    cases (Parser.start g label?).lexemes <;> exact ⟨_, _, rfl⟩
  have htwin : Parser.Twin (l :: X)
      ((Parser.start b label?).lexemes.map (Lexeme.relocate (Position.shift (g.length + 1)))) []
      (.start (g ++ ";" ++ b) label?) (.start (g ++ ";") label?) := by
    refine ⟨by rw [happend, hX], by rw [hX, List.append_nil], ?_, rfl⟩
    rw [← Array.toList_inj, Parser.diagnostics_start, Parser.diagnostics_start, happend, hX]
    rfl
  obtain ⟨body, q, q', hq, htrail, hrun, hrun'⟩ :=
    hfragment.statementList_semicolon hlast maxNesting (hX ▸ List.suffix_refl _) htwin
  have hstop : statementList (expressionAt maxNesting) false q'.advance = ([], q'.advance) := by
    have hnil : q'.advance.lexemes = [] := by
      rw [Parser.lexemes_advance, hq.lexemes_eq']
      rfl
    rw [statementList_eq, if_pos (atListEnd_of_lexemes_eq_nil hnil _)]
  rw [hstop, List.append_nil] at hrun'
  refine ⟨q, htrail, ⟨last, hq.lexemes_eq⟩, ?_, ?_⟩
  · rw [diagnostics_parse, hrun', ← hq.diagnostics_eq]
    simp [Parser.advance, hq.lexemes_eq']
  · rw [program_parse, hrun', hrun]

/-- With nothing found wrong in `g` and the semicolon the parse passes their statements, whatever
comes next. -/
lemma exists_standsBefore_of_clean (h : (parse (g ++ ";") label?).diagnostics = []) :
    ∃ q, StandsBefore g b label? q := by
  obtain ⟨heven', n, hn, hreads⟩ := reads_of_diagnostics_eq_nil h
  have heven : Even (g.toList.count '"') := by simpa using heven'
  obtain ⟨last, hlast, hlexemes⟩ := lexemes_start_semicolon heven label?
  have happend := Parser.lexemes_start_append (seam_of_semicolon heven b) label?
  rw [length_semicolon, hlexemes] at happend
  have htokens : (tokenize (g ++ ";") label?).dropLast =
      (Parser.start g label?).tokens ++ [last.token] := by
    rw [← Parser.tokens_start, Parser.tokens, hlexemes, List.map_append]
    rfl
  rw [htokens] at hreads
  have hclosed : EndsClosed ((Parser.start g label?).tokens ++ [last.token]) := by
    intro t ht
    rw [List.getLast?_concat] at ht
    obtain rfl := Option.some.inj ht
    exact hlast
  generalize hp : Parser.start (g ++ ";" ++ b) label? = p at happend
  have hfaces : p.Faces ((Parser.start g label?).tokens ++ [last.token]) _ :=
    ⟨_, by rw [Parser.tokens, happend, List.map_append, List.map_append]; rfl, rfl⟩
  have hrun := (((hreads.statements_of_closed hclosed _).parsed maxNesting p false
    (by simp [← hp]) hfaces).1 hn)
  have hcount : ((Parser.start g label?).tokens ++ [last.token]).length =
      (Parser.start g label?).lexemes.length + 1 := by simp [Parser.tokens]
  rw [hcount, ← Parser.advance_ahead] at hrun
  refine ⟨p.ahead (Parser.start g label?).lexemes.length, hp ▸ p.trail_ahead _, ⟨last, ?_⟩, ?_,
    hp ▸ hrun⟩
  · rw [Parser.lexemes_ahead, happend, List.append_assoc, List.drop_left]
    rfl
  · have hcomplete : ∀ l ∈ (Parser.start g label?).lexemes ++ [last], l.closed = true := by
      rw [← hlexemes]
      exact (Parser.forall_closed_start_iff _ _).2 heven'
    rw [h, Parser.diagnostics_ahead, ← hp, Parser.diagnostics_start, hp, happend]
    · cases hg : (Parser.start g label?).lexemes with
      | nil =>
        have := hcomplete last (by simp)
        simp [Lexeme.diagnostic?, this]
      | cons l ls =>
        have := hcomplete l (by simp [hg])
        simp [Lexeme.diagnostic?, this]
    · intro l hl
      have hfront : p.lexemes.take ((Parser.start g label?).lexemes.length + 1) =
          (Parser.start g label?).lexemes ++ [last] := by
        rw [happend]
        exact List.take_left' (by simp)
      refine hcomplete l (List.mem_of_mem_tail ?_)
      rw [← hfront, List.tail_take_eq_take_tail]
      exact hl

/-- A semicolon outside of blocks is a barrier. -/
theorem parse_semicolon_append (g b : String) (label? : Option String)
    (heven : Even (g.toList.count '"'))
    (h : (∀ t ∈ tokenize g label?, t.kind ≠ .leftBrace) ∨
      (parse (g ++ ";") label?).diagnostics = []) :
    (parse (g ++ ";" ++ b) label?).program =
        (parse (g ++ ";") label?).program ++
          Program.relocate (Position.shift (g.length + 1)) (parse b label?).program ∧
      (parse (g ++ ";" ++ b) label?).diagnostics =
        (parse (g ++ ";") label?).diagnostics ++
          (parse b label?).diagnostics.map
            (Diagnostic.relocate (Position.shift (g.length + 1))) := by
  obtain ⟨q, hq⟩ : ∃ q, StandsBefore g b label? q :=
    h.elim (exists_standsBefore_of_no_brace heven) exists_standsBefore_of_clean
  exact hq.parse_eq

/-- What follows a malformed `let` is parsed as it is alone. -/
theorem parse_malformed_let_append :
    (parse ("let x 1" ++ ";" ++ "y") none).program =
        (parse ("let x 1" ++ ";") none).program ++
          Program.relocate (Position.shift ("let x 1".length + 1)) (parse "y" none).program ∧
      (parse ("let x 1" ++ ";" ++ "y") none).diagnostics =
        (parse ("let x 1" ++ ";") none).diagnostics ++
          (parse "y" none).diagnostics.map
            (Diagnostic.relocate (Position.shift ("let x 1".length + 1))) :=
  parse_semicolon_append "let x 1" "y" none (by decide +kernel) (.inl (by decide +kernel))

end ScriptSyntax
