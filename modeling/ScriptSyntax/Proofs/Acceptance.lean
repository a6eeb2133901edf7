import ScriptSyntax.Proofs.Grammar.Agreement
import ScriptSyntax.Proofs.Grammar.Completeness
import ScriptSyntax.Proofs.Grammar.Soundness
import ScriptSyntax.Proofs.Parser.Start

/-!
# What is accepted

A source is accepted if its parse finds nothing wrong.  The sources that are accepted are those whose
quotes are even in number and whose tokens can be read as statements within the levels of nesting
that there are, and a source whose tokens are a program can go wrong in no way but that it runs out
of levels.

## Main statements

* `parse_eq_nil_iff`: what is accepted, and which program it is.
* `acceptance`: acceptance is membership in the language, the limit on nesting aside.
-/

namespace ScriptSyntax

open Grammar Rule

variable {source : String} {label? : Option String}

/-- A list of statements that is not in a block ends behind the last token of the source. -/
lemma lexemes_eq_nil_of_atListEnd {q : Parser} (hq : (Parser.start source label?).Trail q)
    (h : atListEnd false q = true) : q.lexemes = [] := by
  cases hl : q.lexemes with
  | nil => rfl
  | cons l ls =>
    have hmem : l ∈ (Parser.start source label?).lexemes :=
      hq.lexemes_isSuffix.subset (by rw [hl]; exact List.mem_cons_self)
    have hk : q.current.kind = .endOfInput := by
      simpa [atListEnd, Parser.currentIs] using h
    have hcur : q.current = l.token := Parser.current_eq_of_tokens (by rw [Parser.tokens, hl]; rfl)
    exact absurd (hcur ▸ hk) (Parser.kind_ne_of_mem_start source label? hmem)

variable (source label?) in
/-- The statements of a source go on to its end. -/
lemma lexemes_statementList_start (levels : Nat) :
    (statementList (expressionAt levels) false (.start source label?)).2.lexemes = [] :=
  lexemes_eq_nil_of_atListEnd (statements_trail (expressionAt levels) false _ _)
    (atListEnd_statementList _ false _)

/-- No token of a source is the end marker. -/
lemma Parser.genuine_start : (Parser.start source label?).Genuine := by
  intro t ht
  obtain ⟨l, hl, rfl⟩ := List.mem_map.1 ht
  exact kind_ne_of_mem_start source label? hl

/-- A parse that passes every token and finds nothing wrong passes complete tokens only. -/
lemma even_count_of_diagnostics_eq_nil {q : Parser} (hq : (Parser.start source label?).Trail q)
    (hend : q.lexemes = []) (hd : q.diagnostics.toList = []) :
    Even (source.toList.count '"') := by
  rw [← Parser.forall_closed_start_iff source label?]
  intro l hl
  by_contra hopen
  obtain ⟨d, hwrong⟩ : ∃ d, l.diagnostic? = some d := by
    simp [Lexeme.diagnostic?, hopen]
  have hstart : (Parser.start source label?).diagnostics.toList = [] := by
    have := hq.diagnostics_isPrefix
    rw [hd] at this
    exact List.prefix_nil.1 this
  cases hlex : (Parser.start source label?).lexemes with
  | nil =>
    rw [hlex] at hl
    exact absurd hl List.not_mem_nil
  | cons first rest =>
    rw [hlex, List.mem_cons] at hl
    rcases hl with rfl | hl
    · rw [Parser.diagnostics_start, hlex] at hstart
      simp [hwrong] at hstart
    · rcases hq.mem_diagnostics (by rw [hlex]; exact hl) hwrong with hmem | hmem
      · rw [hend] at hmem
        exact absurd hmem List.not_mem_nil
      · rw [← Array.mem_toList_iff, hd] at hmem
        exact absurd hmem List.not_mem_nil

variable (source label?) in
/-- What recovery leaves of a source is read as the program that is found with so many levels. -/
lemma exists_reads_parseWithin (levels : Nat) :
    ∃ n ts, n ≤ levels ∧ ts.Sublist (tokenize source label?).dropLast ∧
      Reads n (.statements (parseWithin source label? levels).1) ts .endOfInput ∧
      ((parseWithin source label? levels).2 = [] → ts = (tokenize source label?).dropLast) := by
  rw [parseWithin, ← Parser.tokens_start]
  generalize hrun : statementList (expressionAt levels) false (.start source label?) = run
  obtain ⟨body, q⟩ := run
  obtain ⟨n, ts, hn, hkeeps, -, hreads⟩ :=
    keeps_statementList (found_expressionAt levels) Parser.genuine_start hrun
  have hnil : q.lexemes = [] := by
    have := lexemes_statementList_start source label? levels
    rwa [hrun] at this
  rw [Parser.current_of_lexemes_eq_nil hnil] at hreads
  obtain ⟨us, hus, hsub, hall⟩ := hkeeps.passed
  rw [show q.tokens = [] by rw [Parser.tokens, hnil, List.map_nil], List.append_nil] at hus
  refine ⟨n, ts, hn, hus ▸ hsub, hreads, fun hd => ?_⟩
  have hprefix := hkeeps.isPrefix
  rw [show q.diagnostics.toList = [] from hd] at hprefix
  exact (hall (Array.toList_inj.1 (hd.trans (List.prefix_nil.1 hprefix).symm))).trans hus.symm

variable (source label?) in
/-- Recovery only drops tokens: those that are kept of a source are read as its program, and all of them
are kept if nothing wrong is found. -/
theorem exists_reads_parse :
    ∃ n ts, n ≤ maxNesting ∧ ts.Sublist (tokenize source label?).dropLast ∧
      Reads n (.statements (parse source label?).program) ts .endOfInput ∧
      ((parse source label?).diagnostics = [] → ts = (tokenize source label?).dropLast) := by
  have h := exists_reads_parseWithin source label? maxNesting
  rwa [← parse_eq_parseWithin] at h

/-- A source in which nothing wrong is found has complete tokens that are read as its program. -/
lemma reads_of_parseWithin {levels : Nat} {body : Program}
    (h : parseWithin source label? levels = (body, [])) :
    Even (source.toList.count '"') ∧ ∃ n, n ≤ levels ∧
      Reads n (.statements body) (tokenize source label?).dropLast .endOfInput := by
  obtain ⟨n, ts, hn, -, hreads, hall⟩ := exists_reads_parseWithin source label? levels
  rw [h] at hreads
  refine ⟨?_, n, hn, hall (by rw [h]) ▸ hreads⟩
  have htrail := statements_trail (expressionAt levels) false
    (Parser.start source label?).lexemes (.start source label?)
  exact even_count_of_diagnostics_eq_nil htrail (lexemes_statementList_start source label? levels)
    (congrArg Prod.snd h)

/-- An accepted source has complete tokens that are read as its program. -/
lemma reads_of_diagnostics_eq_nil (h : (parse source label?).diagnostics = []) :
    Even (source.toList.count '"') ∧ ∃ n, n ≤ maxNesting ∧
      Reads n (.statements (parse source label?).program) (tokenize source label?).dropLast
        .endOfInput :=
  reads_of_parseWithin ((parse_eq_parseWithin source label?).symm.trans (by rw [h]))

/-- A parser with complete tokens before it that are read as statements finds these statements, or it
runs out of levels of nesting before anything else is found wrong. -/
lemma statementList_of_reads {levels n : Nat} {body : List Stmt} {p : Parser}
    (hdepth : p.depth + levels ≤ maxNesting) (hclosed : ∀ l ∈ p.lexemes, l.closed = true)
    (hclean : p.diagnostics.toList = [])
    (h : Reads n (.statements body) p.tokens .endOfInput) :
    (n ≤ levels →
      (statementList (expressionAt levels) false p).1 = body ∧
        (statementList (expressionAt levels) false p).2.diagnostics.toList = []) ∧
    (¬n ≤ levels →
      (statementList (expressionAt levels) false p).2.diagnostics.toList.head?.map
        Diagnostic.fault = some (.nestingTooDeep maxNesting)) := by
  have hahead : ∀ k, (p.ahead k).diagnostics.toList = [] := fun k => by
    rw [Parser.diagnostics_ahead fun l hl =>
      hclosed l (List.mem_of_mem_tail (List.mem_of_mem_take hl)), hclean]
  have hfaces : p.Faces p.tokens .endOfInput := ⟨[], by simp, rfl⟩
  obtain ⟨hfits, hexhausts⟩ := h.parsed levels p false hdepth hfaces
  refine ⟨fun hn => ?_, fun hn => ?_⟩
  · have hnil : (p.ahead p.tokens.length).lexemes = [] := by
      rw [Parser.lexemes_ahead, Parser.tokens, List.length_map, List.drop_length]
    have hstop : statementList (expressionAt levels) false (p.ahead p.tokens.length) =
        ([], p.ahead p.tokens.length) := by
      rw [statementList_eq, if_pos (atListEnd_of_lexemes_eq_nil hnil _)]
    rw [hfits hn, hstop]
    exact ⟨List.append_nil _, hahead _⟩
  · obtain ⟨k, rest, hd⟩ := hexhausts hn
    rw [hd, hahead]
    rfl

/-- Complete tokens that are read as statements are parsed as these statements, or run out of levels
of nesting before anything else is found wrong. -/
lemma parse_of_reads {n : Nat} {body : List Stmt} (heven : Even (source.toList.count '"'))
    (h : Reads n (.statements body) (tokenize source label?).dropLast .endOfInput) :
    (n ≤ maxNesting →
      (parse source label?).program = body ∧ (parse source label?).diagnostics = []) ∧
    (¬n ≤ maxNesting →
      ((parse source label?).diagnostics.head?.map Diagnostic.fault) =
        some (.nestingTooDeep maxNesting)) := by
  rw [diagnostics_parse, program_parse]
  rw [← Parser.tokens_start] at h
  exact statementList_of_reads (by simp) ((Parser.forall_closed_start_iff source label?).2 heven)
    (Parser.diagnostics_start_eq_nil source label? heven) h

/-- The accepted sources are those whose quotes are even in number and whose tokens are read as
statements within `maxNesting` levels; these statements are the program. -/
theorem parse_eq_nil_iff (body : List Stmt) :
    (parse source label?).diagnostics = [] ∧ (parse source label?).program = body ↔
      Even (source.toList.count '"') ∧ ∃ n, n ≤ maxNesting ∧
        Reads n (.statements body) (tokenize source label?).dropLast .endOfInput := by
  constructor
  · rintro ⟨h, rfl⟩
    exact reads_of_diagnostics_eq_nil h
  · rintro ⟨heven, n, hn, h⟩
    obtain ⟨hprogram, hd⟩ := (parse_of_reads heven h).1 hn
    exact ⟨hd, hprogram⟩

variable (source label?)

/-- Acceptance is exactly the grammar.  An accepted source has quotes even in number and tokens in
the language; a source like this is accepted, or an expression nested too deep is the first thing
found wrong with it; and it is accepted just if its tokens have a reading within the levels of nesting
that there are. -/
theorem acceptance :
    ((parse source label?).diagnostics = [] →
      Even (source.toList.count '"') ∧ IsProgram (tokenize source label?).dropLast) ∧
    (Even (source.toList.count '"') → IsProgram (tokenize source label?).dropLast →
      (parse source label?).diagnostics = [] ∨
        ((parse source label?).diagnostics.head?.map Diagnostic.fault) =
          some (.nestingTooDeep maxNesting)) ∧
    ((parse source label?).diagnostics = [] ↔
      Even (source.toList.count '"') ∧ ∃ n body, n ≤ maxNesting ∧
        Reads n (.statements body) (tokenize source label?).dropLast .endOfInput) := by
  refine ⟨fun h => ?_, fun heven h => ?_, fun h => ?_, ?_⟩
  · obtain ⟨heven, n, -, hreads⟩ := reads_of_diagnostics_eq_nil h
    exact ⟨heven, (isProgram_iff_exists_reads _).2 ⟨n, _, hreads⟩⟩
  · obtain ⟨n, body, hreads⟩ := (isProgram_iff_exists_reads _).1 h
    by_cases hn : n ≤ maxNesting
    · exact .inl ((parse_of_reads heven hreads).1 hn).2
    · exact .inr ((parse_of_reads heven hreads).2 hn)
  · obtain ⟨heven, n, hn, hreads⟩ := reads_of_diagnostics_eq_nil h
    exact ⟨heven, n, _, hn, hreads⟩
  · rintro ⟨heven, n, body, hn, hreads⟩
    exact ((parse_of_reads heven hreads).1 hn).2

/-- A `let` statement is accepted, so its tokens are in the language. -/
theorem isProgram_let : Even ("let x = 1;".toList.count '"') ∧
    IsProgram (tokenize "let x = 1;" none).dropLast :=
  (acceptance "let x = 1;" none).1 (by decide +kernel)

end ScriptSyntax
