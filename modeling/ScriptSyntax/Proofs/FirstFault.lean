import ScriptSyntax.Proofs.Parser.Awaited
import ScriptSyntax.Proofs.Parser.Start
import ScriptSyntax.Proofs.Scanner.Tokenization

/-!
# The first fault

The first diagnostic about the grammar points at the first token that is out of place.  The tokens in
front of it begin a program, for they have taken the parser to goals that can all be met; and no program
begins with them and that token, for the goals do not go on with it.  Only a lack of levels of nesting
is told of a token that may be in its place.

## Main statements

* `Parser.blames_of_firstFault?`: the first diagnostic about the grammar is one of those that the goals
  of the parser explain.
* `parse_firstFault`: what it says of the tokens of the source.
-/

namespace ScriptSyntax

open Grammar

variable {source : String} {label? : Option String} {d : Diagnostic}

namespace Parser

/-- In front of the first token a program is awaited. -/
lemma awaits_start (source : String) (label? : Option String) :
    (start source label?).Awaits [.program] (start source label?) := by
  refine ⟨rfl, fun d hd => ?_, [], rfl, .refl⟩
  rw [diagnostics_start] at hd
  obtain ⟨l, -, hl⟩ := List.mem_filterMap.1 hd
  exact Lexeme.isLexical_of_diagnostic? hl

/-- The first diagnostic about the grammar is one of those that the goals of the parser explain. -/
theorem blames_of_firstFault? (hd : firstFault? (parse source label?).diagnostics = some d) :
    (start source label?).Blames d := by
  have hsub := Rule.meets_expressionAt (start source label?) maxNesting
  rw [diagnostics_parse] at hd
  rcases Rule.statementList_awaits hsub false (awaits_start source label?) with
    ⟨e, he, hblames⟩ | ⟨hawaits, -⟩
  · obtain rfl := Option.some.inj (he.symm.trans hd)
    exact hblames
  · -- a parse that goes on to the end has told of nothing but tokens by themselves
    have hlexical := hawaits.isLexical d (List.mem_of_find?_eq_some hd)
    have hnot := List.find?_some hd
    rw [hlexical] at hnot
    cases hnot

/-- The tokens of a parser and the end marker start with the current token. -/
lemma exists_tokens_concat (p : Parser) :
    ∃ us, p.tokens ++ [.endOfInput p.finish] = p.current :: us := by
  by_cases h : p.lexemes = []
  · exact ⟨[], by simp [tokens, current, tokenAt, h]⟩
  · obtain ⟨l, ls, hl⟩ := List.exists_cons_of_ne_nil h
    exact ⟨ls.map Lexeme.token ++ [.endOfInput p.finish], by simp [tokens, current, tokenAt, hl]⟩

end Parser

/-- Two tokens of a source that start at the same place are the same token. -/
lemma eq_of_position_eq (hlen : source.length < 2 ^ 32) {i j : ℕ} {t u : Token}
    (ht : (tokenize source label?)[i]? = some t) (hu : (tokenize source label?)[j]? = some u)
    (h : u.position = t.position) : j = i := by
  obtain ⟨hi, rfl⟩ := List.getElem?_eq_some_iff.1 ht
  obtain ⟨hj, rfl⟩ := List.getElem?_eq_some_iff.1 hu
  have hfirst : ((tokenize source label?)[j]).first = ((tokenize source label?)[i]).first :=
    congrArg (fun place => place.offset.toNat) h
  have hpairwise := List.pairwise_iff_getElem.1 (tokenize_pairwise_first hlen label?)
  rcases Nat.lt_trichotomy j i with hlt | heq | hlt
  · exact absurd hfirst (hpairwise j i hj hi hlt).ne
  · exact heq
  · exact absurd hfirst (hpairwise i j hi hj hlt).ne'

/-- The first diagnostic about the grammar is at the place of one token.  The tokens in front of it
begin a program.  Unless it is about levels of nesting, no program begins with these tokens and that
one, and if that one is the end marker, the tokens in front of it make no program. -/
theorem parse_firstFault (source : String) (label? : Option String) (d : Diagnostic)
    (hlen : source.length < 2 ^ 32)
    (hd : firstFault? (parse source label?).diagnostics = some d) :
    ∃ i t, (tokenize source label?)[i]? = some t ∧ t.position = d.position ∧
      (∀ j u, (tokenize source label?)[j]? = some u → u.position = d.position → j = i) ∧
      (∃ us, IsProgram ((tokenize source label?).take i ++ us)) ∧
      ((∀ limit, d.fault ≠ .nestingTooDeep limit) →
        (∀ us, ¬IsProgram ((tokenize source label?).take (i + 1) ++ us)) ∧
          (t.kind = .endOfInput → ¬IsProgram ((tokenize source label?).take i))) := by
  obtain ⟨gs, p, hawaits, hposition, hfault⟩ := Parser.blames_of_firstFault? hd
  obtain ⟨ts, hts, hrun⟩ := hawaits.run
  obtain ⟨us, hus⟩ := p.exists_tokens_concat
  have htokens : tokenize source label? = ts ++ p.current :: us := by
    rw [Parser.tokenize_eq_start, hts, List.append_assoc, ← hawaits.finish_eq, hus]
  have hget : (tokenize source label?)[ts.length]? = some p.current := by simp [htokens]
  have htake : (tokenize source label?).take ts.length = ts := by simp [htokens]
  have htake' : (tokenize source label?).take (ts.length + 1) = ts ++ [p.current] := by
    rw [List.take_add_one, hget, htake, Option.toList_some]
  refine ⟨ts.length, p.current, hget, hposition.symm, fun j u hu huplace => ?_, ?_, fun hdeep => ?_⟩
  · exact eq_of_position_eq hlen hget hu (huplace.trans hposition)
  · rw [htake]
    exact hrun.exists_isProgram
  · have hreject := hfault.resolve_left fun ⟨limit, hlimit⟩ => hdeep limit hlimit
    rw [htake, htake']
    refine ⟨fun vs => ?_, fun hend => hrun.not_isProgram_of_end hend hreject⟩
    rw [List.append_assoc, List.singleton_append]
    exact hrun.not_isProgram hreject vs

/-- A `let` without a name: no program begins with its first two tokens. -/
theorem parse_firstFault_nameless_let :
    "let = 1;".length < 2 ^ 32 ∧
      firstFault? (parse "let = 1;" none).diagnostics =
        some ⟨.expectedToken .identifier .assign, ⟨4, "shell"⟩⟩ ∧
      ∃ i t, (tokenize "let = 1;" none)[i]? = some t ∧ t.position = ⟨4, "shell"⟩ ∧
        (∃ us, IsProgram ((tokenize "let = 1;" none).take i ++ us)) ∧
        ∀ us, ¬IsProgram ((tokenize "let = 1;" none).take (i + 1) ++ us) := by
  have hd : firstFault? (parse "let = 1;" none).diagnostics =
      some ⟨.expectedToken .identifier .assign, ⟨4, "shell"⟩⟩ := by decide +kernel
  obtain ⟨i, t, hget, hplace, -, hbegins, hfault⟩ :=
    parse_firstFault "let = 1;" none _ (by decide) hd
  exact ⟨by decide, hd, i, t, hget, hplace, hbegins, (hfault fun _ h => by cases h).1⟩

end ScriptSyntax
