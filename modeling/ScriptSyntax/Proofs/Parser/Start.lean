import ScriptSyntax.Proofs.Parser.Course
import ScriptSyntax.Proofs.Parser.Outcome
import ScriptSyntax.Proofs.Scanner.Append

/-!
# The parse of a source

What a parse of a source starts from, and what it does: it reads the statements of the source with
all levels of nesting left.  The parser for expressions asks the parser it is called on for the levels
that are left; statements of a program are inside of no expression, so that these are always all of
them.

## Main statements

* `program_parse`, `diagnostics_parse`: the program and the diagnostics of a source.
* `Parser.tokens_start`: the parser starts with the tokens of the source before it.
-/

namespace ScriptSyntax

namespace Parser

/-- The parser that the statements of a source are read from. -/
def start (source : String) (label? : Option String) : Parser :=
  (ofSource source label?).note (.began (ofSource source label?).label)

variable (source : String) (label? : Option String)

lemma lexemes_start :
    (start source label?).lexemes = scan (label?.getD defaultLabel) 0 source.toList :=
  (Scanner.ofSource source label?).lexemes_fst

lemma finish_start :
    (start source label?).finish = ⟨.ofNat source.toList.length, label?.getD defaultLabel⟩ := by
  change (Scanner.ofSource source label?).lexemes.2.position = _
  rw [Scanner.lexemes_snd]
  simp [Scanner.ofSource]

@[simp] lemma depth_start : (start source label?).depth = 0 := rfl

/-- Before the parse begins only the first token can have told what is wrong with it. -/
lemma diagnostics_start :
    (start source label?).diagnostics.toList =
      (start source label?).lexemes.head?.toList.filterMap Lexeme.diagnostic? := by
  have h : ∀ lexemes : List Lexeme,
      ([] ++ lexemes.head?.toList.filterMap Lexeme.diagnostic?).toArray.toList =
        lexemes.head?.toList.filterMap Lexeme.diagnostic? := fun lexemes => rfl
  exact h (Scanner.ofSource source label?).lexemes.1

/-- Nothing is wrong with the grammar before the parse begins. -/
lemma grammatical_start : (start source label?).grammatical = [] := by
  rw [grammatical, diagnostics_start, filter_not_isLexical_filterMap]

/-- The tokens of a source are those that the parser starts with, and the end marker. -/
lemma tokenize_eq_start :
    tokenize source label? =
      (start source label?).tokens ++ [.endOfInput (start source label?).finish] := rfl

/-- The parser starts with the tokens of the source before it. -/
theorem tokens_start : (start source label?).tokens = (tokenize source label?).dropLast := by
  rw [tokenize_eq_start, List.dropLast_concat]

/-- The tokens of a source, by what the text shows. -/
lemma tokenize_dropLast :
    (tokenize source label?).dropLast =
      (scan (label?.getD defaultLabel) 0 source.toList).map Lexeme.token := by
  rw [← tokens_start, tokens, lexemes_start]

/-- No token of a source is the end marker. -/
lemma kind_ne_of_mem_start {l : Lexeme} (h : l ∈ (start source label?).lexemes) :
    l.token.kind ≠ .endOfInput := by
  rw [lexemes_start] at h
  exact kind_ne_endOfInput_of_mem_scan h

/-- The tokens of a source are complete if and only if its quotes are even in number. -/
lemma forall_closed_start_iff :
    (∀ l ∈ (start source label?).lexemes, l.closed = true) ↔ Even (source.toList.count '"') := by
  rw [lexemes_start, forall_closed_scan_iff]

/-- A source whose quotes are even in number starts without a diagnostic. -/
lemma diagnostics_start_eq_nil (h : Even (source.toList.count '"')) :
    (start source label?).diagnostics.toList = [] := by
  have hclosed := (forall_closed_start_iff source label?).2 h
  rw [diagnostics_start]
  cases hl : (start source label?).lexemes with
  | nil => rfl
  | cons l ls =>
    have hc := hclosed l (by rw [hl]; exact List.mem_cons_self)
    simp [Lexeme.diagnostic?, hc]

end Parser

namespace Rule

/-! ## The levels that are left -/

section Congr

variable {α β : Type} {sub sub' : Subparser} {p : Parser}

lemma bind_congr {x : ParseM α} {f g : α → ParseM β}
    (h : ∀ a q, x p = .ok a q → f a q = g a q) : (x >>= f) p = (x >>= g) p := by
  rw [bind_apply, bind_apply]
  cases hx : x p with
  | ok a q => exact h a q hx
  | error d q => rfl

lemma sub_bind_congr {power : Power} (f : Expr → ParseM β) (h : sub power p = sub' power p) :
    (sub power >>= f) p = (sub' power >>= f) p := by
  rw [bind_apply, bind_apply, h]

/-- A statement calls for expressions at its own depth only. -/
lemma statement_congr (h : ∀ power q, q.depth = p.depth → sub power q = sub' power q) :
    statement sub p = statement sub' p := by
  have hlet : letStatement sub p = letStatement sub' p := by
    rw [letStatement, letStatement, get_bind, get_bind]
    refine bind_congr fun id q hq => bind_congr fun _ q' hq' => ?_
    rw [advance_bind, advance_bind]
    refine sub_bind_congr _ (h _ _ ?_)
    rw [Parser.depth_advance, (Moves.ok _ hq').depth_eq, (Moves.ok _ hq).depth_eq]
  have hreturn : returnStatement sub p = returnStatement sub' p := by
    have hvalue : returnValue sub p = returnValue sub' p := by
      rw [returnValue, returnValue, get_bind, get_bind]
      split
      · rfl
      · rw [advance_bind, advance_bind, map_apply, map_apply, h .lowest p.advance rfl]
    rw [returnStatement, returnStatement, get_bind, get_bind, bind_apply, bind_apply, hvalue]
  have hexpression : expressionStatement sub p = expressionStatement sub' p := by
    rw [expressionStatement_apply, expressionStatement_apply, h .lowest p rfl]
  rw [statement, statement, get_bind, get_bind]
  generalize p.current.kind = kind
  cases kind <;> first | exact hlet | exact hreturn | exact hexpression

/-- So does a list of statements. -/
theorem statementList_congr [∀ power, Moves (sub power)] [∀ power, Moves (sub' power)]
    (inBlock : Bool) (h : ∀ power q, q.depth = p.depth → sub power q = sub' power q) :
    statementList sub inBlock p = statementList sub' inBlock p := by
  induction hlen : p.lexemes.length using Nat.strong_induction_on generalizing p with
  | h n ih =>
    subst hlen
    rw [statementList_eq, statementList_eq, ← statement_congr h]
    split
    · rfl
    · rename_i hend
      have hnext : ∀ q, p.Trail q → statementList sub inBlock q.advance =
          statementList sub' inBlock q.advance := by
        intro q hq
        refine ih _ (length_advance_lt_of_not_atListEnd hend hq) (fun power r hr => h power r ?_) rfl
        rw [hr, Parser.depth_advance, hq.depth_eq]
      cases hs : statement sub p with
      | ok s q => simp only [hnext q (Moves.ok _ hs)]
      | error d q =>
        have hq := ((Moves.error _ hs).record d).synchronize inBlock
        simp only [hnext _ hq]

end Congr

/-- A list of statements with `left` levels left. -/
lemma statementList_expression {p : Parser} (left : Nat) (hp : p.depth + left = maxNesting)
    (inBlock : Bool) :
    statementList expression inBlock p = statementList (expressionAt left) inBlock p := by
  refine statementList_congr inBlock fun power q hq => ?_
  rw [expression_apply]
  congr
  omega

end Rule

variable (source : String) (label? : Option String)

lemma parse_eq_statementList :
    (parse source label?).program =
        (Rule.statementList Rule.expression false (.start source label?)).1 ∧
      (parse source label?).diagnostics =
        (Rule.statementList Rule.expression false (.start source label?)).2.diagnostics.toList :=
  ⟨rfl, rfl⟩

/-- The program of a source is its list of statements, with all levels left. -/
theorem program_parse :
    (parse source label?).program =
      (Rule.statementList (Rule.expressionAt maxNesting) false (.start source label?)).1 := by
  rw [(parse_eq_statementList source label?).1,
    Rule.statementList_expression maxNesting (by simp)]

/-- The diagnostics of a source are those of its list of statements. -/
theorem diagnostics_parse :
    (parse source label?).diagnostics =
      (Rule.statementList (Rule.expressionAt maxNesting) false
        (.start source label?)).2.diagnostics.toList := by
  rw [(parse_eq_statementList source label?).2,
    Rule.statementList_expression maxNesting (by simp)]

/-- The program and the diagnostics of a source, with so many levels of nesting to parse it. -/
def parseWithin (levels : Nat) : Program × List Diagnostic :=
  let run := Rule.statementList (Rule.expressionAt levels) false (.start source label?)
  (run.1, run.2.diagnostics.toList)

/-- A parse has `maxNesting` levels. -/
theorem parse_eq_parseWithin :
    ((parse source label?).program, (parse source label?).diagnostics) =
      parseWithin source label? maxNesting := by
  rw [program_parse, diagnostics_parse, parseWithin]

end ScriptSyntax
