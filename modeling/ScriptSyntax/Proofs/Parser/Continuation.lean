import ScriptSyntax.Proofs.Parser.Relocation
import ScriptSyntax.Proofs.Parser.Start

/-!
# One source behind another

The tokens of `a ++ b` are those of `a` and those of `b`, the latter moved to the right by the length of
`a`.  A parser of the whole that has come to the first token of `b`, and is inside of no expression
there, goes on as the parse of `b` alone does.

## Main statements

* `Parser.lexemes_start_append`: the tokens of a source put together of two.
* `Parser.Reaches.program_eq`, `Parser.Reaches.diagnostics_eq_append`: what comes of a parser that has
  come to the tokens of `b`.
* `parse_spaces_append`: what is parsed behind spaces is parsed as it is alone.
-/

namespace ScriptSyntax

namespace Parser

variable {a b : String} {label? : Option String}

/-- At a seam the tokens of two sources follow one another. -/
theorem lexemes_start_append (h : Seam a.toList b.toList) (label? : Option String) :
    (start (a ++ b) label?).lexemes = (start a label?).lexemes ++
      (start b label?).lexemes.map (Lexeme.relocate (Position.shift a.length)) := by
  rw [lexemes_start, lexemes_start, lexemes_start, String.toList_append, scan_append _ _ h, scan_shift,
    String.length_toList]

lemma finish_start_append :
    (start (a ++ b) label?).finish = (start b label?).finish.shift a.length := by
  rw [finish_start, finish_start, Position.shift, String.toList_append, List.length_append,
    String.length_toList, UInt32.ofNat_add, UInt32.add_comm]

/-- The parser has come to the tokens of `source`, which stands behind `count` characters, and has
found `before` until then. -/
structure Reaches (source : String) (label? : Option String) (count : Nat)
    (before : List Diagnostic) (p : Parser) : Prop where
  lexemes_eq : p.lexemes =
    (start source label?).lexemes.map (Lexeme.relocate (Position.shift count))
  finish_eq : p.finish = (start source label?).finish.shift count
  diagnostics_eq : p.diagnostics.toList =
    before ++ p.lexemes.head?.toList.filterMap Lexeme.diagnostic?
  depth_eq : p.depth = 0

namespace Reaches

variable {source : String} {count : Nat} {before : List Diagnostic} {p : Parser}

lemma moved (h : p.Reaches source label? count before) :
    (start source label?).Moved (Position.shift count) before p := by
  refine ⟨h.lexemes_eq, h.finish_eq, ?_, h.depth_eq⟩
  rw [h.diagnostics_eq, h.lexemes_eq, diagnostics_start]
  cases (start source label?).lexemes with
  | nil => rfl
  | cons l ls =>
    simp only [List.map_cons, List.head?_cons, Option.toList_some, List.filterMap_cons,
      List.filterMap_nil, Lexeme.diagnostic?_relocate]
    cases l.diagnostic? <;> rfl

/-- The statements are those of `source`. -/
theorem program_eq (h : p.Reaches source label? count before) :
    (Rule.statementList (Rule.expressionAt maxNesting) false p).1 =
      Program.relocate (Position.shift count) (parse source label?).program := by
  rw [(Rule.statementList_moved h.moved maxNesting false).1, program_parse]
  rfl

/-- The diagnostics are those found before, and behind them those of `source`. -/
theorem diagnostics_eq_append (h : p.Reaches source label? count before) :
    (Rule.statementList (Rule.expressionAt maxNesting) false p).2.diagnostics.toList =
      before ++ (parse source label?).diagnostics.map
        (Diagnostic.relocate (Position.shift count)) := by
  rw [(Rule.statementList_moved h.moved maxNesting false).2.diagnostics_eq, diagnostics_parse]

end Reaches

/-- A parser on the token before those of `source` comes to them with the next step. -/
lemma reaches_advance {source : String} {count : Nat} {p : Parser} {l : Lexeme}
    (hlexemes : p.lexemes =
      l :: (start source label?).lexemes.map (Lexeme.relocate (Position.shift count)))
    (hfinish : p.finish = (start source label?).finish.shift count) (hdepth : p.depth = 0) :
    p.advance.Reaches source label? count p.diagnostics.toList := by
  refine ⟨by simp [hlexemes], hfinish, ?_, hdepth⟩
  rw [lexemes_advance, hlexemes, List.tail_cons]
  simp only [advance, hlexemes, List.getElem?_cons_succ, List.head?_eq_getElem?]
  simp

/-- A parser that starts on spaces has come to what is behind them. -/
lemma reaches_start_of_spaces {spaces : String} (h : ∀ c ∈ spaces.toList, isSpace c = true)
    (source : String) (label? : Option String) :
    (start (spaces ++ source) label?).Reaches source label? spaces.length [] := by
  refine ⟨?_, finish_start_append, ?_, depth_start _ _⟩
  · rw [lexemes_start, lexemes_start, String.toList_append, scan_spaces_append h, scan_shift,
      String.length_toList]
  · rw [diagnostics_start, List.nil_append]

end Parser

/-- Spaces in front of a source move all that is found in it by their number. -/
theorem parse_spaces_append {spaces : String} (h : ∀ c ∈ spaces.toList, isSpace c = true)
    (source : String) (label? : Option String) :
    (parse (spaces ++ source) label?).program =
        Program.relocate (Position.shift spaces.length) (parse source label?).program ∧
      (parse (spaces ++ source) label?).diagnostics =
        (parse source label?).diagnostics.map
          (Diagnostic.relocate (Position.shift spaces.length)) := by
  have hreaches := Parser.reaches_start_of_spaces h source label?
  rw [program_parse (spaces ++ source), diagnostics_parse (spaces ++ source)]
  exact ⟨hreaches.program_eq, hreaches.diagnostics_eq_append⟩

end ScriptSyntax
