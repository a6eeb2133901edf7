import ScriptSyntax.Proofs.Consistency
import ScriptSyntax.Proofs.Rendering

/-!
# Rendering what was parsed

The tree of an accepted source is made of tokens that the scanner found, so that its names, values and
operators are those of the tokens, and the texts of the tokens are texts of their kinds.  Unless there is
a conditional or a function in it, such a tree is well-formed.  Its rendering can therefore be parsed
again, and rendered again to the same text, if only the levels of nesting suffice: the rendering has
parentheses around every operator, and may nest deeper than the source did.

## Main statements

* `Stmt.wellFormed_of_consistentBelow`: a plain statement that agrees with its tokens is well-formed.
* `parse_render_parsed`: the rendering of a statement that was parsed, parsed again.
-/

namespace ScriptSyntax

open Grammar

/-! ## Plain trees -/

mutual

/-- Whether no conditional and no function is part of the expression. -/
def Expr.isPlain : Expr → Bool
  | .identifier _ | .integer _ _ | .string _ _ | .boolean _ _ => true
  | .conditional _ _ _ _ | .function _ _ _ => false
  | .prefixOp _ _ r => r.isPlain
  | .infixOp _ _ l r => l.isPlain && r.isPlain
  | .call _ c es => c.isPlain && plainEach es
  | .array _ es => plainEach es
  | .index _ l i => l.isPlain && i.isPlain

/-- Whether none is part of any of the expressions. -/
def plainEach : List Expr → Bool
  | [] => true
  | e :: es => e.isPlain && plainEach es

end

/-- Whether no conditional and no function is part of the statement. -/
def Stmt.isPlain : Stmt → Bool
  | .letBinding _ _ e | .return _ (some e) | .expression _ e => e.isPlain
  | .return _ none => true

/-! ## What agrees with its tokens is well-formed -/

mutual

/-- A plain expression that agrees with its tokens in all its parts is told by its text. -/
lemma Expr.wellFormed_of_consistentBelow : ∀ e : Expr, e.isPlain = true →
    (Node.expr e).ConsistentBelow → e.WellFormed
  | .identifier _, _, h => by
    cases h.consistent with
    | identifier hid => exact .identifier hid
  | .integer _ _, _, h => by
    cases h.consistent with
    | integer hk hne hdigits _ hvalue => exact .integer hk hne hdigits hvalue
  | .string _ _, _, h => by
    cases h.consistent with
    | string hk htext hquote => exact .string hk htext hquote
  | .boolean _ _, _, h => by
    cases h.consistent with
    | boolean hk htext => exact .boolean hk htext
  | .conditional _ _ _ _, hplain, _ | .function _ _ _, hplain, _ => Bool.noConfusion hplain
  | .prefixOp _ _ r, hplain, h => by
    cases h.consistent with
    | prefixOp ho => exact .prefixOp ho (r.wellFormed_of_consistentBelow hplain (h.child .operand))
  | .infixOp _ _ l r, hplain, h => by
    obtain ⟨hl, hr⟩ := Bool.and_eq_true_iff.1 hplain
    cases h.consistent with
    | infixOp ho =>
      exact .infixOp ho (l.wellFormed_of_consistentBelow hl (h.child .leftOperand))
        (r.wellFormed_of_consistentBelow hr (h.child .rightOperand))
  | .call _ c es, hplain, h => by
    obtain ⟨hc, hes⟩ := Bool.and_eq_true_iff.1 hplain
    cases h.consistent with
    | call hk htext =>
      exact .call hk htext (c.wellFormed_of_consistentBelow hc (h.child .callee))
        (wellFormed_of_forall_consistentBelow es hes fun _ he => h.child (.argument he))
  | .array _ es, hplain, h => by
    cases h.consistent with
    | array hk htext =>
      exact .array hk htext
        (wellFormed_of_forall_consistentBelow es hplain fun _ he => h.child (.element he))
  | .index _ l i, hplain, h => by
    obtain ⟨hl, hi⟩ := Bool.and_eq_true_iff.1 hplain
    cases h.consistent with
    | index hk htext =>
      exact .index hk htext (l.wellFormed_of_consistentBelow hl (h.child .indexed))
        (i.wellFormed_of_consistentBelow hi (h.child .index))

lemma wellFormed_of_forall_consistentBelow : ∀ es : List Expr, plainEach es = true →
    (∀ e ∈ es, (Node.expr e).ConsistentBelow) → ∀ e ∈ es, e.WellFormed
  | [], _, _ => fun _ he => absurd he List.not_mem_nil
  | e :: es, hplain, h => by
    obtain ⟨he, hes⟩ := Bool.and_eq_true_iff.1 hplain
    obtain ⟨hfirst, hrest⟩ := List.forall_mem_cons.1 h
    exact List.forall_mem_cons.2 ⟨e.wellFormed_of_consistentBelow he hfirst,
      wellFormed_of_forall_consistentBelow es hes hrest⟩

end

/-- A plain statement that agrees with its tokens is a program that its text tells. -/
lemma Stmt.wellFormed_of_consistentBelow {s : Stmt} (hplain : s.isPlain = true)
    (h : (Node.stmt s).ConsistentBelow) : Program.WellFormed [s] := by
  cases s with
  | letBinding t id e =>
    have hid : (Node.name id).Consistent := (h.child .target).consistent
    cases h.consistent with
    | letBinding hk htext =>
      cases hid with
      | name hid =>
        exact .cons (.letBinding hk htext hid
          (e.wellFormed_of_consistentBelow hplain (h.child .value))) .nil
  | «return» t e? =>
    cases h.consistent with
    | «return» hk htext =>
      refine .cons (.return hk htext fun e he => ?_) .nil
      obtain rfl := he
      exact e.wellFormed_of_consistentBelow hplain (h.child .returned)
  | expression t e => exact .expression (e.wellFormed_of_consistentBelow hplain (h.child .expression))

/-- A plain statement of an accepted source is told by its text. -/
lemma wellFormed_of_mem_program {source : String} {label? : Option String}
    (h : (parse source label?).diagnostics = []) {s : Stmt} (hs : s ∈ (parse source label?).program)
    (hplain : s.isPlain = true) : Program.WellFormed [s] := by
  obtain ⟨-, n, -, hreads⟩ := reads_of_diagnostics_eq_nil h
  exact Stmt.wellFormed_of_consistentBelow hplain
    (hreads.consistent (fun _ ht => hasText_of_mem_tokenize ht) s hs)

/-! ## Rendering without places -/

section Places

variable (f : Position → Position)

mutual

/-- The text of an expression says nothing of its places. -/
lemma Expr.render_relocate : ∀ e : Expr, (e.relocate f).render = e.render
  | .identifier _ | .integer _ _ | .string _ _ | .boolean _ _ => rfl
  | .prefixOp _ _ right => by
    rw [Expr.relocate, Expr.render, Expr.render, Expr.render_relocate right]
  | .infixOp _ _ left right => by
    rw [Expr.relocate, Expr.render, Expr.render, Expr.render_relocate left,
      Expr.render_relocate right]
  | .conditional _ condition consequence alternative => by
    rw [Expr.relocate, Expr.render, Expr.render, Expr.render_relocate condition,
      Block.render_relocate consequence, renderElse_relocate alternative]
  | .function _ parameters body => by
    have hnames : (parameters.map (Identifier.relocate f)).map Identifier.name =
        parameters.map Identifier.name := List.map_map
    rw [Expr.relocate, Expr.render, Expr.render, Block.render_relocate body, hnames,
      Token.text_relocate]
  | .call _ callee arguments => by
    rw [Expr.relocate, Expr.render, Expr.render, Expr.render_relocate callee,
      renderEach_relocate arguments]
  | .array _ elements => by
    rw [Expr.relocate, Expr.render, Expr.render, renderEach_relocate elements]
  | .index _ left index => by
    rw [Expr.relocate, Expr.render, Expr.render, Expr.render_relocate left,
      Expr.render_relocate index]

lemma renderEach_relocate : ∀ es : List Expr, renderEach (relocateEach f es) = renderEach es
  | [] => rfl
  | e :: es => by
    rw [relocateEach, renderEach, renderEach, Expr.render_relocate e, renderEach_relocate es]

lemma renderElse_relocate : ∀ alternative : Option Block,
    renderElse (relocateElse f alternative) = renderElse alternative
  | none => rfl
  | some block => by rw [relocateElse, renderElse, renderElse, Block.render_relocate block]

lemma Stmt.render_relocate : ∀ s : Stmt, (s.relocate f).render = s.render
  | .letBinding _ _ value => by
    rw [Stmt.relocate, Stmt.render, Stmt.render, Expr.render_relocate value, Token.text_relocate]
    rfl
  | .return _ value => by
    rw [Stmt.relocate, Stmt.render, Stmt.render, renderValue_relocate value, Token.text_relocate]
  | .expression _ expr => by rw [Stmt.relocate, Stmt.render, Stmt.render, Expr.render_relocate expr]

lemma renderValue_relocate : ∀ value : Option Expr,
    renderValue (relocateValue f value) = renderValue value
  | none => rfl
  | some value => by rw [relocateValue, renderValue, renderValue, Expr.render_relocate value]

lemma Block.render_relocate : ∀ b : Block, (b.relocate f).render = b.render
  | .mk _ body => by rw [Block.relocate, Block.render, Block.render, renderStmts_relocate body]

lemma renderStmts_relocate : ∀ body : List Stmt,
    renderStmts (relocateStmts f body) = renderStmts body
  | [] => rfl
  | s :: rest => by
    rw [relocateStmts, renderStmts, renderStmts, Stmt.render_relocate s, renderStmts_relocate rest]

end

end Places

/-- The text of a program says nothing of its places. -/
lemma Program.render_unplaced (p : Program) : p.unplaced.render = p.render := by
  rw [unplaced, relocate, ← relocateStmts_eq_map]
  exact renderStmts_relocate _ p

/-- Nor does it say which token an expression statement starts with. -/
lemma Program.render_asRendered (p : Program) :
    Program.render (p.map Stmt.asRendered) = p.render := by
  induction p with
  | nil => rfl
  | cons s p ih =>
    have hs : s.asRendered.render = s.render := by cases s <;> rfl
    rw [List.map_cons, render, renderStmts, hs]
    exact congrArg (s.render ++ ·) ih

/-! ## The rendering of a statement, parsed again -/

/-- If a source is accepted as a single statement without conditionals and functions, the rendering of
that statement is accepted and rendered to the same text, as long as it takes no more than `maxNesting`
levels of nesting; if it takes more, this is the first thing that is found wrong with it. -/
theorem parse_render_parsed (source : String) (label? : Option String)
    (haccepted : (parse source label?).diagnostics = [])
    (hsingle : (parse source label?).program.length = 1)
    (hplain : ∀ s ∈ (parse source label?).program, s.isPlain = true) :
    ((∀ s ∈ (parse source label?).program, s.need ≤ maxNesting) →
      (parse (parse source label?).program.render label?).diagnostics = [] ∧
        (parse (parse source label?).program.render label?).program.render =
          (parse source label?).program.render) ∧
    ((∃ s ∈ (parse source label?).program, maxNesting < s.need) →
      (parse (parse source label?).program.render label?).diagnostics.head?.map Diagnostic.fault =
        some (.nestingTooDeep maxNesting)) := by
  obtain ⟨s, hs⟩ := List.length_eq_one_iff.1 hsingle
  have hmem : s ∈ (parse source label?).program := by
    rw [hs]
    exact List.mem_cons_self
  have hwf : Program.WellFormed (parse source label?).program :=
    hs ▸ wellFormed_of_mem_program haccepted hmem (hplain s hmem)
  obtain ⟨n, p', hp, hn, hreads⟩ := hwf.reads (hwf.tokenize_eq label?)
  obtain ⟨hfits, hdeep⟩ := parse_of_reads hwf.spells.even_count hreads
  constructor
  · intro hneed
    obtain ⟨hprogram, hdiagnostics⟩ := hfits ((hn _).2 hneed)
    refine ⟨hdiagnostics, ?_⟩
    rw [hprogram, ← p'.render_unplaced, hp, Program.render_unplaced, Program.render_asRendered]
  · rintro ⟨s, hs, hlt⟩
    exact hdeep fun hle => absurd ((hn _).1 hle s hs) (not_le.2 hlt)

/-- Operators of two powers: the rendering of `1+2*3;` groups them, and is its own rendering. -/
theorem parse_render_parsed_sum :
    (parse "1+2*3;" none).diagnostics = [] ∧ (parse "1+2*3;" none).program.length = 1 ∧
      (∀ s ∈ (parse "1+2*3;" none).program, s.isPlain = true) ∧
      (∀ s ∈ (parse "1+2*3;" none).program, s.need ≤ maxNesting) ∧
      (parse (parse "1+2*3;" none).program.render none).diagnostics = [] ∧
      (parse (parse "1+2*3;" none).program.render none).program.render =
        (parse "1+2*3;" none).program.render := by
  have haccepted : (parse "1+2*3;" none).diagnostics = [] := by decide +kernel
  have hsingle : (parse "1+2*3;" none).program.length = 1 := by decide +kernel
  have hplain : ∀ s ∈ (parse "1+2*3;" none).program, s.isPlain = true := by decide +kernel
  have hneed : ∀ s ∈ (parse "1+2*3;" none).program, s.need ≤ maxNesting := by decide +kernel
  exact ⟨haccepted, hsingle, hplain, hneed,
    (parse_render_parsed "1+2*3;" none haccepted hsingle hplain).1 hneed⟩

/-- Fifty negations take fifty-one levels of nesting, and their rendering a hundred and one: it has
parentheses around each of them, and is not accepted. -/
theorem parse_render_fifty_negations :
    (parse "--------------------------------------------------x" none).diagnostics = [] ∧
      (parse "--------------------------------------------------x" none).program.length = 1 ∧
      (∀ s ∈ (parse "--------------------------------------------------x" none).program,
        s.isPlain = true) ∧
      (parse (parse "--------------------------------------------------x" none).program.render
        none).diagnostics ≠ [] := by
  decide +kernel

end ScriptSyntax
