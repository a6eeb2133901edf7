import ScriptSyntax.Proofs.Parser.Simulation

/-!
# Parses that see the same tokens at other places

A parse reads places but does not look at them: where the tokens of a source are moved, the tree that
is parsed is moved with them, and so are the diagnostics.  What was found before the parse began has
no part in it either.

## Main statements

* `Parser.Moved.statementList`: lists of statements move with their tokens.
-/

namespace ScriptSyntax

/-- The parser `p'` has the tokens of `p` before it, with their places moved by `f`, and has found
what `p` has found behind the diagnostics `before`. -/
structure Parser.Moved (f : Position → Position) (before : List Diagnostic) (p p' : Parser) :
    Prop where
  lexemes_eq : p'.lexemes = p.lexemes.map (Lexeme.relocate f)
  finish_eq : p'.finish = f p.finish
  diagnostics_eq : p'.diagnostics.toList =
    before ++ p.diagnostics.toList.map (Diagnostic.relocate f)
  depth_eq : p'.depth = p.depth

namespace Parser.Moved

variable {f : Position → Position} {before : List Diagnostic} {p p' : Parser}

lemma tokenAt (h : p.Moved f before p') (index : Nat) :
    p'.tokenAt index = (p.tokenAt index).relocate f := by
  rw [Parser.tokenAt, Parser.tokenAt, h.lexemes_eq, h.finish_eq, List.getElem?_map]
  cases p.lexemes[index]? <;> rfl

lemma kind_current (h : p.Moved f before p') : p'.current.kind = p.current.kind := by
  rw [current, h.tokenAt, Token.kind_relocate]
  rfl

lemma kind_lookahead (h : p.Moved f before p') : p'.lookahead.kind = p.lookahead.kind := by
  rw [lookahead, h.tokenAt, Token.kind_relocate]
  rfl

lemma advance (h : p.Moved f before p') : p.advance.Moved f before p'.advance := by
  refine ⟨by simp [h.lexemes_eq], h.finish_eq, ?_, h.depth_eq⟩
  have hfound : p'.lexemes[1]?.toList.filterMap Lexeme.diagnostic? =
      (p.lexemes[1]?.toList.filterMap Lexeme.diagnostic?).map (Diagnostic.relocate f) := by
    rw [h.lexemes_eq, List.getElem?_map]
    cases p.lexemes[1]? with
    | none => rfl
    | some l => simp [List.filterMap_cons, l.diagnostic?_relocate f]; cases l.diagnostic? <;> rfl
  simp only [Parser.advance, hfound]
  simp [h.diagnostics_eq]

lemma record (h : p.Moved f before p') (d : Diagnostic) :
    (p.record d).Moved f before (p'.record (d.relocate f)) :=
  ⟨h.lexemes_eq, h.finish_eq, by simp [Parser.record, h.diagnostics_eq], h.depth_eq⟩

lemma atBoundary (h : p.Moved f before p') (inBlock : Bool) :
    p'.atBoundary inBlock = p.atBoundary inBlock := by
  simp only [Parser.atBoundary, Token.isOneOf, Parser.lookaheadIs, h.kind_current, h.kind_lookahead]

lemma synchronize (h : p.Moved f before p') (inBlock : Bool) :
    (p.synchronize inBlock).Moved f before (p'.synchronize inBlock) := by
  induction hlen : p.lexemes.length using Nat.strong_induction_on generalizing p p' with
  | h n ih =>
    subst hlen
    rw [p.synchronize_eq, p'.synchronize_eq, h.atBoundary]
    split
    · exact h
    · rename_i hgo
      have hlt := Trail.refl.length_advance_lt (p := p) fun hnil =>
        hgo (atBoundary_of_lexemes_eq_nil hnil inBlock)
      exact ih _ hlt h.advance rfl

end Parser.Moved

/-- Parses of the same tokens at other places go side by side and never part. -/
def relocation (f : Position → Position) (before : List Diagnostic) : Simulation where
  place := f
  stop := .semicolon
  stop_eq := .inl rfl
  Near p p' := p.Moved f before p'
  Far p p' := p.Moved f before p'
  near_of_far h := h
  far_of_near h _ := h
  current_eq h := h.tokenAt 0
  lookahead_eq h := h.tokenAt 1
  depth_eq h := h.depth_eq
  advance h := h.advance
  near_depth _ h := ⟨h.lexemes_eq, h.finish_eq, h.diagnostics_eq, rfl⟩
  far_depth _ h := ⟨h.lexemes_eq, h.finish_eq, h.diagnostics_eq, rfl⟩

namespace Rule

variable {f : Position → Position} {before : List Diagnostic} {sub : Subparser} {p p' : Parser}

/-- A list of statements moves with its tokens, if the expressions inside it do. -/
lemma statementList_moved_of_follows [∀ power, Moves (sub power)]
    (hsub : (relocation f before).Follows sub) (h : p.Moved f before p') (inBlock : Bool) :
    (statementList sub inBlock p').1 = (statementList sub inBlock p).1.map (Stmt.relocate f) ∧
      (statementList sub inBlock p).2.Moved f before (statementList sub inBlock p').2 := by
  induction hlen : p.lexemes.length using Nat.strong_induction_on generalizing p p' with
  | h n ih =>
    subst hlen
    have hend : atListEnd inBlock p' = atListEnd inBlock p := by
      simp only [atListEnd, Parser.currentIs, h.kind_current]
    rw [statementList_eq sub inBlock p, statementList_eq sub inBlock p', hend]
    split
    · exact ⟨rfl, h⟩
    · rename_i hgo
      have hnext : ∀ {q q' : Parser}, p.Trail q → q.Moved f before q' →
          (statementList sub inBlock q'.advance).1 =
              (statementList sub inBlock q.advance).1.map (Stmt.relocate f) ∧
            (statementList sub inBlock q.advance).2.Moved f before
              (statementList sub inBlock q'.advance).2 := by
        intro q q' hq hm
        exact ih _ (length_advance_lt_of_not_atListEnd hgo hq) hm.advance rfl
      have hmatch := Simulation.matches_statement hsub (show (relocation f before).Near p p' from h)
      have hok : ∀ s q, statement sub p = .ok s q → p.Trail q := fun s q => Moves.ok _
      have herror : ∀ d q, statement sub p = .error d q → p.Trail q := fun d q => Moves.error _
      generalize statement sub p = r, statement sub p' = r' at hmatch hok herror
      cases hmatch with
      | @ok s q q' hm =>
        replace hm : q.Moved f before q' := hm.elim id And.left
        obtain ⟨h₁, h₂⟩ := hnext (hok _ _ rfl) hm
        exact ⟨by simp [h₁, relocation], h₂⟩
      | @error d q q' hm =>
        replace hm : q.Moved f before q' := hm.elim And.left And.left
        have hcloses : closesBlock (d.relocate f) q' = closesBlock d q := by
          rw [closesBlock, closesBlock, Diagnostic.fault_relocate, Parser.currentIs, Parser.currentIs,
            hm.kind_current]
        have hrec := hm.record d
        simp only [relocation, hcloses]
        split
        · exact ⟨rfl, hrec⟩
        · exact hnext (((herror _ _ rfl).record d).synchronize inBlock) (hrec.synchronize inBlock)

lemma followsBlocks_relocation [∀ power, Moves (sub power)]
    (hsub : (relocation f before).Follows sub) : (relocation f before).FollowsBlocks sub := by
  intro p p' h _
  obtain ⟨h₁, h₂⟩ := statementList_moved_of_follows hsub
    (Parser.Moved.advance (show p.Moved f before p' from h)) true
  have hbody : (relocation f before).Matches (List.map (Stmt.relocate f))
      (fun q q' => q.Moved f before q') (blockBody sub p.advance) (blockBody sub p'.advance) := by
    rw [blockBody_apply, blockBody_apply, h₁]
    exact .ok h₂
  rw [block, get_bind, get_bind, advance_bind, advance_bind, (relocation f before).current_eq h]
  refine hbody.bind fun body q q' hq => ?_
  rw [get_bind, get_bind, Parser.currentIs, Parser.currentIs, hq.kind_current]
  split
  · have hd : (⟨.expectedToken .rightBrace .endOfInput, q'.position⟩ : Diagnostic) =
        Diagnostic.relocate f ⟨.expectedToken .rightBrace .endOfInput, q.position⟩ := by
      rw [Parser.position, Parser.current, hq.tokenAt]
      rfl
    rw [throw_apply, throw_apply, hd]
    exact .error (.inr ⟨hq, fun _ hfault => (by cases hfault), .inl rfl⟩)
  · refine Simulation.matches_pure hq ?_
    rw [Block.relocate, relocateStmts_eq_map]
    rfl

/-- Lists of statements move with their tokens. -/
theorem statementList_moved (h : p.Moved f before p') (levels : Nat) (inBlock : Bool) :
    (statementList (expressionAt levels) inBlock p').1 =
        (statementList (expressionAt levels) inBlock p).1.map (Stmt.relocate f) ∧
      (statementList (expressionAt levels) inBlock p).2.Moved f before
        (statementList (expressionAt levels) inBlock p').2 :=
  statementList_moved_of_follows
    (Simulation.follows_expressionAt (fun _ _ hsub => followsBlocks_relocation hsub) levels) h inBlock

end Rule

end ScriptSyntax
