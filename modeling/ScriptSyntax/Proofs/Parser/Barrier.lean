import ScriptSyntax.Proofs.Parser.Simulation

/-!
# Barriers

A semicolon outside of all blocks keeps apart what stands on its two sides, and so does, as a rule, the
brace that closes a block without blocks inside.  Let two sources start with the same tokens, the last
of them a semicolon or a closing brace and none of them an opening brace.  Until their windows have
passed that last token two parses of them do the same, whatever follows it.

Without an opening brace there are no blocks inside, so that nothing but a list of statements ever
skips tokens.

## Main statements

* `Fragment.statementList_semicolon`: every list of statements stops on the last semicolon and goes on
  behind it.
* `Fragment.closing_statementList`: a block ends on its brace, unless the nesting is too deep there.
-/

namespace ScriptSyntax

/-- Complete tokens without an opening brace that end with `last`. -/
structure Fragment (last : Lexeme) (ls : List Lexeme) : Prop where
  getLast_eq : ls.getLast? = some last
  closed : ∀ l ∈ ls, l.closed = true
  ne_leftBrace : ∀ l ∈ ls, l.token.kind ≠ .leftBrace
  ne_endOfInput : ∀ l ∈ ls, l.token.kind ≠ .endOfInput

/-- The parsers have the tokens `ls` before them and then may part: behind them come `rest` for the
one and `rest'` for the other. -/
structure Parser.Twin (ls rest rest' : List Lexeme) (p p' : Parser) : Prop where
  lexemes_eq : p.lexemes = ls ++ rest
  lexemes_eq' : p'.lexemes = ls ++ rest'
  diagnostics_eq : p'.diagnostics = p.diagnostics
  depth_eq : p'.depth = p.depth

namespace Parser.Twin

variable {l l' : Lexeme} {ls rest rest' : List Lexeme} {p p' : Parser}

lemma current_eq (h : Twin (l :: ls) rest rest' p p') : p.current = l.token := by
  rw [current, tokenAt, h.lexemes_eq]
  rfl

lemma current_eq' (h : Twin (l :: ls) rest rest' p p') : p'.current = l.token := by
  rw [current, tokenAt, h.lexemes_eq']
  rfl

lemma lookahead_eq (h : Twin (l :: l' :: ls) rest rest' p p') : p.lookahead = l'.token := by
  rw [lookahead, tokenAt, h.lexemes_eq]
  rfl

lemma lookahead_eq' (h : Twin (l :: l' :: ls) rest rest' p p') : p'.lookahead = l'.token := by
  rw [lookahead, tokenAt, h.lexemes_eq']
  rfl

lemma advance (h : Twin (l :: l' :: ls) rest rest' p p') :
    Twin (l' :: ls) rest rest' p.advance p'.advance := by
  refine ⟨by simp [h.lexemes_eq], by simp [h.lexemes_eq'], ?_, h.depth_eq⟩
  simp only [Parser.advance, h.lexemes_eq, h.lexemes_eq', h.diagnostics_eq]
  rfl

lemma diagnostics_advance (h : Twin (l :: l' :: ls) rest rest' p p') (hl : l'.closed = true) :
    p.advance.diagnostics = p.diagnostics := by
  simp [Parser.advance, h.lexemes_eq, Lexeme.diagnostic?, hl]

lemma record (h : Twin ls rest rest' p p') (d : Diagnostic) :
    Twin ls rest rest' (p.record d) (p'.record d) :=
  ⟨h.lexemes_eq, h.lexemes_eq', by simp [Parser.record, h.diagnostics_eq], h.depth_eq⟩

lemma with_depth (h : Twin ls rest rest' p p') (depth : Nat) :
    Twin ls rest rest' { p with depth := depth } { p' with depth := depth } :=
  ⟨h.lexemes_eq, h.lexemes_eq', h.diagnostics_eq, rfl⟩

lemma atBoundary (h : Twin (l :: l' :: ls) rest rest' p p') (inBlock : Bool) :
    p'.atBoundary inBlock = p.atBoundary inBlock := by
  simp only [Parser.atBoundary, Parser.lookaheadIs, h.current_eq, h.current_eq', h.lookahead_eq,
    h.lookahead_eq']

end Parser.Twin

namespace Fragment

variable {last : Lexeme} {ls : List Lexeme}

lemma eq_last (h : Fragment last ls) {l : Lexeme} (hl : [l] <:+ ls) : l = last := by
  obtain ⟨front, rfl⟩ := hl
  have := h.getLast_eq
  rw [List.getLast?_append] at this
  exact Option.some.inj this

lemma mem {l : Lexeme} {X : List Lexeme} (hX : l :: X <:+ ls) : l ∈ ls :=
  hX.subset List.mem_cons_self

/-- Parses of a fragment go side by side up to its last token, and nothing is recorded on the way:
only lists of statements record what is wrong, and there are none inside. -/
def simulation (h : Fragment last ls)
    (hstop : last.token.kind = .semicolon ∨ last.token.kind = .rightBrace)
    (rest rest' : List Lexeme) (ds : Array Diagnostic) : Simulation where
  place := id
  stop := last.token.kind
  stop_eq := hstop
  Near p p' := ∃ l X, l :: X <:+ ls ∧ Parser.Twin (l :: X) rest rest' p p' ∧ p.diagnostics = ds
  Far p p' := ∃ l l' X, l :: l' :: X <:+ ls ∧ Parser.Twin (l :: l' :: X) rest rest' p p' ∧
    p.diagnostics = ds
  near_of_far := fun ⟨l, l', X, hX, ht⟩ => ⟨l, l' :: X, hX, ht⟩
  far_of_near := by
    rintro p p' ⟨l, X, hX, ht, hd⟩ hk
    cases X with
    | nil => exact absurd (by rw [ht.current_eq, h.eq_last hX]) hk
    | cons l' X => exact ⟨l, l', X, hX, ht, hd⟩
  current_eq := fun ⟨l, X, _, ht, _⟩ => by rw [ht.current_eq, ht.current_eq', Token.relocate_id]
  lookahead_eq := fun ⟨l, l', X, _, ht, _⟩ => by
    rw [ht.lookahead_eq, ht.lookahead_eq', Token.relocate_id]
  depth_eq := fun ⟨_, _, _, ht, _⟩ => ht.depth_eq
  advance := by
    rintro p p' ⟨l, l', X, hX, ht, hd⟩
    have hX' : l' :: X <:+ ls := (List.suffix_cons _ _).trans hX
    refine ⟨l', X, hX', ht.advance, ?_⟩
    rw [ht.diagnostics_advance (h.closed l' (mem hX')), hd]
  near_depth depth := fun ⟨l, X, hX, ht, hd⟩ => ⟨l, X, hX, ht.with_depth depth, hd⟩
  far_depth depth := fun ⟨l, l', X, hX, ht, hd⟩ => ⟨l, l', X, hX, ht.with_depth depth, hd⟩

variable (h : Fragment last ls)
  (hstop : last.token.kind = .semicolon ∨ last.token.kind = .rightBrace)
  (rest rest' : List Lexeme)

/-- Expressions are parsed alike: there are no blocks in them. -/
lemma follows (ds : Array Diagnostic) (levels : Nat) :
    (h.simulation hstop rest rest' ds).Follows (Rule.expressionAt levels) := by
  refine Simulation.follows_expressionAt (fun sub _ _ p p' hp hk => ?_) levels
  obtain ⟨l, l', X, hX, ht, -⟩ := hp
  rw [ht.current_eq] at hk
  exact absurd hk (h.ne_leftBrace l (mem hX))

/-- Where a diagnostic for a fragment can be placed: at one of its tokens, and if it says that the
nesting is too deep, at a token before the last one. -/
def Told (ls : List Lexeme) (d : Diagnostic) : Prop :=
  (∃ l ∈ ls, d.position = l.token.position) ∧
    ∀ limit, d.fault = .nestingTooDeep limit → ∃ l ∈ ls.dropLast, d.position = l.token.position

lemma mem_dropLast {l l' : Lexeme} {X : List Lexeme} (hX : l :: l' :: X <:+ ls) :
    l ∈ ls.dropLast := by
  obtain ⟨front, rfl⟩ := hX
  rw [List.dropLast_append_of_ne_nil (by simp)]
  simp

/-- A statement in a fragment comes to the same value in both parses, or to the same fault; both
parses stand side by side behind it, and nothing was recorded on the way.  A value leaves the last token
of the fragment ahead, unless that is a semicolon.  A fault where only the last token is left says that
no operand starts there or that the nesting is too deep. -/
theorem statement_outcome (h : Fragment last ls)
    (hstop : last.token.kind = .semicolon ∨ last.token.kind = .rightBrace)
    (rest rest' : List Lexeme) (levels : Nat) {l : Lexeme} {X : List Lexeme} {p p' : Parser}
    (hX : l :: X <:+ ls) (ht : Parser.Twin (l :: X) rest rest' p p') :
    (∃ s q q' l' Y, Rule.statement (Rule.expressionAt levels) p = .ok s q ∧
      Rule.statement (Rule.expressionAt levels) p' = .ok s q' ∧ l' :: Y <:+ ls ∧
      Parser.Twin (l' :: Y) rest rest' q q' ∧ q.diagnostics = p.diagnostics ∧
      (Y = [] → last.token.kind = .semicolon)) ∨
    ∃ d q q' l' Y, Rule.statement (Rule.expressionAt levels) p = .error d q ∧
      Rule.statement (Rule.expressionAt levels) p' = .error d q' ∧ l' :: Y <:+ ls ∧
      Parser.Twin (l' :: Y) rest rest' q q' ∧ q.diagnostics = p.diagnostics ∧
      (Told ls d ∨ Y = [] ∧ d = q.tooDeep) ∧ (Y = [] → d = q.tooDeep ∨ d = q.notAnOperand) := by
  have hmatch : (h.simulation hstop rest rest' p.diagnostics).Matches (Stmt.relocate id)
      (h.simulation hstop rest rest' p.diagnostics).Ended
      (Rule.statement (Rule.expressionAt levels) p)
      (Rule.statement (Rule.expressionAt levels) p') :=
    Simulation.matches_statement (h.follows hstop rest rest' p.diagnostics levels)
      ⟨l, X, hX, ht, rfl⟩
  generalize Rule.statement (Rule.expressionAt levels) p = r,
    Rule.statement (Rule.expressionAt levels) p' = r' at hmatch
  cases hmatch with
  | @ok s q q' hended =>
    left
    rcases hended with ⟨l₁, l₂, Y, hY, hq, hd⟩ | ⟨⟨l₁, Y, hY, hq, hd⟩, hk⟩
    · exact ⟨s, q, q', l₁, l₂ :: Y, rfl, by rw [Stmt.relocate_id], hY, hq, hd,
        fun hnil => absurd hnil (List.cons_ne_nil _ _)⟩
    · refine ⟨s, q, q', l₁, Y, rfl, by rw [Stmt.relocate_id], hY, hq, hd, ?_⟩
      rintro rfl
      rw [← h.eq_last hY, ← hq.current_eq, hk]
  | @error d q q' hfaulty =>
    right
    rcases hfaulty with ⟨⟨l₁, Y, hY, hq, hd⟩, hfault⟩ | ⟨⟨l₁, l₂, Y, hY, hq, hd⟩, hnesting, hplace⟩
    · refine ⟨d, q, q', l₁, Y, rfl, rfl, hY, hq, hd, ?_, fun _ => hfault⟩
      have hplace : q.position = l₁.token.position := by rw [Parser.position, hq.current_eq]
      rcases hfault with rfl | rfl
      · cases Y with
        | nil => exact .inr ⟨rfl, rfl⟩
        | cons l₂ Y => exact .inl ⟨⟨l₁, mem hY, hplace⟩, fun _ _ => ⟨l₁, mem_dropLast hY, hplace⟩⟩
      · exact .inl ⟨⟨l₁, mem hY, hplace⟩, fun _ hfault => by cases hfault⟩
    · refine ⟨d, q, q', l₁, l₂ :: Y, rfl, rfl, hY, hq, hd, .inl ⟨?_, ?_⟩,
        fun hnil => absurd hnil (List.cons_ne_nil _ _)⟩
      · rcases hplace with hplace | hplace
        · exact ⟨l₁, mem hY, by rw [hplace, Parser.position, hq.current_eq]⟩
        · exact ⟨l₂, mem ((List.suffix_cons _ _).trans hY), by rw [hplace, hq.lookahead_eq]⟩
      · exact fun limit hlimit => absurd hlimit (hnesting limit)

end Fragment

/-! ## Up to a semicolon -/

namespace Fragment

open Rule

variable {last : Lexeme} {ls rest rest' : List Lexeme} {p p' : Parser}

/-- Outside of blocks skipping stops on the last semicolon, if not before. -/
lemma synchronize_semicolon (h : Fragment last ls) (hlast : last.token.kind = .semicolon)
    {l : Lexeme} {X : List Lexeme} (hX : l :: X <:+ ls)
    (ht : Parser.Twin (l :: X) rest rest' p p') :
    ∃ l X, l :: X <:+ ls ∧
      Parser.Twin (l :: X) rest rest' (p.synchronize false) (p'.synchronize false) := by
  induction X generalizing l p p' with
  | nil =>
    have hk : l.token.kind = .semicolon := by rw [h.eq_last hX, hlast]
    rw [p.synchronize_eq, p'.synchronize_eq,
      if_pos (by simp [Parser.atBoundary, Token.isOneOf, ht.current_eq, hk]),
      if_pos (by simp [Parser.atBoundary, Token.isOneOf, ht.current_eq', hk])]
    exact ⟨l, [], hX, ht⟩
  | cons l' X ih =>
    rw [p.synchronize_eq, p'.synchronize_eq, ht.atBoundary]
    split
    · exact ⟨l, l' :: X, hX, ht⟩
    · exact ih ((List.suffix_cons _ _).trans hX) ht.advance

/-- The list goes on in a fragment: its tokens are not the end of the source. -/
lemma not_atListEnd (h : Fragment last ls) {l : Lexeme} {X : List Lexeme} (hX : l :: X <:+ ls)
    (ht : Parser.Twin (l :: X) rest rest' p p') (inBlock : Bool)
    (hbrace : inBlock = true → l.token.kind ≠ .rightBrace) :
    ¬atListEnd inBlock p = true ∧ ¬atListEnd inBlock p' = true := by
  have hk := h.ne_endOfInput l (mem hX)
  cases inBlock <;> simp [atListEnd, Parser.currentIs, ht.current_eq, ht.current_eq', hk, hbrace]

/-- Every list of statements outside of blocks stops on the last semicolon of a fragment and goes on
behind it. -/
theorem statementList_semicolon (h : Fragment last ls) (hlast : last.token.kind = .semicolon)
    (levels : Nat) {l : Lexeme} {X : List Lexeme} (hX : l :: X <:+ ls)
    (ht : Parser.Twin (l :: X) rest rest' p p') :
    ∃ body q q', Parser.Twin [last] rest rest' q q' ∧ p.Trail q ∧
      statementList (expressionAt levels) false p =
        (body ++ (statementList (expressionAt levels) false q.advance).1,
          (statementList (expressionAt levels) false q.advance).2) ∧
      statementList (expressionAt levels) false p' =
        (body ++ (statementList (expressionAt levels) false q'.advance).1,
          (statementList (expressionAt levels) false q'.advance).2) := by
  induction hlen : p.lexemes.length using Nat.strong_induction_on generalizing p p' l X with
  | h n ih =>
    subst hlen
    have hne : p.lexemes ≠ [] := by simp [ht.lexemes_eq]
    obtain ⟨hgo, hgo'⟩ := h.not_atListEnd hX ht false fun hfalse => absurd hfalse Bool.false_ne_true
    -- behind a statement or a fault, the list goes on with what is left of the fragment
    have hnext : ∀ {q q' : Parser}, p.Trail q →
        (∃ l X, l :: X <:+ ls ∧ Parser.Twin (l :: X) rest rest' q q') →
        ∃ body r r', Parser.Twin [last] rest rest' r r' ∧ p.Trail r ∧
          statementList (expressionAt levels) false q.advance =
            (body ++ (statementList (expressionAt levels) false r.advance).1,
              (statementList (expressionAt levels) false r.advance).2) ∧
          statementList (expressionAt levels) false q'.advance =
            (body ++ (statementList (expressionAt levels) false r'.advance).1,
              (statementList (expressionAt levels) false r'.advance).2) := by
      rintro q q' hq ⟨l, X, hX, ht⟩
      cases X with
      | nil =>
        obtain rfl := h.eq_last hX
        exact ⟨[], q, q', ht, hq, rfl, rfl⟩
      | cons l' X =>
        have hlt := hq.length_advance_lt hne
        obtain ⟨body, r, r', hr, htrail, heq, heq'⟩ :=
          ih _ hlt ((List.suffix_cons _ _).trans hX) ht.advance rfl
        exact ⟨body, r, r', hr, hq.advance.trans htrail, heq, heq'⟩
    rw [statementList_eq (expressionAt levels) false p, statementList_eq (expressionAt levels) false p',
      if_neg hgo, if_neg hgo']
    rcases h.statement_outcome (.inl hlast) rest rest' levels hX ht with
      ⟨s, q, q', l₁, Y, hs, hs', hY, hq, -, -⟩ | ⟨d, q, q', l₁, Y, hs, hs', hY, hq, -, -, -⟩
    · obtain ⟨body, r, r', hr, htrail, heq, heq'⟩ := hnext (Moves.ok _ hs) ⟨l₁, Y, hY, hq⟩
      refine ⟨s :: body, r, r', hr, htrail, ?_, ?_⟩
      · simp only [hs, heq, List.cons_append]
      · simp only [hs', heq', List.cons_append]
    · have hsync := h.synchronize_semicolon hlast hY (hq.record d)
      rw [hs, hs']
      exact hnext (((Moves.error _ hs).record d).synchronize false) hsync

end Fragment

/-! ## Up to a brace -/

namespace Fragment

open Rule

variable {last : Lexeme} {ls rest rest' : List Lexeme} {p p' : Parser}

/-- Inside a block skipping stops before its brace. -/
lemma synchronize_brace (h : Fragment last ls) (hlast : last.token.kind = .rightBrace)
    {l l' : Lexeme} {X : List Lexeme} (hX : l :: l' :: X <:+ ls)
    (ht : Parser.Twin (l :: l' :: X) rest rest' p p') :
    ∃ l l' X, l :: l' :: X <:+ ls ∧
      Parser.Twin (l :: l' :: X) rest rest' (p.synchronize true) (p'.synchronize true) ∧
      (p.synchronize true).diagnostics = p.diagnostics := by
  induction X generalizing l l' p p' with
  | nil =>
    have hk : l'.token.kind = .rightBrace := by
      rw [h.eq_last ((List.suffix_cons _ _).trans hX), hlast]
    have hstop : p.atBoundary true = true := by
      simp [Parser.atBoundary, Parser.lookaheadIs, ht.lookahead_eq, hk]
    rw [p.synchronize_eq, p'.synchronize_eq, ht.atBoundary, if_pos hstop, if_pos hstop]
    exact ⟨l, l', [], hX, ht, rfl⟩
  | cons l'' X ih =>
    rw [p.synchronize_eq, p'.synchronize_eq, ht.atBoundary]
    split
    · exact ⟨l, l', l'' :: X, hX, ht, rfl⟩
    · have hX' := (List.suffix_cons _ _).trans hX
      obtain ⟨l₁, l₂, Y, hY, hq, hd⟩ := ih hX' ht.advance
      refine ⟨l₁, l₂, Y, hY, hq, ?_⟩
      rw [hd, ht.diagnostics_advance (h.closed l' (mem hX'))]

/-- What was found between two parsers is placed in the fragment. -/
def FoundWithin (ls : List Lexeme) (p q : Parser) : Prop :=
  ∃ found, q.diagnostics.toList = p.diagnostics.toList ++ found ∧ ∀ d ∈ found, Told ls d

lemma FoundWithin.of_eq {q : Parser} (hd : q.diagnostics = p.diagnostics) : FoundWithin ls p q :=
  ⟨[], by rw [hd, List.append_nil], fun _ h => absurd h List.not_mem_nil⟩

lemma FoundWithin.record {q : Parser} (h : FoundWithin ls p q) {d : Diagnostic} (hd : Told ls d) :
    FoundWithin ls p (q.record d) := by
  obtain ⟨found, heq, htold⟩ := h
  refine ⟨found ++ [d], by simp [Parser.record, heq], fun e he => ?_⟩
  rcases List.mem_append.1 he with he | he
  · exact htold e he
  · rwa [List.mem_singleton.1 he]

lemma FoundWithin.trans {q r : Parser} (h : FoundWithin ls p q) (h' : FoundWithin ls q r) :
    FoundWithin ls p r := by
  obtain ⟨found, heq, htold⟩ := h
  obtain ⟨found', heq', htold'⟩ := h'
  refine ⟨found ++ found', by rw [heq', heq, List.append_assoc], fun e he => ?_⟩
  exact (List.mem_append.1 he).elim (htold e) (htold' e)

/-- How two lists of statements in a block without blocks inside come out.  Either both end on the
brace of the block, with the same statements and with everything that was found placed before it; or
both come to the brace with the nesting too deep, and skip it. -/
inductive Closing (levels : Nat) (last : Lexeme) (ls rest rest' : List Lexeme) (p p' : Parser) :
    List Stmt × Parser → List Stmt × Parser → Prop where
  | ends {body : List Stmt} {q q' : Parser} : Parser.Twin [last] rest rest' q q' → p.Trail q →
      p'.Trail q' → FoundWithin ls p q →
      Closing levels last ls rest rest' p p' (body, q) (body, q')
  | skips {body body' : List Stmt} {q q' : Parser} : Parser.Twin [last] rest rest' q q' →
      p.Trail q → p'.Trail q' →
      Closing levels last ls rest rest' p p'
        (body, (statementList (expressionAt levels) true
          ((q.record q.tooDeep).synchronize true).advance).2)
        (body', (statementList (expressionAt levels) true
          ((q'.record q'.tooDeep).synchronize true).advance).2)

/-- A list may start before others and further back. -/
lemma Closing.of_later {levels : Nat} {q q' : Parser} {run run' : List Stmt × Parser}
    (h : Closing levels last ls rest rest' q q' run run') (hp : p.Trail q) (hp' : p'.Trail q')
    (hd : FoundWithin ls p q) (front : List Stmt) :
    Closing levels last ls rest rest' p p' (front ++ run.1, run.2) (front ++ run'.1, run'.2) := by
  cases h with
  | ends ht hq hq' hfound => exact .ends ht (hp.trans hq) (hp'.trans hq') (hd.trans hfound)
  | skips ht hq hq' => exact .skips ht (hp.trans hq) (hp'.trans hq')

/-- A list of statements in a block without blocks inside ends on the brace of the block, or comes to
the brace with the nesting too deep.  Which of the two it is does not depend on what follows. -/
theorem closing_statementList (h : Fragment last ls) (hlast : last.token.kind = .rightBrace)
    (hinner : ∀ l ∈ ls.dropLast, l.token.kind ≠ .rightBrace) (levels : Nat) {l : Lexeme}
    {X : List Lexeme} (hX : l :: X <:+ ls) (ht : Parser.Twin (l :: X) rest rest' p p') :
    Closing levels last ls rest rest' p p' (statementList (expressionAt levels) true p)
      (statementList (expressionAt levels) true p') := by
  induction hlen : p.lexemes.length using Nat.strong_induction_on generalizing p p' l X with
  | h n ih =>
    subst hlen
    cases X with
    | nil =>
      obtain rfl := h.eq_last hX
      rw [statementList_eq (expressionAt levels) true p, statementList_eq (expressionAt levels) true p',
        if_pos (by simp [atListEnd, Parser.currentIs, ht.current_eq, hlast]),
        if_pos (by simp [atListEnd, Parser.currentIs, ht.current_eq', hlast])]
      exact .ends ht .refl .refl (.of_eq rfl)
    | cons l' X =>
      have hne : p.lexemes ≠ [] := by simp [ht.lexemes_eq]
      obtain ⟨hgo, hgo'⟩ := h.not_atListEnd hX ht true fun _ => hinner l (mem_dropLast hX)
      -- behind a statement or a fault, the list goes on with what is left of the fragment
      have hnext : ∀ {q q' : Parser} {l₁ l₂ : Lexeme} {Y : List Lexeme} (front : List Stmt),
          p.Trail q → p'.Trail q' → l₁ :: l₂ :: Y <:+ ls →
          Parser.Twin (l₁ :: l₂ :: Y) rest rest' q q' → FoundWithin ls p q →
          Closing levels last ls rest rest' p p'
            (front ++ (statementList (expressionAt levels) true q.advance).1,
              (statementList (expressionAt levels) true q.advance).2)
            (front ++ (statementList (expressionAt levels) true q'.advance).1,
              (statementList (expressionAt levels) true q'.advance).2) := by
        intro q q' l₁ l₂ Y front hq hq' hY ht hfound
        have hlt := hq.length_advance_lt hne
        have hY' := (List.suffix_cons l₁ (l₂ :: Y)).trans hY
        have hd := ht.diagnostics_advance (h.closed l₂ (mem hY'))
        exact (ih _ hlt hY' ht.advance rfl).of_later hq.advance hq'.advance
          (hfound.trans (.of_eq hd)) front
      rw [statementList_eq (expressionAt levels) true p, statementList_eq (expressionAt levels) true p',
        if_neg hgo, if_neg hgo']
      rcases h.statement_outcome (.inr hlast) rest rest' levels hX ht with
        ⟨s, q, q', l₁, Y, hs, hs', hY, hq, hd, hsemi⟩ |
        ⟨d, q, q', l₁, Y, hs, hs', hY, hq, hd, htold, hfault⟩
      · rw [hs, hs']
        cases Y with
        | nil => exact absurd (hlast.symm.trans (hsemi rfl)) (by decide)
        | cons l₂ Y =>
          exact hnext [s] (Moves.ok _ hs) (Moves.ok _ hs') hY hq (.of_eq hd)
      · rw [hs, hs']
        have htrail := (Moves.error _ hs).record d
        have htrail' := (Moves.error _ hs').record d
        cases Y with
        | nil =>
          obtain rfl := h.eq_last hY
          have hk : q.currentIs .rightBrace = true := by simp [Parser.currentIs, hq.current_eq, hlast]
          have hk' : q'.currentIs .rightBrace = true := by
            simp [Parser.currentIs, hq.current_eq', hlast]
          rcases hfault rfl with rfl | rfl
          · have hdeep : q'.tooDeep = q.tooDeep := by
              rw [Parser.tooDeep, Parser.tooDeep, Parser.position, Parser.position, hq.current_eq,
                hq.current_eq']
            have hskips : Closing levels l₁ ls rest rest' p p'
                (statementList (expressionAt levels) true
                  ((q.record q.tooDeep).synchronize true).advance)
                (statementList (expressionAt levels) true
                  ((q'.record q'.tooDeep).synchronize true).advance) :=
              .skips hq (Moves.error _ hs) (Moves.error _ hs')
            rwa [hdeep] at hskips
          · simp only [closesBlock, Parser.notAnOperand, hk, hk', Bool.and_self, if_true]
            refine .ends (hq.record _) htrail htrail' ((FoundWithin.of_eq hd).record ?_)
            refine htold.resolve_right fun hdeep => ?_
            exact Fault.noConfusion (congrArg Diagnostic.fault hdeep.2)
        | cons l₂ Y =>
          have hno := hinner l₁ (mem_dropLast hY)
          have hcloses : closesBlock d q = false ∧ closesBlock d q' = false := by
            unfold closesBlock
            cases d.fault <;> simp [Parser.currentIs, hq.current_eq, hq.current_eq', hno]
          simp only [hcloses, Bool.and_false, Bool.false_eq_true, if_false]
          obtain ⟨m₁, m₂, Z, hZ, hsync, hsyncd⟩ := h.synchronize_brace hlast hY (hq.record d)
          refine hnext [] (htrail.synchronize true) (htrail'.synchronize true) hZ hsync ?_
          refine ((FoundWithin.of_eq hd).record ?_).trans (.of_eq hsyncd)
          exact htold.resolve_right fun hnil => absurd hnil.1 (List.cons_ne_nil _ _)

end Fragment

end ScriptSyntax
