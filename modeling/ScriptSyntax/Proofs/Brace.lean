import ScriptSyntax.Proofs.Parser.Barrier
import ScriptSyntax.Proofs.Parser.Continuation
import ScriptSyntax.Proofs.Scanner.Spelling

/-!
# Closing braces

A block without blocks inside ends on its own brace, whatever is wrong or unfinished before it, and what
stands behind the block is parsed as it is alone.  There is one exception.  If the last token before the
brace opens a level of nesting that is not there any more, then the brace is where the nesting is found
to be too deep.  Recovery steps over the token that it starts from, and so it steps over the brace.

## Main statements

* `forall_blockContained_iff`: the block ends on its brace in front of every rest, if and only if the
  nesting is not too deep at the brace.
-/

namespace ScriptSyntax

open Rule

/-- A function of no parameters with `body` between its braces, a semicolon, and `rest` behind it. -/
def inFunction (body rest : String) : String := "fn() \x7b" ++ body ++ "\x7d;" ++ rest

/-- The function around `body` is the first statement and ends on its brace: behind it come the
statements of `rest`, and everything that is found before those of `rest` is placed at the brace or
before it. -/
structure BlockContained (body rest : String) (label? : Option String) : Prop where
  program_eq : ∃ token brace inner, (parse (inFunction body rest) label?).program =
    .expression token (.function token [] (.mk brace inner)) ::
      Program.relocate (Position.shift (body.length + 8)) (parse rest label?).program
  diagnostics_eq : ∃ early, (parse (inFunction body rest) label?).diagnostics =
      early ++ (parse rest label?).diagnostics.map
        (Diagnostic.relocate (Position.shift (body.length + 8))) ∧
    ∀ d ∈ early, d.position.offset.toNat ≤ body.length + 6

/-- The diagnostic for a nesting that is found to be too deep at the brace behind `body`. -/
def tooDeepAtBrace (body : String) (label? : Option String) : Diagnostic :=
  ⟨.nestingTooDeep maxNesting, ⟨.ofNat (body.length + 6), label?.getD defaultLabel⟩⟩

/-! ## The tokens around a body -/

/-- The tokens of a function around `body`: those that open it, and those that close it. -/
structure Frame (body : String) (label? : Option String) where
  word : Lexeme
  left : Lexeme
  right : Lexeme
  opening : Lexeme
  closing : Lexeme
  semicolon : Lexeme
  kind_word : word.token.kind = .fnWord
  kind_left : left.token.kind = .leftParen
  kind_right : right.token.kind = .rightParen
  kind_opening : opening.token.kind = .leftBrace
  kind_closing : closing.token.kind = .rightBrace
  kind_semicolon : semicolon.token.kind = .semicolon
  closed : ∀ l ∈ [word, left, right, opening, closing, semicolon], l.closed = true
  position_closing : closing.token.position =
    ⟨.ofNat (body.length + 6), label?.getD defaultLabel⟩
  lexemes_eq : ∀ rest, (Parser.start (inFunction body rest) label?).lexemes =
    word :: left :: right :: opening ::
      ((Parser.start body label?).lexemes.map (Lexeme.relocate (Position.shift 6)) ++
        closing :: semicolon :: (Parser.start rest label?).lexemes.map
          (Lexeme.relocate (Position.shift (body.length + 8))))

variable {body rest : String} {label? : Option String}

lemma length_inFunction (body rest : String) :
    (inFunction body rest).length = body.length + 8 + rest.length := by
  simp only [inFunction, String.length_append]
  have hopen : "fn() \x7b".length = 6 := rfl
  have hclose : "\x7d;".length = 2 := rfl
  omega

lemma seam_opening (body : String) : Seam "fn() \x7b".toList body.toList := by
  refine ⟨by decide, fun c hc d _ => ?_⟩
  obtain rfl : '\x7b' = c := by simpa using hc
  simp [joins, isWordChar]

lemma seam_closing (heven : Even (body.toList.count '"')) :
    Seam ("fn() \x7b" ++ body).toList "\x7d;".toList := by
  refine ⟨by simpa using heven, fun c _ d hd => ?_⟩
  obtain rfl : '\x7d' = d := by simpa using hd
  simp [joins, isWordChar]

lemma seam_rest (heven : Even (body.toList.count '"')) (rest : String) :
    Seam ("fn() \x7b" ++ body ++ "\x7d;").toList rest.toList := by
  refine ⟨by simpa using heven, fun c hc d _ => ?_⟩
  rw [String.toList_append, List.getLast?_append] at hc
  obtain rfl : ';' = c := by simpa using hc
  simp [joins, isWordChar]

lemma spells_opening : Spells "fn() \x7b".toList
    [.bare .fnWord "fn", .mark '(', .mark ')', .mark '\x7b'] := by
  have hword : Spells "fn".toList [.bare .fnWord "fn"] := spells_word (by decide) (List.all_eq_true.1 (by decide))
  have hbrace : Spells ['\x7b'] [.mark '\x7b'] := spells_mark
  have hparens : Spells ['(', ')', ' ', '\x7b'] [.mark '(', .mark ')', .mark '\x7b'] :=
    hbrace.space_cons.mark_cons.mark_cons
  exact hword.append_break hparens

/-- Quotes that are even in number leave the frame whole. -/
lemma exists_frame (heven : Even (body.toList.count '"')) (label? : Option String) :
    Nonempty (Frame body label?) := by
  obtain ⟨a, b, c, d, hopen, ha, hb, hc, hd⟩ : ∃ a b c d,
      (Parser.start "fn() \x7b" label?).lexemes = [a, b, c, d] ∧ a.token.kind = .fnWord ∧
        b.token.kind = .leftParen ∧ c.token.kind = .rightParen ∧ d.token.kind = .leftBrace := by
    have htokens := spells_opening.tokens_eq (label?.getD defaultLabel) 0
    rw [← Parser.lexemes_start] at htokens
    simp only [List.map_eq_cons_iff, List.map_eq_nil_iff] at htokens
    obtain ⟨a, -, heq, ha, b, -, rfl, hb, c, -, rfl, hc, d, -, rfl, hd, rfl⟩ := htokens
    exact ⟨a, b, c, d, heq, Token.kind_of_unplaced ha, Token.kind_of_unplaced hb,
      Token.kind_of_unplaced hc, Token.kind_of_unplaced hd⟩
  obtain ⟨x, y, hclose, hx, hy, hplace⟩ : ∃ x y,
      (Parser.start "\x7d;" label?).lexemes = [x, y] ∧ x.token.kind = .rightBrace ∧
        y.token.kind = .semicolon ∧ x.token.position = ⟨0, label?.getD defaultLabel⟩ :=
    ⟨_, _, rfl, rfl, rfl, rfl⟩
  have hclosed := (Parser.forall_closed_start_iff "fn() \x7b" label?).2 (by decide)
  have hclosed' := (Parser.forall_closed_start_iff "\x7d;" label?).2 (by decide)
  rw [hopen] at hclosed
  rw [hclose] at hclosed'
  have hlength : ("fn() \x7b" ++ body).length = body.length + 6 := by
    rw [String.length_append, Nat.add_comm]
    rfl
  have hlength' : ("fn() \x7b" ++ body ++ "\x7d;").length = body.length + 8 := by
    rw [String.length_append, hlength]
    rfl
  refine ⟨⟨a, b, c, d, x.relocate (Position.shift (body.length + 6)),
    y.relocate (Position.shift (body.length + 6)), ha, hb, hc, hd, hx, hy, ?_, ?_, fun rest => ?_⟩⟩
  · simp only [List.forall_mem_cons] at hclosed hclosed' ⊢
    exact ⟨hclosed.1, hclosed.2.1, hclosed.2.2.1, hclosed.2.2.2.1, hclosed'.1, hclosed'.2⟩
  · simp [Lexeme.relocate, hplace, Position.shift]
  · rw [inFunction, Parser.lexemes_start_append (seam_rest heven rest),
      Parser.lexemes_start_append (seam_closing heven), Parser.lexemes_start_append (seam_opening body),
      hlength, hlength', hopen, hclose, List.append_assoc, List.append_assoc]
    rfl

/-! ## The statement that a function is -/

namespace Rule

section Function

variable {p : Parser} {a b c d : Lexeme} {X : List Lexeme}

/-- A function without parameters is its block. -/
lemma function_eq (sub : Subparser) (hp : p.lexemes = a :: b :: c :: d :: X)
    (hb : b.token.kind = .leftParen) (hc : c.token.kind = .rightParen)
    (hd : d.token.kind = .leftBrace) :
    function sub p =
      (block sub >>= fun body => pure (.function a.token [] body)) (p.ahead 3) := by
  have hcurrent : p.current = a.token := by simp [Parser.current, Parser.tokenAt, hp]
  have hleft : p.lookahead.kind = .leftParen := by
    simp [Parser.lookahead, Parser.tokenAt, hp, hb]
  have hright : p.advance.lookahead.kind = .rightParen := by
    simp [Parser.lookahead, Parser.tokenAt, hp, hc]
  have hopening : p.advance.advance.lookahead.kind = .leftBrace := by
    simp [Parser.lookahead, Parser.tokenAt, hp, hd]
  have hparameters : parameters p.advance = .ok [] p.advance.advance := by
    rw [parameters, get_bind, if_pos (by simp [Parser.lookaheadIs, hright])]
    rfl
  rw [function, get_bind, expect_bind hleft, bind_apply, hparameters]
  dsimp only
  rw [expect_bind hopening, hcurrent]
  rfl

/-- A statement that starts with a function without parameters, as the list of statements in its block
comes out: the block may end in front of a semicolon, or at the end of the source. -/
theorem statement_function (levels : Nat) (hdepth : p.depth = 0)
    (hp : p.lexemes = a :: b :: c :: d :: X) (ha : a.token.kind = .fnWord)
    (hb : b.token.kind = .leftParen) (hc : c.token.kind = .rightParen)
    (hd : d.token.kind = .leftBrace) {body : List Stmt} {q : Parser}
    (hrun : statementList (expressionAt levels) true ({ p with depth := 1 }.ahead 4) = (body, q)) :
    (q.current.kind = .rightBrace → q.lookahead.kind = .semicolon →
      statement (expressionAt (levels + 1)) p =
        .ok (.expression a.token (.function a.token [] (.mk d.token body)))
          q.leaveNesting.advance) ∧
    (q.current.kind = .endOfInput →
      ∃ e, statement (expressionAt (levels + 1)) p = .error e q.leaveNesting) := by
  have hcurrent : p.current = a.token := by simp [Parser.current, Parser.tokenAt, hp]
  have hstatement : statement (expressionAt (levels + 1)) p =
      expressionStatement (expressionAt (levels + 1)) p := by
    rw [statement, get_bind, hcurrent, ha]
    rfl
  have hopening : ({ p with depth := 1 }.ahead 3).current = d.token := by
    simp [Parser.ahead, Parser.current, Parser.tokenAt, hp]
  have hchain : expressionAt (levels + 1) .lowest p =
      nested (chain (expressionAt levels) .lowest) p := rfl
  have hfunction := function_eq (expressionAt levels) (p := { p with depth := 1 }) hp hb hc hd
  rw [bind_apply, block_eq, Parser.advance_ahead, hrun, hopening] at hfunction
  rw [hstatement, expressionStatement_apply, hchain, nested_apply, if_pos (by simp [hdepth, maxNesting]),
    chain_eq]
  have hkind : ({ p with depth := p.depth + 1 } : Parser).current.kind = .fnWord := by
    rw [← ha, ← hcurrent]
    rfl
  rw [hkind, hdepth, Nat.zero_add]
  simp only [operand?, bind_apply, hfunction, hcurrent]
  constructor
  · intro hbrace hsemi
    rw [if_neg (by simp [Parser.currentIs, hbrace])]
    simp only [pure_apply]
    rw [operatorChain_eq, operatorRound, hsemi, if_neg (by decide)]
    have hnext : q.leaveNesting.lookaheadIs .semicolon = true := beq_iff_eq.2 hsemi
    simp only [hnext, if_true]
  · intro hend
    rw [if_pos (by simp [Parser.currentIs, hend])]
    exact ⟨_, rfl⟩

end Function

end Rule

/-! ## The brace of a body -/

namespace Frame

/-- The tokens from behind the opening brace up to the closing one. -/
def inside (F : Frame body label?) : List Lexeme :=
  (Parser.start body label?).lexemes.map (Lexeme.relocate (Position.shift 6)) ++ [F.closing]

variable (F : Frame body label?)

lemma dropLast_inside : F.inside.dropLast =
    (Parser.start body label?).lexemes.map (Lexeme.relocate (Position.shift 6)) :=
  List.dropLast_concat

/-- Braces that the body has not are not among its tokens. -/
lemma ne_of_mem_dropLast {kind : TokenKind} (hbody : ∀ t ∈ tokenize body label?, t.kind ≠ kind)
    {l : Lexeme} (hl : l ∈ F.inside.dropLast) : l.token.kind ≠ kind := by
  rw [dropLast_inside, List.mem_map] at hl
  obtain ⟨l, hl, rfl⟩ := hl
  refine hbody l.token (List.mem_of_mem_dropLast ?_)
  rw [← Parser.tokens_start]
  exact List.mem_map_of_mem hl

/-- The tokens inside are complete. -/
lemma closed_inside (heven : Even (body.toList.count '"')) : ∀ l ∈ F.inside, l.closed = true := by
  intro l hl
  rcases List.mem_append.1 hl with hl | hl
  · obtain ⟨l', hl', rfl⟩ := List.mem_map.1 hl
    exact (Parser.forall_closed_start_iff body label?).2 heven l' hl'
  · rw [List.mem_singleton.1 hl]
    exact F.closed _ (by simp)

/-- The tokens inside are a fragment. -/
lemma fragment (heven : Even (body.toList.count '"'))
    (hopen : ∀ t ∈ tokenize body label?, t.kind ≠ .leftBrace) : Fragment F.closing F.inside := by
  have hmem : ∀ {l}, l ∈ F.inside → l ∈ F.inside.dropLast ∨ l = F.closing := by
    intro l hl
    rw [dropLast_inside]
    simpa [inside] using hl
  refine ⟨List.getLast?_concat, F.closed_inside heven, fun l hl => ?_, fun l hl => ?_⟩
  · rcases hmem hl with hl | rfl
    · exact F.ne_of_mem_dropLast hopen hl
    · rw [F.kind_closing]
      decide
  · rcases hmem hl with hl | rfl
    · rw [dropLast_inside, List.mem_map] at hl
      obtain ⟨l', hl', rfl⟩ := hl
      have hkind : l'.token.kind ≠ .endOfInput := Parser.kind_ne_of_mem_start body label? hl'
      exact hkind
    · rw [F.kind_closing]
      decide

/-- The tokens before the closing brace are placed before it. -/
lemma offset_lt {l : Lexeme} (hl : l ∈ F.inside.dropLast) (hlength : body.length + 8 < 2 ^ 32) :
    l.token.position.offset.toNat < body.length + 6 := by
  rw [dropLast_inside, List.mem_map] at hl
  obtain ⟨l, hl, rfl⟩ := hl
  rw [Parser.lexemes_start] at hl
  obtain ⟨k, hk, hplace⟩ := position_of_mem_scan hl
  rw [String.length_toList] at hk
  have hoffset : (l.relocate (Position.shift 6)).token.position.offset = .ofNat (k + 6) := by
    simp [Lexeme.relocate, Position.shift, hplace]
  rw [hoffset, UInt32.toNat_ofNat_of_lt' (show k + 6 < 2 ^ 32 by omega)]
  omega

lemma offset_closing (hlength : body.length + 8 < 2 ^ 32) :
    F.closing.token.position.offset.toNat = body.length + 6 := by
  rw [F.position_closing, UInt32.toNat_ofNat_of_lt' (show body.length + 6 < 2 ^ 32 by omega)]

/-- What is told of the tokens inside is placed at the brace or before it, and is not that the nesting
is too deep at the brace. -/
lemma of_told (hlength : body.length + 8 < 2 ^ 32) {d : Diagnostic} (hd : Fragment.Told F.inside d) :
    d.position.offset.toNat ≤ body.length + 6 ∧ d ≠ tooDeepAtBrace body label? := by
  obtain ⟨⟨l, hl, hplace⟩, hdeep⟩ := hd
  constructor
  · rw [hplace]
    rcases List.mem_append.1 hl with hl | hl
    · rw [← dropLast_inside] at hl
      exact (F.offset_lt hl hlength).le
    · rw [List.mem_singleton.1 hl, F.offset_closing hlength]
  · rintro rfl
    obtain ⟨l, hl, hplace⟩ := hdeep maxNesting rfl
    have hlt := F.offset_lt hl hlength
    rw [← hplace, ← F.offset_closing hlength, F.position_closing] at hlt
    exact absurd hlt (lt_irrefl _)

end Frame

/-! ## The two ends of a body -/

/-- The parser on the first token inside of the function, one level of nesting further in. -/
def Parser.inBody (body rest : String) (label? : Option String) : Parser :=
  { start (inFunction body rest) label? with depth := 1 }.ahead 4

lemma Parser.depth_inBody (body rest : String) (label? : Option String) :
    (inBody body rest label?).depth = 1 := depth_ahead _ 4

namespace Frame

variable (F : Frame body label?)

lemma lexemes_inBody (rest : String) : (Parser.inBody body rest label?).lexemes =
    F.inside ++ F.semicolon :: (Parser.start rest label?).lexemes.map
      (Lexeme.relocate (Position.shift (body.length + 8))) := by
  rw [Parser.inBody, Parser.lexemes_ahead, inside, List.append_assoc]
  simp [F.lexemes_eq]

lemma finish_inBody (body rest : String) (label? : Option String) :
    (Parser.inBody body rest label?).finish =
      (Parser.start rest label?).finish.shift (body.length + 8) := by
  have hlength : ("fn() \x7b" ++ body ++ "\x7d;").length = body.length + 8 := by
    simpa [inFunction] using length_inFunction body ""
  rw [Parser.inBody, (Parser.trail_ahead _ 4).finish_eq, ← hlength, ← Parser.finish_start_append]
  rfl

/-- Nothing is wrong with the tokens up to the first one inside. -/
lemma diagnostics_inBody (F : Frame body label?) (heven : Even (body.toList.count '"'))
    (rest : String) : (Parser.inBody body rest label?).diagnostics.toList = [] := by
  obtain ⟨l, ls, hl, hlexemes⟩ : ∃ l ls, l ∈ F.inside ∧
      (Parser.start (inFunction body rest) label?).lexemes =
        F.word :: F.left :: F.right :: F.opening :: l :: ls := by
    rw [F.lexemes_eq, inside]
    cases (Parser.start body label?).lexemes with
    | nil => exact ⟨F.closing, _, by simp, rfl⟩
    | cons l ls => exact ⟨l.relocate (Position.shift 6), _, by simp, rfl⟩
  have hclosed : ∀ k ∈ [F.word, F.left, F.right, F.opening, l], k.diagnostic? = none := by
    intro k hk
    have : k.closed = true := by
      have hframe := F.closed
      simp only [List.forall_mem_cons] at hframe
      simp only [List.mem_cons, List.not_mem_nil, or_false] at hk
      rcases hk with rfl | rfl | rfl | rfl | rfl
      exacts [hframe.1, hframe.2.1, hframe.2.2.1, hframe.2.2.2.1, F.closed_inside heven k hl]
    rw [Lexeme.diagnostic?, if_pos this]
  have hdiagnostics : (Parser.inBody body rest label?).diagnostics.toList =
      [F.word, F.left, F.right, F.opening, l].filterMap Lexeme.diagnostic? := by
    rw [Parser.inBody, Parser.diagnostics_ahead_eq]
    change (Parser.start (inFunction body rest) label?).diagnostics.toList ++
      ((Parser.start (inFunction body rest) label?).lexemes.tail.take 4).filterMap
        Lexeme.diagnostic? = _
    rw [Parser.diagnostics_start, hlexemes, ← List.filterMap_append]
    rfl
  rw [hdiagnostics, List.filterMap_eq_nil_iff]
  exact hclosed

/-- What a list of statements that ends on the closing brace makes of the whole source. -/
theorem parse_of_ends {rest : String} {inner : List Stmt} {q : Parser}
    (hrun : statementList (expressionAt 99) true (.inBody body rest label?) = (inner, q))
    (htrail : (Parser.inBody body rest label?).Trail q)
    (hq : q.lexemes = F.closing :: F.semicolon :: (Parser.start rest label?).lexemes.map
      (Lexeme.relocate (Position.shift (body.length + 8)))) :
    (parse (inFunction body rest) label?).program =
        .expression F.word.token (.function F.word.token [] (.mk F.opening.token inner)) ::
          Program.relocate (Position.shift (body.length + 8)) (parse rest label?).program ∧
      (parse (inFunction body rest) label?).diagnostics =
        q.diagnostics.toList ++ (parse rest label?).diagnostics.map
          (Diagnostic.relocate (Position.shift (body.length + 8))) := by
  have hcurrent : q.current = F.closing.token := by simp [Parser.current, Parser.tokenAt, hq]
  have hlookahead : q.lookahead = F.semicolon.token := by
    simp [Parser.lookahead, Parser.tokenAt, hq]
  have hword : (Parser.start (inFunction body rest) label?).current = F.word.token := by
    simp [Parser.current, Parser.tokenAt, F.lexemes_eq]
  have hstatement := (statement_function 99 (Parser.depth_start _ label?) (F.lexemes_eq rest)
    F.kind_word F.kind_left F.kind_right F.kind_opening hrun).1
    (by rw [hcurrent, F.kind_closing]) (by rw [hlookahead, F.kind_semicolon])
  have hlist : statementList (expressionAt maxNesting) false
      (.start (inFunction body rest) label?) =
      (.expression F.word.token (.function F.word.token [] (.mk F.opening.token inner)) ::
        (statementList (expressionAt maxNesting) false q.leaveNesting.advance.advance).1,
        (statementList (expressionAt maxNesting) false q.leaveNesting.advance.advance).2) := by
    rw [statementList_eq, if_neg (by simp [atListEnd, Parser.currentIs, hword, F.kind_word])]
    rw [show maxNesting = 99 + 1 from rfl, hstatement]
  have hreaches : q.leaveNesting.advance.advance.Reaches rest label? (body.length + 8)
      q.leaveNesting.advance.diagnostics.toList := by
    refine Parser.reaches_advance (l := F.semicolon) ?_ ?_ ?_
    · rw [Parser.lexemes_advance]
      exact congrArg List.tail hq
    · exact htrail.finish_eq.trans (finish_inBody body rest label?)
    · have hdepth : q.depth = 1 := htrail.depth_eq.trans (Parser.depth_inBody body rest label?)
      simp [Parser.leaveNesting, hdepth]
  have hdiagnostics : q.leaveNesting.advance.diagnostics = q.diagnostics := by
    have hsemi := F.closed F.semicolon (by simp)
    simp [Parser.advance, Parser.leaveNesting, hq, Lexeme.diagnostic?, hsemi]
  rw [program_parse, diagnostics_parse, hlist]
  refine ⟨by rw [hreaches.program_eq], ?_⟩
  rw [hreaches.diagnostics_eq_append, hdiagnostics]

/-- What a list of statements that has left the source behind makes of it. -/
theorem parse_of_end (F : Frame body label?) {rest : String} {inner : List Stmt} {q : Parser}
    (hrun : statementList (expressionAt 99) true (.inBody body rest label?) = (inner, q))
    (hq : q.lexemes = []) :
    (parse (inFunction body rest) label?).program = [] ∧
      q.diagnostics.toList <+: (parse (inFunction body rest) label?).diagnostics := by
  have hword : (Parser.start (inFunction body rest) label?).current = F.word.token := by
    simp [Parser.current, Parser.tokenAt, F.lexemes_eq]
  obtain ⟨d, hstatement⟩ := (statement_function 99 (Parser.depth_start _ label?)
    (F.lexemes_eq rest) F.kind_word F.kind_left F.kind_right F.kind_opening hrun).2
    (by rw [Parser.current_of_lexemes_eq_nil hq])
  have hlist : statementList (expressionAt maxNesting) false
      (.start (inFunction body rest) label?) =
      ([], ((q.leaveNesting.record d).synchronize false).advance) := by
    have hnil : ((q.leaveNesting.record d).synchronize false).advance.lexemes = [] := by
      have hsuffix := Parser.lexemes_synchronize_isSuffix (q.leaveNesting.record d) false
      rw [show (q.leaveNesting.record d).lexemes = [] from hq, List.suffix_nil] at hsuffix
      rw [Parser.lexemes_advance, hsuffix, List.tail_nil]
    rw [statementList_eq, if_neg (by simp [atListEnd, Parser.currentIs, hword, F.kind_word])]
    rw [show maxNesting = 99 + 1 from rfl, hstatement]
    simp only [Bool.false_and, Bool.false_eq_true, if_false]
    rw [statementList_eq, if_pos (atListEnd_of_lexemes_eq_nil hnil _)]
  rw [program_parse, diagnostics_parse, hlist]
  refine ⟨rfl, ?_⟩
  have htrail := ((Parser.Trail.refl (p := q.leaveNesting)).record d).synchronize false
  exact htrail.advance.diagnostics_isPrefix

end Frame

/-- Skipping from a brace in front of the last semicolon leaves the source behind. -/
lemma lexemes_synchronize_of_brace {p : Parser} {l l' : Lexeme} (hl : l.token.kind = .rightBrace)
    (hl' : l'.token.kind = .semicolon) (hp : p.lexemes = [l, l']) :
    (p.synchronize true).advance.lexemes = [] := by
  have hcurrent : p.current = l.token := by simp [Parser.current, Parser.tokenAt, hp]
  have hlookahead : p.lookahead = l'.token := by simp [Parser.lookahead, Parser.tokenAt, hp]
  have hgo : ¬p.atBoundary true = true := by
    simp [Parser.atBoundary, Parser.lookaheadIs, Token.isOneOf, hcurrent, hlookahead, hl, hl']
  have hstop : p.advance.atBoundary true = true := by
    simp [Parser.atBoundary, Token.isOneOf, hlookahead, hl']
  rw [Parser.synchronize_eq, if_neg hgo, Parser.synchronize_eq, if_pos hstop]
  simp [hp]

/-- Either the block ends on its brace in front of `rest`, and the nesting is not too deep there; or it
is, and without a rest the function is lost. -/
theorem blockContained_or (heven : Even (body.toList.count '"'))
    (hopen : ∀ t ∈ tokenize body label?, t.kind ≠ .leftBrace)
    (hclose : ∀ t ∈ tokenize body label?, t.kind ≠ .rightBrace) (hlength : body.length + 8 < 2 ^ 32)
    (rest : String) :
    (BlockContained body rest label? ∧
      tooDeepAtBrace body label? ∉ (parse (inFunction body "") label?).diagnostics) ∨
    ((parse (inFunction body "") label?).program = [] ∧
      tooDeepAtBrace body label? ∈ (parse (inFunction body "") label?).diagnostics) := by
  obtain ⟨F⟩ := exists_frame heven label?
  have htwin : Parser.Twin F.inside
      (F.semicolon :: (Parser.start rest label?).lexemes.map
        (Lexeme.relocate (Position.shift (body.length + 8)))) [F.semicolon]
      (.inBody body rest label?) (.inBody body "" label?) := by
    have hempty : (Parser.start "" label?).lexemes = [] := Parser.lexemes_start "" label?
    refine ⟨F.lexemes_inBody rest, ?_, ?_, ?_⟩
    · rw [F.lexemes_inBody, hempty, List.map_nil]
    · rw [← Array.toList_inj, F.diagnostics_inBody heven, F.diagnostics_inBody heven]
    · rw [Parser.depth_inBody, Parser.depth_inBody]
  obtain ⟨l, X, hX⟩ : ∃ l X, F.inside = l :: X := by
    rw [Frame.inside]
    cases (Parser.start body label?).lexemes <;> exact ⟨_, _, rfl⟩
  have hclosing := (F.fragment heven hopen).closing_statementList F.kind_closing
    (fun l hl => F.ne_of_mem_dropLast hclose hl) 99 (hX ▸ List.suffix_refl _) (hX ▸ htwin)
  generalize hrun : statementList (expressionAt 99) true (.inBody body rest label?) = run,
    hrun' : statementList (expressionAt 99) true (.inBody body "" label?) = run' at hclosing
  cases hclosing with
  | @ends inner q q' hq htrail htrail' hfound =>
    left
    obtain ⟨found, heq, htold⟩ := hfound
    rw [F.diagnostics_inBody heven, List.nil_append] at heq
    obtain ⟨hprogram, hdiagnostics⟩ := F.parse_of_ends hrun htrail hq.lexemes_eq
    obtain ⟨-, hdiagnostics'⟩ := F.parse_of_ends hrun' htrail' hq.lexemes_eq'
    have hempty : (parse "" label?).diagnostics = [] := rfl
    rw [hq.diagnostics_eq, heq, hempty, List.map_nil, List.append_nil] at hdiagnostics'
    rw [heq] at hdiagnostics
    refine ⟨⟨⟨_, _, _, hprogram⟩, found, hdiagnostics, fun d hd => ?_⟩, fun hmem => ?_⟩
    · exact (F.of_told hlength (htold d hd)).1
    · rw [hdiagnostics'] at hmem
      exact (F.of_told hlength (htold _ hmem)).2 rfl
  | @skips inner inner' q q' hq htrail htrail' =>
    right
    have hplace : q'.position = F.closing.token.position := by rw [Parser.position, hq.current_eq']
    have hdeep : q'.tooDeep = tooDeepAtBrace body label? := by
      rw [Parser.tooDeep, hplace, F.position_closing, tooDeepAtBrace]
    have hnil := lexemes_synchronize_of_brace (p := q'.record q'.tooDeep) F.kind_closing
      F.kind_semicolon hq.lexemes_eq'
    rw [statementList_eq _ _ (Parser.advance _), if_pos (atListEnd_of_lexemes_eq_nil hnil _)] at hrun'
    obtain ⟨hprogram, hdiagnostics⟩ := F.parse_of_end hrun' hnil
    refine ⟨hprogram, ?_⟩
    have hskip := ((Parser.Trail.refl (p := q'.record q'.tooDeep)).synchronize true).advance
    refine (hskip.diagnostics_isPrefix.trans hdiagnostics).subset ?_
    simp [Parser.record, hdeep]

/-- A block without blocks inside ends on its brace whatever follows, if and only if the nesting is not
too deep at the brace. -/
theorem forall_blockContained_iff (body : String) (label? : Option String)
    (heven : Even (body.toList.count '"'))
    (hbraces : ∀ t ∈ tokenize body label?, t.kind ≠ .leftBrace ∧ t.kind ≠ .rightBrace)
    (hlength : body.length + 8 < 2 ^ 32) :
    (∀ rest, body.length + 8 + rest.length < 2 ^ 32 → BlockContained body rest label?) ↔
      tooDeepAtBrace body label? ∉ (parse (inFunction body "") label?).diagnostics := by
  have hor := blockContained_or heven (fun t ht => (hbraces t ht).1) (fun t ht => (hbraces t ht).2)
    hlength
  constructor
  · intro h
    obtain ⟨-, hdeep⟩ | ⟨hprogram, -⟩ := hor ""
    · exact hdeep
    · obtain ⟨token, brace, inner, heq⟩ := (h "" hlength).program_eq
      rw [hprogram] at heq
      exact absurd heq (List.cons_ne_nil _ _).symm
  · intro hdeep rest _
    exact (hor rest).elim And.left fun h => absurd h.2 hdeep

/-- An operand that is missing before the brace leaves the brace to the block. -/
theorem blockContained_unfinished_sum :
    tooDeepAtBrace "x + " none ∉ (parse (inFunction "x + " "") none).diagnostics ∧
      ∀ rest, "x + ".length + 8 + rest.length < 2 ^ 32 → BlockContained "x + " rest none := by
  have hdeep : tooDeepAtBrace "x + " none ∉ (parse (inFunction "x + " "") none).diagnostics := by
    decide +kernel
  refine ⟨hdeep, (forall_blockContained_iff "x + " none ?_ ?_ ?_).2 hdeep⟩ <;> decide +kernel

/-- With all levels open at the brace, the function is lost and what follows it as well. -/
example : (parse (inFunction (.ofList (.replicate 99 '(')) "x;") none).program = [] := by
  decide +kernel

end ScriptSyntax
