import ScriptSyntax.Proofs.Scanner.Spelling
import ScriptSyntax.Proofs.Semicolon

/-!
# The limit on nesting

An expression that stands inside of `maxNesting` others is one too many.  Which rules led to it is of no
matter: each of them hands on how the expression in it failed and gives back the level that it entered,
so that the list of statements is told once, of the token where the levels ran out, and goes on behind
the next semicolon as if nothing had happened.

## Main statements

* `Rule.expressionAt_openers`, `Rule.statementList_openers`: what comes of one opener for each level.
* `parse_nestText`: an operand behind any openers, in front of any other text.
-/

namespace ScriptSyntax

open Grammar Rule

/-! ## Skipping and recording -/

namespace Parser

/-- Outside of blocks skipping moves on to the first semicolon there is. -/
lemma synchronize_eq_ahead_semicolon {p : Parser} {n : ℕ}
    (hpass : ∀ i < n, (p.tokenAt i).kind ∉ [.semicolon, .endOfInput])
    (hsemicolon : (p.tokenAt n).kind = .semicolon) : p.synchronize false = p.ahead n := by
  refine synchronize_eq_ahead ?_ fun i hi => ?_
  · simp [atBoundary, current, tokenAt_ahead, hsemicolon, Token.isOneOf]
  · have hhere := hpass i hi
    have hbehind : (p.tokenAt (i + 1)).kind ≠ .endOfInput := by
      rcases (Nat.succ_le_of_lt hi).eq_or_lt with rfl | hlt
      · exact hsemicolon ▸ (by decide)
      · exact fun h => hpass (i + 1) hlt (by simp [h])
    simpa [atBoundary, current, lookaheadIs, lookahead, tokenAt_ahead, Token.isOneOf, hbehind]
      using hhere

variable (p : Parser) (d : Diagnostic) (m k : ℕ)

lemma lexemes_ahead_record :
    (((p.ahead m).record d).ahead k).lexemes = p.lexemes.drop (m + k) := by
  rw [lexemes_ahead, ← List.drop_drop, ← lexemes_ahead p m]
  rfl

/-- Over complete tokens nothing else is told. -/
lemma diagnostics_ahead_record {p : Parser} (h : ∀ l ∈ p.lexemes, l.closed = true) :
    (((p.ahead m).record d).ahead k).diagnostics = p.diagnostics.push d := by
  have hto : (p.ahead m).diagnostics = p.diagnostics :=
    diagnostics_ahead fun l hl => h l (List.mem_of_mem_tail (List.mem_of_mem_take hl))
  have hon : (((p.ahead m).record d).ahead k).diagnostics = ((p.ahead m).record d).diagnostics := by
    refine diagnostics_ahead fun l hl => h l ?_
    have hmem : l ∈ (p.ahead m).lexemes := List.mem_of_mem_tail (List.mem_of_mem_take hl)
    rw [lexemes_ahead] at hmem
    exact List.mem_of_mem_drop hmem
  rw [hon, record, hto]

end Parser

/-! ## An opener for each level -/

/-- The tokens that an operand starts with if the next token starts an expression inside of it. -/
def openers : List TokenKind := [.leftParen, .leftBracket, .bang, .minus]

namespace Rule

/-- An operand fails as the expression behind its opener does.  A bracket opens one only if the array has
an element. -/
lemma exists_operand_of_opener (sub : Subparser) {p : Parser} (h : p.current.kind ∈ openers)
    (hnext : p.lookahead.kind ≠ .rightBracket) :
    ∃ rule power, operand? sub p.current.kind = some rule ∧
      ∀ d q, sub power p.advance = .error d q → rule p = .error d q := by
  simp only [openers, List.mem_cons, List.not_mem_nil, or_false] at h
  rcases h with h | h | h | h <;> rw [h]
  · refine ⟨group sub, .lowest, rfl, fun d q hsub => ?_⟩
    rw [group, advance_bind, bind_apply, hsub]
  · refine ⟨array sub, .lowest, rfl, fun d q hsub => ?_⟩
    have hitems : items sub .rightBracket p = .error d q := by
      rw [items, get_bind, advance_bind, if_neg (by simpa [Parser.lookaheadIs] using hnext),
        bind_apply, hsub]
    rw [array, get_bind, bind_apply, hitems]
  all_goals
    refine ⟨prefixed sub, .unary, rfl, fun d q hsub => ?_⟩
    rw [prefixed, get_bind, advance_bind, bind_apply, hsub]

/-- With an opener for each level that is left, the expression behind the last of them is one too many,
and all the levels that were entered on the way are left again. -/
theorem expressionAt_openers {levels : ℕ} {p : Parser} (power : Power)
    (hdepth : p.depth + levels ≤ maxNesting)
    (hopeners : ∀ i < levels, (p.tokenAt i).kind ∈ openers)
    (hnext : (p.tokenAt levels).kind ≠ .rightBracket) :
    expressionAt levels power p = .error (p.ahead levels).tooDeep (p.ahead levels) := by
  induction levels generalizing p power with
  | zero => rfl
  | succ levels ih =>
    let q : Parser := { p with depth := p.depth + 1 }
    have hlookahead : q.lookahead.kind ≠ .rightBracket := by
      cases levels with
      | zero => exact hnext
      | succ levels => exact ne_of_mem_of_not_mem (hopeners 1 (by omega)) (by decide)
    obtain ⟨rule, inner, hrule, hfails⟩ :=
      exists_operand_of_opener (expressionAt levels) (p := q) (hopeners 0 (by omega)) hlookahead
    have hinner : ∀ i < levels, (q.advance.tokenAt i).kind ∈ openers := fun i hi => by
      rw [Parser.tokenAt_advance]
      exact hopeners (i + 1) (by omega)
    have hstop : (q.advance.tokenAt levels).kind ≠ .rightBracket := by
      rw [Parser.tokenAt_advance]
      exact hnext
    have hsub := ih inner (show p.depth + 1 + levels ≤ maxNesting by omega) hinner hstop
    -- the level that was entered for `q` is all that `p` further on differs by
    have hahead : q.advance.ahead levels = { p.ahead (levels + 1) with depth := p.depth + 1 } :=
      Parser.ahead_with_depth p (p.depth + 1) (levels + 1)
    have hchain : chain (expressionAt levels) power q =
        .error (p.ahead (levels + 1)).tooDeep
          { p.ahead (levels + 1) with depth := p.depth + 1 } := by
      rw [chain_eq, hrule]
      simp only
      rw [bind_apply, hfails _ _ hsub, hahead]
      rfl
    change nested (chain (expressionAt levels) power) p = _
    rw [nested_apply, if_pos (by omega), hchain]
    simp only [Parser.leaveNesting, Nat.add_sub_cancel]
    rw [← p.depth_ahead (levels + 1)]

/-- A statement that starts with an opener for each level is left out and told of once.  The next
statement is the one behind the first semicolon from there on. -/
theorem statementList_openers {p : Parser} {n : ℕ} (hdepth : p.depth = 0)
    (hopeners : ∀ i < maxNesting, (p.tokenAt i).kind ∈ openers)
    (hnext : (p.tokenAt maxNesting).kind ≠ .rightBracket)
    (hpass : ∀ i < n, (p.tokenAt (maxNesting + i)).kind ∉ [.semicolon, .endOfInput])
    (hsemicolon : (p.tokenAt (maxNesting + n)).kind = .semicolon) :
    statementList (expressionAt maxNesting) false p =
      statementList (expressionAt maxNesting) false
        (((p.ahead maxNesting).record (p.ahead maxNesting).tooDeep).ahead (n + 1)) := by
  have hcurrent : p.current.kind ∈ openers := hopeners 0 (by decide)
  have hend : atListEnd false p = false := by
    have hne : p.current.kind ≠ .endOfInput := ne_of_mem_of_not_mem hcurrent (by decide)
    simp [atListEnd, Parser.currentIs, hne]
  have hstatement : statement (expressionAt maxNesting) p =
      .error (p.ahead maxNesting).tooDeep (p.ahead maxNesting) := by
    have hnone : statement? (expressionAt maxNesting) p.current.kind = none := by
      simp only [openers, List.mem_cons, List.not_mem_nil, or_false] at hcurrent
      rcases hcurrent with h | h | h | h <;> rw [h] <;> rfl
    have hexpression := expressionAt_openers .lowest (by omega) hopeners hnext
    rw [statement, get_bind, hnone, Option.getD_none, expressionStatement_apply, hexpression]
  have hsync : ((p.ahead maxNesting).record (p.ahead maxNesting).tooDeep).synchronize false =
      ((p.ahead maxNesting).record (p.ahead maxNesting).tooDeep).ahead n := by
    refine Parser.synchronize_eq_ahead_semicolon (fun i hi => ?_) ?_
    · rw [Parser.tokenAt_record, Parser.tokenAt_ahead]
      exact hpass i hi
    · rw [Parser.tokenAt_record, Parser.tokenAt_ahead]
      exact hsemicolon
  rw [statementList_eq, hend, if_neg Bool.false_ne_true, hstatement]
  simp only [Bool.false_and, Bool.false_eq_true, if_false]
  rw [hsync, Parser.advance_ahead]

end Rule

/-! ## Openers around an operand -/

/-- What an expression may start with so that another one starts behind it. -/
inductive Opener where
  | paren
  | bracket
  | bang
  | minus
deriving DecidableEq, Repr

namespace Opener

/-- The character of an opener. -/
def opening : Opener → Char
  | paren => '('
  | bracket => '['
  | bang => '!'
  | minus => '-'

/-- The character that closes what was opened, if it has to be closed. -/
def closing : Opener → List Char
  | paren => [')']
  | bracket => [']']
  | bang | minus => []

/-- The expression that an opener makes of the one behind it, at no place. -/
def wrap : Opener → Expr → Expr
  | paren, e => e
  | bracket, e => .array (.mark '[') [e]
  | bang, e => .prefixOp (.mark '!') "!" e
  | minus, e => .prefixOp (.mark '-') "-" e

end Opener

/-- The operand `1` behind these openers, with what they have to be closed by in reverse order. -/
def nestText (os : List Opener) : String :=
  .ofList (os.map Opener.opening ++ '1' :: os.reverse.flatMap Opener.closing)

/-- The tokens of this text, at no places. -/
def nestTokens (os : List Opener) : List Token :=
  os.map (fun o => .mark o.opening) ++
    .bare .integer "1" :: (os.reverse.flatMap Opener.closing).map .mark

/-- The tree of this text, at no place. -/
def nestTree (os : List Opener) : Expr := os.foldr Opener.wrap (.integer (.bare .integer "1") 1)

section Nests

variable {os : List Opener}

lemma toList_nestText_cons (o : Opener) (os : List Opener) :
    (nestText (o :: os)).toList = o.opening :: ((nestText os).toList ++ o.closing) := by
  simp [nestText]

lemma nestTokens_cons (o : Opener) (os : List Opener) :
    nestTokens (o :: os) = .mark o.opening :: (nestTokens os ++ o.closing.map .mark) := by
  simp [nestTokens]

lemma ne_of_mem_head?_nestText (os : List Opener) : ∀ d ∈ (nestText os).toList.head?, d ≠ '=' := by
  intro d hd
  cases os with
  | nil =>
    obtain rfl : '1' = d := by simpa [nestText] using hd
    decide
  | cons o os =>
    rw [toList_nestText_cons] at hd
    obtain rfl : o.opening = d := by simpa using hd
    cases o <;> decide

/-- A prefix operator is a token by itself in front of anything but an equals sign. -/
lemma Spells.prefix_cons {c : Char} {b : List Char} {us : List Token} (h : Spells b us)
    (hb : ∀ d ∈ b.head?, d ≠ '=') (hc : c ∈ ['!', '-'] := by decide) :
    Spells (c :: b) (.mark c :: us) := by
  obtain ⟨hword, hdigit, hspace, hmunch⟩ : isWordChar c = false ∧ c.isDigit = false ∧
      ¬isSpace c = true ∧ munch c [] = .plain (Munch.markKind c) [c] := by
    simp only [List.mem_cons, List.not_mem_nil, or_false] at hc
    rcases hc with rfl | rfl <;> decide
  refine (spells_of_munch hspace hmunch rfl rfl).append h fun c' hc' d hd => ?_
  obtain rfl : c = c' := by simpa using hc'
  simp [joins, hword, hdigit, hb d hd]

lemma spells_nestText (os : List Opener) : Spells (nestText os).toList (nestTokens os) := by
  induction os with
  | nil => exact @spells_digits "1" (by decide) (List.all_eq_true.1 (by decide))
  | cons o os ih =>
    rw [toList_nestText_cons, nestTokens_cons]
    cases o with
    | paren =>
      have hclose : Spells [')'] [.mark ')'] := spells_mark
      exact (ih.append_break hclose).mark_cons
    | bracket =>
      have hclose : Spells [']'] [.mark ']'] := spells_mark
      exact (ih.append_break hclose).mark_cons
    | bang | minus =>
      rw [Opener.closing, List.map_nil, List.append_nil, List.append_nil]
      exact ih.prefix_cons (ne_of_mem_head?_nestText os)

/-- What is read as an operand is read as an expression in front of a token that goes on with none. -/
lemma reads_expression_of_operand {n : ℕ} {e : Expr} {ts : List Token} {next : TokenKind}
    (h : Reads n (.operand e) ts next) (hnext : next.power = .lowest) (power : Power) :
    Reads (n + 1) (.expression power e) ts next := by
  have hstop : ¬power < next.power := by
    rw [hnext]
    exact Nat.not_lt_zero _
  have hnone : Reads 0 (.operators power e e) [] next := .operatorsEnd hstop
  simpa using Reads.expression h hnone

lemma unplaced_prefixOp {a : Token} {c : Char} (ha : a.unplaced = .mark c) (e : Expr) :
    (Expr.prefixOp a a.text e).unplaced = .prefixOp (.mark c) (.ofList [c]) e.unplaced := by
  change Expr.prefixOp a.unplaced a.text e.unplaced = _
  rw [ha, Token.text_of_unplaced ha]

/-- An opener makes an operand of the expression behind it, which takes no level of its own. -/
lemma Opener.exists_reads_operand (o : Opener) {n : ℕ} {a : Token} {e : Expr} {us vs : List Token}
    (ha : a.unplaced = .mark o.opening) (hvs : vs.map Token.unplaced = o.closing.map .mark)
    (h : ∀ (power : Power) (next : TokenKind), next.power = .lowest →
      Reads n (.expression power e) us next) :
    ∃ e', e'.unplaced = o.wrap e.unplaced ∧ ∀ next : TokenKind, next.power = .lowest →
      Reads n (.operand e') (a :: (us ++ vs)) next := by
  have hkind := Token.kind_of_unplaced ha
  cases o with
  | paren =>
    obtain ⟨c, rfl, hc⟩ := List.map_eq_singleton_iff.1 hvs
    exact ⟨e, rfl, fun _ _ =>
      .group hkind (h .lowest .rightParen rfl) (Token.kind_of_unplaced hc)⟩
  | bracket =>
    obtain ⟨c, rfl, hc⟩ := List.map_eq_singleton_iff.1 hvs
    refine ⟨.array a [e], ?_, fun _ _ => ?_⟩
    · rw [Expr.unplaced_array, ha]
      rfl
    · have hitems : Reads n (.items [e]) us .rightBracket := by
        simpa using Reads.items (h .lowest .rightBracket rfl) .itemsEnd
      exact .array hkind hitems (Token.kind_of_unplaced hc)
  | bang =>
    obtain rfl := List.map_eq_nil_iff.1 hvs
    refine ⟨.prefixOp a a.text e, unplaced_prefixOp ha e, fun next hnext => ?_⟩
    rw [List.append_nil]
    exact .prefixed (.inl hkind) (h .unary next hnext)
  | minus =>
    obtain rfl := List.map_eq_nil_iff.1 hvs
    refine ⟨.prefixOp a a.text e, unplaced_prefixOp ha e, fun next hnext => ?_⟩
    rw [List.append_nil]
    exact .prefixed (.inr hkind) (h .unary next hnext)

/-- The tokens are read as the tree, which takes a level for each opener and one for the operand. -/
lemma exists_reads_nestTokens {ts : List Token} (hts : ts.map Token.unplaced = nestTokens os) :
    ∃ e, e.unplaced = nestTree os ∧ ∀ (power : Power) (next : TokenKind), next.power = .lowest →
      Reads (os.length + 1) (.expression power e) ts next := by
  induction os generalizing ts with
  | nil =>
    obtain ⟨t, rfl, ht⟩ := List.map_eq_singleton_iff.1 hts
    have hliteral : Expr.ofToken t = .ok (.integer t 1) := by
      rw [Expr.ofToken, Token.kind_of_unplaced ht, Token.text_of_unplaced ht]
      rfl
    refine ⟨.integer t 1, ?_, fun power next hnext => ?_⟩
    · change Expr.integer t.unplaced 1 = _
      rw [ht]
      rfl
    · exact reads_expression_of_operand (.literal hliteral) hnext power
  | cons o os ih =>
    rw [nestTokens_cons, List.map_eq_cons_iff] at hts
    obtain ⟨a, us, rfl, ha, hus⟩ := hts
    obtain ⟨us, vs, rfl, hus, hvs⟩ := List.map_eq_append_iff.1 hus
    obtain ⟨e, he, hreads⟩ := ih hus
    obtain ⟨e', he', hoperand⟩ := o.exists_reads_operand ha hvs hreads
    refine ⟨e', ?_, fun power next hnext => ?_⟩
    · rw [he', he]
      rfl
    · exact reads_expression_of_operand (hoperand next hnext) hnext power

/-! ## The openers among the tokens -/

lemma Opener.kind_mem_openers (o : Opener) : (Token.mark o.opening).kind ∈ openers := by
  cases o <;> decide

lemma Opener.kind_mem_of_mem_closing {o : Opener} {c : Char} (h : c ∈ o.closing) :
    (Token.mark c).kind ∈ [.rightParen, .rightBracket] := by
  cases o with
  | paren | bracket =>
    obtain rfl := List.mem_singleton.1 h
    decide
  | bang | minus => exact absurd h List.not_mem_nil

lemma kind_mem_nestTokens {t : Token} (h : t ∈ nestTokens os) :
    t.kind ∈ .integer :: .rightParen :: .rightBracket :: openers := by
  rw [nestTokens, List.mem_append, List.mem_cons, List.mem_map, List.mem_map] at h
  rcases h with ⟨o, -, rfl⟩ | rfl | ⟨c, hc, rfl⟩
  · exact List.mem_append_right [.integer, .rightParen, .rightBracket] o.kind_mem_openers
  · exact List.mem_cons_self
  · obtain ⟨o, -, hc⟩ := List.mem_flatMap.1 hc
    exact List.mem_cons_of_mem _
      (List.mem_append_left openers (Opener.kind_mem_of_mem_closing hc))

/-- The first tokens are the openers. -/
lemma getElem?_nestTokens {i : ℕ} (hi : i < os.length) :
    (nestTokens os)[i]? = some (.mark os[i].opening) := by
  rw [nestTokens, List.getElem?_append_left (by simpa using hi)]
  simp [hi]

/-- Behind them comes the operand. -/
lemma getElem?_nestTokens_length (os : List Opener) :
    (nestTokens os)[os.length]? = some (.bare .integer "1") := by
  rw [nestTokens, List.getElem?_append_right (by simp)]
  simp

lemma length_lt_length_nestTokens (os : List Opener) : os.length < (nestTokens os).length := by
  simp [nestTokens]

end Nests

/-! ## The openers in a source -/

lemma Spells.map_unplaced_tokens_start {source : String} {ts : List Token}
    (h : Spells source.toList ts) (label? : Option String) :
    (Parser.start source label?).tokens.map Token.unplaced = ts := by
  rw [Parser.tokens, Parser.lexemes_start, List.map_map]
  exact h.tokens_eq _ _

lemma Parser.kind_tokenAt_of_unplaced {p : Parser} {ts : List Token}
    (h : p.tokens.map Token.unplaced = ts) {i : ℕ} {t : Token} (ht : ts[i]? = some t) :
    (p.tokenAt i).kind = t.kind := by
  rw [← h, List.getElem?_map, tokens, List.getElem?_map, Option.map_map, Option.map_eq_some_iff]
    at ht
  obtain ⟨l, hl, rfl⟩ := ht
  rw [tokenAt, hl]
  rfl

/-- The tokens of a source are at their numbers whatever stands behind it. -/
lemma getElem?_tokenize_append {a b : String} {label? : Option String}
    (hseam : Seam a.toList b.toList) {i : ℕ} (hi : i < (Parser.start a label?).lexemes.length) :
    (tokenize (a ++ b) label?)[i]? = some ((Parser.start a label?).tokenAt i) := by
  rw [Parser.tokenize_eq_start, Parser.tokens, Parser.lexemes_start_append hseam, List.map_append,
    List.append_assoc, List.getElem?_append_left (by simpa using hi), List.getElem?_map,
    Parser.tokenAt, List.getElem?_eq_getElem hi]
  rfl

section Sources

variable {os : List Opener} {label? : Option String}

lemma spells_nestText_semicolon (os : List Opener) :
    Spells (nestText os ++ ";").toList (nestTokens os ++ [.mark ';']) := by
  have hsemicolon : Spells [';'] [.mark ';'] := spells_mark
  rw [String.toList_append]
  exact (spells_nestText os).append_break hsemicolon

/-- As long as there is a level for the operand too, the openers are the start of a statement. -/
lemma parse_nestText_semicolon_of_lt (hos : os.length < maxNesting) (label? : Option String) :
    ∃ t e, e.unplaced = nestTree os ∧
      (parse (nestText os ++ ";") label?).program = [.expression t e] ∧
      (parse (nestText os ++ ";") label?).diagnostics = [] := by
  have hspells := spells_nestText_semicolon os
  obtain ⟨ts, cs, hts, htokens, hcs⟩ :=
    List.map_eq_append_iff.1 (hspells.map_unplaced_tokens_start label?)
  obtain ⟨c, rfl, hc⟩ := List.map_eq_singleton_iff.1 hcs
  obtain ⟨e, he, hreads⟩ := exists_reads_nestTokens htokens
  have hexpression := hreads .lowest .semicolon rfl
  obtain ⟨t, us, rfl, -⟩ := hexpression.startsWith
  have hbody : Reads (os.length + 1) (.statements [.expression t e]) (t :: us ++ [c])
      .endOfInput := by
    have hstatement : Reads (os.length + 1) (.statement (.expression t e)) (t :: (us ++ [c]))
        .endOfInput := .closedExpression hexpression (Token.kind_of_unplaced hc)
    simpa using Reads.statements hstatement .noStatement
  rw [← hts, Parser.tokens_start] at hbody
  obtain ⟨hprogram, hdiagnostics⟩ := (parse_of_reads hspells.even_count hbody).1 hos
  exact ⟨t, e, he, hprogram, hdiagnostics⟩

/-- If there is none the levels run out on the way, and the list of statements goes on behind the
semicolon. -/
lemma statementList_nestTokens {p : Parser} (hdepth : p.depth = 0)
    (htokens : p.tokens.map Token.unplaced = nestTokens os ++ [.mark ';'])
    (hos : maxNesting ≤ os.length) :
    ∃ n, maxNesting + n = (nestTokens os).length ∧
      statementList (expressionAt maxNesting) false p =
        statementList (expressionAt maxNesting) false
          (((p.ahead maxNesting).record (p.ahead maxNesting).tooDeep).ahead (n + 1)) := by
  have hlength := length_lt_length_nestTokens os
  obtain ⟨n, hn⟩ := Nat.exists_eq_add_of_le (hos.trans hlength.le)
  have hkind : ∀ {i : ℕ} {t : Token}, (nestTokens os)[i]? = some t →
      (p.tokenAt i).kind = t.kind := fun ht => by
    refine Parser.kind_tokenAt_of_unplaced htokens ?_
    rw [List.getElem?_append_left (List.getElem?_eq_some_iff.1 ht).1, ht]
  have hopeners : ∀ i < os.length, (p.tokenAt i).kind ∈ openers := fun i hi => by
    rw [hkind (getElem?_nestTokens hi)]
    exact os[i].kind_mem_openers
  have hnext : (p.tokenAt maxNesting).kind ≠ .rightBracket := by
    rcases hos.eq_or_lt with heq | hlt
    · rw [heq, hkind (getElem?_nestTokens_length os)]
      decide
    · exact ne_of_mem_of_not_mem (hopeners _ hlt) (by decide)
  have hpass : ∀ i < n, (p.tokenAt (maxNesting + i)).kind ∉ [.semicolon, .endOfInput] := by
    intro i hi hmem
    have ht := List.getElem?_eq_getElem (show maxNesting + i < (nestTokens os).length by omega)
    have hinner := kind_mem_nestTokens (List.mem_of_getElem? ht)
    rw [← hkind ht] at hinner
    have hdisjoint : ∀ kind ∈ TokenKind.integer :: .rightParen :: .rightBracket :: openers,
        kind ∉ [TokenKind.semicolon, .endOfInput] := by decide
    exact hdisjoint _ hinner hmem
  have hsemicolon : (p.tokenAt (maxNesting + n)).kind = .semicolon := by
    rw [← hn]
    exact Parser.kind_tokenAt_of_unplaced htokens List.getElem?_concat_length
  exact ⟨n, hn.symm,
    statementList_openers hdepth (fun i hi => hopeners i (hi.trans_le hos)) hnext hpass hsemicolon⟩

/-- So the statement is left out, and that it is nested too deep is the only fault. -/
lemma parse_nestText_semicolon_of_le (hos : maxNesting ≤ os.length) (label? : Option String) :
    (parse (nestText os ++ ";") label?).program = [] ∧
      (parse (nestText os ++ ";") label?).diagnostics =
        [⟨.nestingTooDeep maxNesting,
          ((Parser.start (nestText os ++ ";") label?).tokenAt maxNesting).position⟩] := by
  have hspells := spells_nestText_semicolon os
  have htokens := hspells.map_unplaced_tokens_start label?
  have hclosed := (Parser.forall_closed_start_iff (nestText os ++ ";") label?).2 hspells.even_count
  have hnone := Parser.diagnostics_start_eq_nil (nestText os ++ ";") label? hspells.even_count
  have hdepth := Parser.depth_start (nestText os ++ ";") label?
  rw [program_parse, diagnostics_parse]
  generalize Parser.start (nestText os ++ ";") label? = p at *
  obtain ⟨n, hn, hrun⟩ := statementList_nestTokens hdepth htokens hos
  have hlength : p.lexemes.length = maxNesting + (n + 1) := by
    have hcount := congrArg List.length htokens
    simp only [Parser.tokens, List.length_map, List.length_append, List.length_singleton] at hcount
    omega
  have hnil : (((p.ahead maxNesting).record (p.ahead maxNesting).tooDeep).ahead (n + 1)).lexemes =
      [] := by
    rw [Parser.lexemes_ahead_record, List.drop_eq_nil_iff, hlength]
  have hplace : (p.ahead maxNesting).position = (p.tokenAt maxNesting).position := by
    rw [Parser.position, Parser.current, Parser.tokenAt_ahead]
    rfl
  rw [hrun, statementList_eq, if_pos (atListEnd_of_lexemes_eq_nil hnil _),
    Parser.diagnostics_ahead_record _ _ _ hclosed, Array.toList_push, hnone, Parser.tooDeep, hplace]
  exact ⟨rfl, rfl⟩

/-- No brace is among the openers. -/
lemma kind_ne_leftBrace_of_mem_nestText {t : Token} (h : t ∈ tokenize (nestText os) label?) :
    t.kind ≠ .leftBrace := by
  rw [Parser.tokenize_eq_start, List.mem_append, List.mem_singleton] at h
  rcases h with h | rfl
  · have hmem := List.mem_map_of_mem (f := Token.unplaced) h
    rw [(spells_nestText os).map_unplaced_tokens_start] at hmem
    change t.unplaced.kind ≠ .leftBrace
    exact ne_of_mem_of_not_mem (kind_mem_nestTokens hmem) (by decide)
  · change TokenKind.endOfInput ≠ .leftBrace
    decide

/-- The limit on nesting is exact, and a statement beyond it harms no other.  Behind less than
`maxNesting` openers the operand is parsed, and what they make of it is a statement.  Behind as many or
more there is none, and one diagnostic says so of the token that is one level too deep.  Whatever comes
behind the semicolon is parsed as it is alone. -/
theorem parse_nestText (os : List Opener) (rest : String) (label? : Option String) :
    (os.length < maxNesting → ∃ t e, e.unplaced = nestTree os ∧
      (parse (nestText os ++ ";" ++ rest) label?).program =
        .expression t e ::
          Program.relocate (.shift ((nestText os).length + 1)) (parse rest label?).program ∧
      (parse (nestText os ++ ";" ++ rest) label?).diagnostics =
        (parse rest label?).diagnostics.map
          (Diagnostic.relocate (.shift ((nestText os).length + 1)))) ∧
    (maxNesting ≤ os.length → ∃ t,
      (tokenize (nestText os ++ ";" ++ rest) label?)[maxNesting]? = some t ∧
      (parse (nestText os ++ ";" ++ rest) label?).program =
        Program.relocate (.shift ((nestText os).length + 1)) (parse rest label?).program ∧
      (parse (nestText os ++ ";" ++ rest) label?).diagnostics =
        ⟨.nestingTooDeep maxNesting, t.position⟩ ::
          (parse rest label?).diagnostics.map
            (Diagnostic.relocate (.shift ((nestText os).length + 1)))) := by
  have heven := (spells_nestText os).even_count
  obtain ⟨q, hq⟩ : ∃ q, StandsBefore (nestText os) rest label? q :=
    exists_standsBefore_of_no_brace heven fun t => kind_ne_leftBrace_of_mem_nestText
  obtain ⟨hprogram, hdiagnostics⟩ := hq.parse_eq
  refine ⟨fun hos => ?_, fun hos => ?_⟩
  · obtain ⟨t, e, he, hstatement, hclean⟩ := parse_nestText_semicolon_of_lt hos label?
    rw [hstatement] at hprogram
    rw [hclean] at hdiagnostics
    exact ⟨t, e, he, hprogram, hdiagnostics⟩
  · obtain ⟨hnone, htold⟩ := parse_nestText_semicolon_of_le hos label?
    rw [hnone] at hprogram
    rw [htold] at hdiagnostics
    refine ⟨_, getElem?_tokenize_append (seam_of_semicolon heven rest) ?_, hprogram, hdiagnostics⟩
    have hcount := congrArg List.length
      ((spells_nestText_semicolon os).map_unplaced_tokens_start label?)
    have hlength := length_lt_length_nestTokens os
    simp only [Parser.tokens, List.length_map, List.length_append] at hcount
    omega

/-- Three openers in front of a statement that is cut short, and a hundred in front of the same. -/
theorem parse_nestText_hundred_bangs :
    [Opener.paren, .minus, .bracket].length < maxNesting ∧
      maxNesting ≤ (List.replicate 100 Opener.bang).length ∧
      (∃ t e, e.unplaced = nestTree [.paren, .minus, .bracket] ∧
        (parse ("(-[1])" ++ ";" ++ "let x") none).program =
          .expression t e :: Program.relocate (.shift 7) (parse "let x" none).program ∧
        (parse ("(-[1])" ++ ";" ++ "let x") none).diagnostics =
          (parse "let x" none).diagnostics.map (Diagnostic.relocate (.shift 7))) ∧
      ∃ t, (tokenize (nestText (List.replicate 100 .bang) ++ ";" ++ "let x") none)[100]? = some t ∧
        (parse (nestText (List.replicate 100 .bang) ++ ";" ++ "let x") none).program =
          Program.relocate (.shift 102) (parse "let x" none).program ∧
        (parse (nestText (List.replicate 100 .bang) ++ ";" ++ "let x") none).diagnostics =
          ⟨.nestingTooDeep 100, t.position⟩ ::
            (parse "let x" none).diagnostics.map (Diagnostic.relocate (.shift 102)) :=
  ⟨by decide, by decide,
    (parse_nestText [.paren, .minus, .bracket] "let x" none).1 (by decide),
    (parse_nestText (List.replicate 100 .bang) "let x" none).2 (by decide)⟩

end Sources

end ScriptSyntax
