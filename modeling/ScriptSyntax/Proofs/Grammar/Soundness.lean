import ScriptSyntax.Proofs.Grammar.Reading
import ScriptSyntax.Proofs.Parser.Success

/-!
# What is parsed can be read

Where a rule ends well it has found a reading.  A block goes on after a faulty statement, so that not
all of the tokens the rule has passed are read: some were dropped.  But dropping is all that recovery
does.  The tokens that are kept are read as the value of the rule, in front of the token that comes
next, and within the levels of nesting that the rule had; and where nothing wrong was found all of them
are kept.

What is dropped ends with a semicolon, unless it is the last of its list.  The semicolon may have to be
kept: the tokens in front of what is dropped and those behind it would else be read as one statement.

The proof goes along the rules.  A rule calls itself again for the expressions inside it only, with
one level less, so it is enough to take the fact for the expressions inside as given, and to tie the
knot by induction on the levels.

## Main statements

* `Rule.found_expressionAt`: a parse of an expression that ends well has found a reading of it.
* `Rule.keeps_statementList`: every list of statements is read from the tokens that are kept of it.
-/

namespace ScriptSyntax

/-! ## Tokens that are kept -/

namespace Parser

/-- The parser `r` comes after `p`, and `ts` are tokens kept of those that were passed between them:
all of them if no diagnostic was added. -/
structure Keeps (p r : Parser) (ts : List Token) : Prop where
  isPrefix : p.diagnostics.toList <+: r.diagnostics.toList
  passed : ∃ us, p.tokens = us ++ r.tokens ∧ ts.Sublist us ∧ (r.diagnostics = p.diagnostics → ts = us)

/-- None of the tokens left is the end marker. -/
def Genuine (p : Parser) : Prop := ∀ t ∈ p.tokens, t.kind ≠ .endOfInput

/-- The tokens `ts` are kept from the current one on: the first of them, or what comes next if there is
none, is the current token. -/
structure Takes (p r : Parser) (ts : List Token) : Prop extends p.Keeps r ts where
  current_eq : p.current = ts.head?.getD r.current

variable {p q r : Parser} {ts us : List Token}

lemma Genuine.advance (h : p.Genuine) : p.advance.Genuine := fun t ht =>
  h t (List.mem_of_mem_tail (p.tokens_advance ▸ ht))

lemma Keeps.genuine (h : p.Keeps r ts) (hp : p.Genuine) : r.Genuine := by
  obtain ⟨us, hus, -⟩ := h.passed
  exact fun t ht => hp t (hus ▸ List.mem_append_right us ht)

/-- The end marker is the current token only where no token is left. -/
lemma Genuine.lexemes_eq_nil (hp : p.Genuine) (h : p.current.kind = .endOfInput) :
    p.lexemes = [] := by
  cases hl : p.lexemes with
  | nil => rfl
  | cons l ls =>
    have htokens : p.tokens = l.token :: ls.map Lexeme.token := by rw [tokens, hl, List.map_cons]
    have hcurrent := current_eq_of_tokens htokens
    exact absurd (hcurrent ▸ h) (hp l.token (htokens ▸ List.mem_cons_self))

lemma Keeps.append (h : p.Keeps q ts) (h' : q.Keeps r us) : p.Keeps r (ts ++ us) where
  isPrefix := h.isPrefix.trans h'.isPrefix
  passed := by
    obtain ⟨vs, hvs, hkept, hall⟩ := h.passed
    obtain ⟨ws, hws, hkept', hall'⟩ := h'.passed
    refine ⟨vs ++ ws, by rw [hvs, hws, List.append_assoc], hkept.append hkept', fun hd => ?_⟩
    have hq : q.diagnostics = p.diagnostics := by
      have hqr := h'.isPrefix
      rw [hd] at hqr
      exact Array.toList_inj.1 (hqr.eq_of_length_le h.isPrefix.length_le)
    rw [hall hq, hall' (hd.trans hq.symm)]

/-- Around a diagnostic that was recorded nothing need be kept. -/
lemma Keeps.drop {d : Diagnostic} (h : p.Trail q) (h' : (q.record d).Trail r) : p.Keeps r [] where
  isPrefix := ((h.record d).trans h').diagnostics_isPrefix
  passed := by
    obtain ⟨ls, hls⟩ := ((h.record d).trans h').lexemes_isSuffix
    refine ⟨ls.map Lexeme.token, ?_, List.nil_sublist _, fun heq => ?_⟩
    · rw [tokens, ← hls, List.map_append]
      rfl
    · have hle := h.diagnostics_isPrefix.length_le
      have hle' := h'.diagnostics_isPrefix.length_le
      simp only [heq, record, Array.toList_push, List.length_append, List.length_cons,
        List.length_nil] at hle hle'
      omega

namespace Takes

lemma refl (p : Parser) : p.Takes p [] where
  isPrefix := List.prefix_refl _
  passed := ⟨[], rfl, List.Sublist.slnil, fun _ => rfl⟩
  current_eq := rfl

/-- The current token is kept. -/
lemma step (h : p.current.kind ≠ .endOfInput) : p.Takes p.advance [p.current] where
  isPrefix := (Trail.refl.advance).diagnostics_isPrefix
  passed := ⟨[p.current], p.tokens_eq_cons h, List.Sublist.refl _, fun _ => rfl⟩
  current_eq := rfl

lemma cons (h : p.current.kind ≠ .endOfInput) (hrest : p.advance.Keeps r ts) :
    p.Takes r (p.current :: ts) where
  toKeeps := (step h).toKeeps.append hrest
  current_eq := rfl

/-- The lookahead is kept. -/
lemma next (h : p.lookahead.kind ≠ .endOfInput) (hrest : p.advance.advance.Keeps r ts) :
    p.advance.Takes r (p.lookahead :: ts) := by
  rw [← current_advance] at h ⊢
  exact cons h hrest

/-- The lookahead alone is kept. -/
lemma step_next (h : p.lookahead.kind ≠ .endOfInput) :
    p.advance.Takes p.advance.advance [p.lookahead] :=
  next h (refl _).toKeeps

lemma append (h : p.Takes q ts) (h' : q.Takes r us) : p.Takes r (ts ++ us) where
  toKeeps := h.toKeeps.append h'.toKeeps
  current_eq := by
    rw [h.current_eq]
    cases ts with
    | nil => exact h'.current_eq
    | cons t ts => rfl

lemma kind_current (h : p.Takes r ts) : p.current.kind = firstKind ts r.current.kind := by
  rw [h.current_eq]
  cases ts <;> rfl

/-- What comes next in front of tokens that are kept. -/
lemma kind_lookahead (h : p.advance.Takes r.advance ts) :
    p.lookahead.kind = firstKind ts r.lookahead.kind := by
  rw [← p.current_advance, ← r.current_advance, h.kind_current]

end Takes

end Parser

namespace Rule

open Grammar

/-- Tokens that are kept from the current one of `p` to the current one of `q` are read as a phrase, in
front of the lookahead of `q` and within so many levels of nesting. -/
def Found (levels : Nat) (phrase : Phrase) (p q : Parser) : Prop :=
  ∃ n ts, n ≤ levels ∧ p.Takes q.advance ts ∧ Reads n phrase ts q.lookahead.kind

/-- What `sub` parses well is a reading within so many levels. -/
def FindsExpressions (levels : Nat) (sub : Subparser) : Prop :=
  ∀ ⦃power : Power⦄ ⦃p : Parser⦄ ⦃e : Expr⦄ ⦃q : Parser⦄, p.Genuine →
    sub power p = .ok e q → Found levels (.expression power e) p q

variable {levels : Nat} {sub : Subparser} {power : Power} {p q r : Parser}
  {l e : Expr} {es : List Expr} {ids : List Identifier} {b : Block} {alt : Option Block} {s : Stmt}
  {body : List Stmt} {close : TokenKind}

/-! ## Statements -/

/-- The tokens that insisting on the end of a statement takes. -/
lemma ending_expectEnd {u : Unit} (h : expectEnd p = .ok u q) :
    ∃ us, p.advance.Takes q.advance us ∧ Ending q.lookahead.kind us := by
  rw [expectEnd_apply] at h
  split at h
  · rename_i hsemi
    have hs : p.lookahead.kind = .semicolon := by simpa [Parser.lookaheadIs] using hsemi
    cases h
    exact ⟨[p.lookahead], .step_next (by simp [hs]), .semicolon hs⟩
  · split at h
    · rename_i hcloser
      cases h
      refine ⟨[], .refl _, ?_⟩
      simp only [Token.isOneOf, closers, List.contains_eq_mem, List.mem_cons, List.not_mem_nil,
        or_false, decide_eq_true_eq] at hcloser
      rcases hcloser with hk | hk
      · exact .brace hk
      · exact .source hk
    · cases h

lemma found_letStatement (hsub : FindsExpressions levels sub) (hp : p.Genuine)
    (hk : p.current.kind = .letWord) (h : letStatement sub p = .ok s q) : Found levels (.statement s) p q := by
  rw [letStatement, get_bind] at h
  obtain ⟨hx, h⟩ := identifier_bind_eq_ok_iff.1 h
  obtain ⟨ho, h⟩ := expect_bind_eq_ok_iff.1 h
  rw [advance_bind] at h
  obtain ⟨e, p', he, h⟩ := bind_eq_ok_iff.1 h
  obtain ⟨u, q', hend, h⟩ := bind_eq_ok_iff.1 h
  obtain ⟨rfl, rfl⟩ := pure_eq_ok_iff.1 h
  obtain ⟨n, ts, hn, htakes, hreads⟩ := hsub hp.advance.advance.advance he
  obtain ⟨us, hus, hend⟩ := ending_expectEnd hend
  rw [hus.kind_lookahead] at hreads
  have hvalue := Parser.Takes.next (p := p.advance) (by simp [ho]) (htakes.append hus).toKeeps
  have hname := Parser.Takes.next (p := p) (by simp [hx]) hvalue.toKeeps
  exact ⟨n, _, hn, .cons (by simp [hk]) hname.toKeeps, .letBinding hk hx ho hreads hend⟩

lemma found_returnStatement (hsub : FindsExpressions levels sub) (hp : p.Genuine)
    (hk : p.current.kind = .returnWord) (h : returnStatement sub p = .ok s q) :
    Found levels (.statement s) p q := by
  rw [returnStatement, get_bind] at h
  obtain ⟨value, p', hvalue, h⟩ := bind_eq_ok_iff.1 h
  obtain ⟨u, q', hend, h⟩ := bind_eq_ok_iff.1 h
  obtain ⟨rfl, rfl⟩ := pure_eq_ok_iff.1 h
  obtain ⟨us, hus, hstop⟩ := ending_expectEnd hend
  rw [returnValue, get_bind] at hvalue
  split at hvalue
  · obtain ⟨rfl, rfl⟩ := pure_eq_ok_iff.1 hvalue
    exact ⟨0, _, Nat.zero_le _, .cons (by simp [hk]) hus.toKeeps, .returnNothing hk hstop⟩
  · rw [advance_bind] at hvalue
    obtain ⟨e, he, rfl⟩ := map_eq_ok_iff.1 hvalue
    obtain ⟨n, ts, hn, htakes, hreads⟩ := hsub hp.advance he
    rw [hus.kind_lookahead] at hreads
    exact ⟨n, _, hn, .cons (by simp [hk]) (htakes.append hus).toKeeps, .returnValue hk hreads hstop⟩

lemma found_expressionStatement (hsub : FindsExpressions levels sub) (hp : p.Genuine)
    (h : expressionStatement sub p = .ok s q) : Found levels (.statement s) p q := by
  rw [expressionStatement, get_bind] at h
  obtain ⟨e, p', he, h⟩ := bind_eq_ok_iff.1 h
  obtain ⟨n, ts, hn, htakes, hreads⟩ := hsub hp he
  obtain ⟨t, ts', rfl, ht⟩ := hreads.startsWith
  obtain rfl : p.current = t := htakes.current_eq
  rw [get_bind] at h
  split at h
  · rename_i hsemi
    have hc : p'.lookahead.kind = .semicolon := by simpa [Parser.lookaheadIs] using hsemi
    obtain ⟨rfl, rfl⟩ := pure_eq_ok_iff.1 h
    rw [hc] at hreads
    have hlast := Parser.Takes.step_next (p := p') (by simp [hc])
    exact ⟨n, p.current :: (ts' ++ [p'.lookahead]), hn, htakes.append hlast,
      .closedExpression hreads hc⟩
  · rename_i hsemi
    obtain ⟨rfl, rfl⟩ := pure_eq_ok_iff.1 h
    have hnext : p'.lookahead.kind ≠ .semicolon := by simpa [Parser.lookaheadIs] using hsemi
    exact ⟨n, p.current :: ts', hn, htakes, .openExpression hreads hnext⟩

lemma found_statement (hsub : FindsExpressions levels sub) (hp : p.Genuine)
    (h : statement sub p = .ok s q) : Found levels (.statement s) p q := by
  rw [statement, get_bind] at h
  by_cases hl : p.current.kind = .letWord
  · rw [hl] at h
    exact found_letStatement hsub hp hl h
  · by_cases hr : p.current.kind = .returnWord
    · rw [hr] at h
      exact found_returnStatement hsub hp hr h
    · have hnone : statement? sub p.current.kind = none := by
        generalize p.current.kind = kind at hl hr
        cases kind <;> first | rfl | contradiction
      rw [hnone] at h
      exact found_expressionStatement hsub hp h

variable [∀ power, Moves (sub power)]

/-! ## Lists behind commas -/

omit [∀ power, Moves (sub power)] in
lemma found_identifiersTail (h : identifiersTail p = .ok ids q) :
    Found 0 (.namesTail ids) p.advance q := by
  induction hlen : p.lexemes.length using Nat.strong_induction_on generalizing p ids with
  | h n ih =>
    subst hlen
    rw [identifiersTail_eq, tailRound, get_bind] at h
    split at h
    · rename_i hcomma
      have hc : p.lookahead.kind = .comma := by simpa [Parser.lookaheadIs] using hcomma
      rw [advance_bind, identifier_bind_eq_ok_iff] at h
      obtain ⟨hx, h⟩ := h
      obtain ⟨ids', q', hids, hpure⟩ := bind_eq_ok_iff.1 h
      obtain ⟨rfl, rfl⟩ := pure_eq_ok_iff.1 hpure
      have hlt₁ := p.length_advance_lt (by simp [hc])
      have hlt₂ := p.advance.length_advance_lt (by simp [hx])
      obtain ⟨m, ts, hm, htakes, hreads⟩ := ih _ (hlt₂.trans hlt₁) hids rfl
      obtain rfl : m = 0 := by omega
      have hname := Parser.Takes.next (p := p.advance) (by simp [hx]) htakes.toKeeps
      exact ⟨0, _, le_rfl, .next (by simp [hc]) hname.toKeeps, .namesTail hc hx hreads⟩
    · obtain ⟨rfl, rfl⟩ := pure_eq_ok_iff.1 h
      exact ⟨0, [], le_rfl, .refl _, .namesEnd⟩

omit [∀ power, Moves (sub power)] in
lemma found_parameters (h : parameters p = .ok ids q) :
    ∃ ts c, p.advance.Takes q.advance (ts ++ [c]) ∧ c.kind = .rightParen ∧
      Reads 0 (.names ids) ts .rightParen := by
  rw [parameters, get_bind] at h
  split at h
  · rename_i hclose
    have hc : p.lookahead.kind = .rightParen := by simpa [Parser.lookaheadIs] using hclose
    obtain ⟨rfl, rfl⟩ := pure_eq_ok_iff.1 h
    exact ⟨[], p.lookahead, .step_next (by simp [hc]), hc, .noName⟩
  · obtain ⟨hx, h⟩ := identifier_bind_eq_ok_iff.1 h
    rw [get_bind] at h
    obtain ⟨ids', q', hids, h⟩ := bind_eq_ok_iff.1 h
    obtain ⟨hc, h⟩ := expect_bind_eq_ok_iff.1 h
    obtain ⟨rfl, rfl⟩ := pure_eq_ok_iff.1 h
    obtain ⟨m, ts, hm, htakes, hreads⟩ := found_identifiersTail (p := p.advance) (q := q') hids
    obtain rfl : m = 0 := by omega
    rw [hc] at hreads
    refine ⟨p.lookahead :: ts, q'.lookahead, ?_, hc, .names hx hreads⟩
    have hclose := Parser.Takes.step_next (p := q') (by simp [hc])
    exact .next (by simp [hx]) (htakes.append hclose).toKeeps

lemma found_itemsTail (hsub : FindsExpressions levels sub) (hp : p.advance.Genuine)
    (h : itemsTail sub p = .ok es q) : Found levels (.itemsTail es) p.advance q := by
  induction hlen : p.lexemes.length using Nat.strong_induction_on generalizing p es with
  | h n ih =>
    subst hlen
    rw [itemsTail_eq, tailRound, get_bind] at h
    split at h
    · rename_i hcomma
      have hc : p.lookahead.kind = .comma := by simpa [Parser.lookaheadIs] using hcomma
      rw [advance_bind] at h
      obtain ⟨e, p', hitem, h⟩ := bind_eq_ok_iff.1 h
      obtain ⟨es', q', hes, hpure⟩ := bind_eq_ok_iff.1 h
      obtain ⟨rfl, rfl⟩ := pure_eq_ok_iff.1 hpure
      have hlt : p'.lexemes.length < p.lexemes.length :=
        ((Moves.ok _ hitem).length_le).trans_lt (p.length_advance_lt (by simp [hc]))
      rw [item, advance_bind] at hitem
      obtain ⟨n, ts, hn, htakes, hreads⟩ := hsub hp.advance hitem
      obtain ⟨m, us, hm, htakes', hreads'⟩ := ih _ hlt (htakes.genuine hp.advance) hes rfl
      rw [htakes'.kind_lookahead] at hreads
      exact ⟨max n m, _, max_le hn hm, .next (by simp [hc]) (htakes.append htakes').toKeeps,
        .itemsTail hc hreads hreads'⟩
    · obtain ⟨rfl, rfl⟩ := pure_eq_ok_iff.1 h
      exact ⟨0, [], Nat.zero_le _, .refl _, .itemsEnd⟩

lemma found_items (hsub : FindsExpressions levels sub) (hp : p.Genuine)
    (hclose : close ≠ .endOfInput) (h : items sub close p = .ok es q) :
    ∃ n ts c, n ≤ levels ∧ p.advance.Takes q.advance (ts ++ [c]) ∧ c.kind = close ∧
      Reads n (.items es) ts close := by
  rw [items, get_bind, advance_bind] at h
  split at h
  · rename_i hempty
    have hc : p.lookahead.kind = close := by simpa [Parser.lookaheadIs] using hempty
    obtain ⟨rfl, rfl⟩ := pure_eq_ok_iff.1 h
    exact ⟨0, [], p.lookahead, Nat.zero_le _, .step_next (by rwa [hc]), hc,
      .noItem⟩
  · obtain ⟨e, p', hitem, h⟩ := bind_eq_ok_iff.1 h
    rw [get_bind] at h
    obtain ⟨es', q', hes, h⟩ := bind_eq_ok_iff.1 h
    obtain ⟨hc, h⟩ := expect_bind_eq_ok_iff.1 h
    obtain ⟨rfl, rfl⟩ := pure_eq_ok_iff.1 h
    obtain ⟨n, ts, hn, htakes, hreads⟩ := hsub hp.advance hitem
    obtain ⟨m, us, hm, htakes', hreads'⟩ :=
      found_itemsTail (p := p') (q := q') hsub (htakes.genuine hp.advance) hes
    rw [htakes'.kind_lookahead, hc] at hreads
    rw [hc] at hreads'
    have hlast := Parser.Takes.step_next (p := q') (by rwa [hc])
    exact ⟨max n m, ts ++ us, q'.lookahead, max_le hn hm, (htakes.append htakes').append hlast, hc,
      .items hreads hreads'⟩

/-! ## Lists of statements and blocks -/

/-- How what is kept of a list of statements begins: with the current token, or not at all, or behind a
semicolon that was dropped. -/
def Resumes (p r : Parser) (ts : List Token) : Prop :=
  p.current = ts.head?.getD r.current ∨ ts = [] ∨ ∃ c : Token, c.kind = .semicolon ∧ p.Keeps r (c :: ts)

omit [∀ power, Moves (sub power)] in
/-- A list of statements ends in front of a closing brace or of the end. -/
lemma kind_of_atListEnd {inBlock : Bool} (h : atListEnd inBlock q = true) :
    q.current.kind ∈ [TokenKind.rightBrace, .endOfInput] := by
  simp only [atListEnd, Parser.currentIs, Bool.or_eq_true, Bool.and_eq_true, beq_iff_eq] at h
  rcases h with h | ⟨-, h⟩ <;> simp [h]

omit [∀ power, Moves (sub power)] in
/-- A statement in front of a list: the two are read one behind the other, if need be with a semicolon
between them that was dropped. -/
lemma keeps_cons {n m : Nat} {ts us : List Token} (hs : p.Takes q.advance ts)
    (hreads : Reads n (.statement s) ts q.lookahead.kind) (hrest : q.advance.Keeps r us)
    (hresumes : Resumes q.advance r us) (hr : r.current.kind ∈ [TokenKind.rightBrace, .endOfInput])
    (hbody : Reads m (.statements body) us r.current.kind) :
    ∃ vs, p.Keeps r vs ∧ Resumes p r vs ∧
      Reads (max n m) (.statements (s :: body)) vs r.current.kind := by
  obtain ⟨t, ts', rfl, -⟩ := hreads.startsWith
  -- it begins with the first token of the statement, however it goes on
  have hfirst : ∀ vs, Resumes p r (t :: ts' ++ vs) := fun vs => .inl hs.current_eq
  rcases hresumes with hcurrent | rfl | ⟨c, hc, hclosed⟩
  · have hk : q.lookahead.kind = firstKind us r.current.kind :=
      q.current_advance ▸ Parser.Takes.kind_current ⟨hrest, hcurrent⟩
    exact ⟨_, hs.toKeeps.append hrest, hfirst us, .statements (hk ▸ hreads) hbody⟩
  · exact ⟨_, hs.toKeeps.append hrest, hfirst [], .statements (hreads.statement_of_closer hr) hbody⟩
  · rcases hreads.statement_close hc (firstKind us r.current.kind) with h | h
    · exact ⟨_, hs.toKeeps.append hrest, hfirst us, .statements h hbody⟩
    · refine ⟨t :: ts' ++ [c] ++ us, ?_, ?_, .statements h hbody⟩
      · rw [List.append_assoc]
        exact hs.toKeeps.append hclosed
      · rw [List.append_assoc]
        exact hfirst _

omit [∀ power, Moves (sub power)] in
/-- Skipping stops on a semicolon, or the list is over with the next token. -/
lemma semicolon_or_atListEnd {inBlock : Bool} (hp : p.Genuine) (h : p.atBoundary inBlock = true) :
    p.current.kind = .semicolon ∨ atListEnd inBlock p.advance = true := by
  simp only [Parser.atBoundary, Bool.or_eq_true, Bool.and_eq_true, Parser.lookaheadIs, beq_iff_eq,
    Token.isOneOf, List.contains_eq_mem, List.mem_cons, List.not_mem_nil, or_false,
    decide_eq_true_eq] at h
  rcases h with ((hsemi | hend) | hend) | ⟨hblock, hbrace⟩
  · exact .inl hsemi
  · refine .inr (atListEnd_of_lexemes_eq_nil ?_ inBlock)
    rw [Parser.lexemes_advance, hp.lexemes_eq_nil hend, List.tail_nil]
  · exact .inr (by simp [atListEnd, Parser.currentIs, hend])
  · exact .inr (by simp [atListEnd, Parser.currentIs, hblock, hbrace])

/-- Every list of statements is read from the tokens that are kept of it. -/
theorem keeps_statementList (hsub : FindsExpressions levels sub) (hp : p.Genuine) {inBlock : Bool}
    (h : statementList sub inBlock p = (body, q)) :
    ∃ n ts, n ≤ levels ∧ p.Keeps q ts ∧ Resumes p q ts ∧
      Reads n (.statements body) ts q.current.kind := by
  induction hlen : p.lexemes.length using Nat.strong_induction_on generalizing p body with
  | h n ih =>
    subst hlen
    have hstop : atListEnd inBlock q = true := by
      have := atListEnd_statementList sub inBlock p
      rwa [h] at this
    rw [statementList_eq] at h
    split at h
    · obtain ⟨rfl, rfl⟩ := Prod.mk.inj h
      exact ⟨0, [], Nat.zero_le _, (Parser.Takes.refl p).toKeeps, .inl rfl, .noStatement⟩
    · rename_i hend
      have hlt : ∀ q, p.Trail q → q.advance.lexemes.length < p.lexemes.length := fun _ =>
        length_advance_lt_of_not_atListEnd hend
      cases hs : statement sub p with
      | ok s p' =>
        rw [hs] at h
        obtain ⟨rfl, rfl⟩ := Prod.mk.inj h
        obtain ⟨m, ts, hm, htakes, hreads⟩ := found_statement hsub hp hs
        obtain ⟨k, us, hk, hkeeps, hresumes, hreads'⟩ :=
          ih _ (hlt p' (Moves.ok _ hs)) (htakes.genuine hp) rfl rfl
        obtain ⟨vs, hvs⟩ := keeps_cons htakes hreads hkeeps hresumes (kind_of_atListEnd hstop) hreads'
        exact ⟨max m k, vs, max_le hm hk, hvs⟩
      | error d p' =>
        rw [hs] at h
        have hdrop : ∀ r, (p'.record d).Trail r → p.Keeps r [] := fun r hr =>
          .drop (Moves.error _ hs) hr
        simp only at h
        split at h
        · obtain ⟨rfl, rfl⟩ := Prod.mk.inj h
          exact ⟨0, [], Nat.zero_le _, hdrop _ .refl, .inr (.inl rfl), .noStatement⟩
        · have hskip := Parser.Trail.refl.synchronize (p := p'.record d) inBlock
          have hskipped := hdrop _ hskip
          have hgenuine := hskipped.genuine hp
          obtain ⟨k, ts, hk, hkeeps, -, hreads⟩ :=
            ih _ (hlt _ (((Moves.error _ hs).record d).trans hskip)) hgenuine.advance h rfl
          refine ⟨k, ts, hk, (hdrop _ hskip.advance).append hkeeps, ?_, hreads⟩
          rcases semicolon_or_atListEnd hgenuine ((p'.record d).atBoundary_synchronize inBlock) with
            hsemi | hover
          · have hclosed := Parser.Takes.cons (by simp [hsemi]) hkeeps
            exact .inr (.inr ⟨_, hsemi, hskipped.append hclosed.toKeeps⟩)
          · rw [statementList_eq, if_pos hover] at h
            obtain ⟨rfl, -⟩ := Prod.mk.inj h
            cases hreads
            exact .inr (.inl rfl)

lemma found_block (hsub : FindsExpressions levels sub) (hp : p.Genuine)
    (hk : p.current.kind = .leftBrace) (h : block sub p = .ok b q) :
    Found levels (.block b) p q := by
  rw [block_eq] at h
  generalize hlist : statementList sub true p.advance = list at h
  obtain ⟨body, q'⟩ := list
  split at h
  · cases h
  · rename_i hopen
    cases h
    obtain ⟨n, ts, hn, hkeeps, -, hreads⟩ := keeps_statementList hsub hp.advance hlist
    have hc : q'.current.kind = .rightBrace := by
      have hstop := kind_of_atListEnd (atListEnd_statementList sub true p.advance)
      rw [hlist] at hstop
      simp only [Parser.currentIs, beq_iff_eq] at hopen
      simpa [hopen] using hstop
    rw [hc] at hreads
    have hclose := hkeeps.append (Parser.Takes.step (by simp [hc])).toKeeps
    exact ⟨n, _, hn, .cons (by simp [hk]) hclose, .block hk hreads hc⟩

/-! ## Operands -/

omit [∀ power, Moves (sub power)] in
lemma found_literal (h : literal p = .ok e q) : Found levels (.operand e) p q := by
  rw [literal, get_bind] at h
  cases he : Expr.ofToken p.current with
  | error fault => rw [he] at h; cases h
  | ok e' =>
    rw [he] at h
    obtain ⟨rfl, rfl⟩ := pure_eq_ok_iff.1 h
    have hk := kind_mem_of_ofToken_eq_ok he
    have hne : p.current.kind ≠ .endOfInput := by
      intro hend
      rw [hend] at hk
      exact absurd hk (by decide)
    exact ⟨0, [p.current], Nat.zero_le _, .step hne, .literal he⟩

omit [∀ power, Moves (sub power)] in
lemma found_prefixed (hsub : FindsExpressions levels sub) (hp : p.Genuine)
    (hk : p.current.kind = .bang ∨ p.current.kind = .minus) (h : prefixed sub p = .ok e q) :
    Found levels (.operand e) p q := by
  rw [prefixed, get_bind, advance_bind] at h
  obtain ⟨right, p', hright, h⟩ := bind_eq_ok_iff.1 h
  obtain ⟨rfl, rfl⟩ := pure_eq_ok_iff.1 h
  obtain ⟨n, ts, hn, htakes, hreads⟩ := hsub hp.advance hright
  exact ⟨n, _, hn, .cons (by rcases hk with hk | hk <;> simp [hk]) htakes.toKeeps,
    .prefixed hk hreads⟩

omit [∀ power, Moves (sub power)] in
lemma found_group (hsub : FindsExpressions levels sub) (hp : p.Genuine)
    (hk : p.current.kind = .leftParen) (h : group sub p = .ok e q) :
    Found levels (.operand e) p q := by
  rw [group, advance_bind] at h
  obtain ⟨inner, p', hinner, h⟩ := bind_eq_ok_iff.1 h
  obtain ⟨hc, h⟩ := expect_bind_eq_ok_iff.1 h
  obtain ⟨rfl, rfl⟩ := pure_eq_ok_iff.1 h
  obtain ⟨n, ts, hn, htakes, hreads⟩ := hsub hp.advance hinner
  rw [hc] at hreads
  have hclose := Parser.Takes.step_next (p := p') (by simp [hc])
  exact ⟨n, _, hn, .cons (by simp [hk]) (htakes.append hclose).toKeeps, .group hk hreads hc⟩

lemma found_alternative (hsub : FindsExpressions levels sub) (hp : p.advance.Genuine)
    (h : alternative sub p = .ok alt q) : Found levels (.alternative alt) p.advance q := by
  rw [alternative, get_bind] at h
  split at h
  · rename_i helse
    have ht : p.lookahead.kind = .elseWord := by simpa [Parser.lookaheadIs] using helse
    rw [advance_bind] at h
    obtain ⟨ho, h⟩ := expect_bind_eq_ok_iff.1 h
    obtain ⟨b, hb, rfl⟩ := map_eq_ok_iff.1 h
    obtain ⟨n, ts, hn, htakes, hreads⟩ :=
      found_block hsub hp.advance (by rwa [Parser.current_advance]) hb
    exact ⟨n, _, hn, .next (by simp [ht]) htakes.toKeeps, .alternative ht hreads⟩
  · rename_i helse
    obtain ⟨rfl, rfl⟩ := pure_eq_ok_iff.1 h
    have hnext : p.lookahead.kind ≠ .elseWord := by simpa [Parser.lookaheadIs] using helse
    exact ⟨0, [], Nat.zero_le _, .refl _, .noAlternative hnext⟩

lemma found_conditional (hsub : FindsExpressions levels sub) (hp : p.Genuine)
    (hk : p.current.kind = .ifWord) (h : conditional sub p = .ok e q) :
    Found levels (.operand e) p q := by
  rw [conditional, get_bind] at h
  obtain ⟨ho, h⟩ := expect_bind_eq_ok_iff.1 h
  rw [advance_bind] at h
  obtain ⟨condition, p₁, hcondition, h⟩ := bind_eq_ok_iff.1 h
  obtain ⟨hc, h⟩ := expect_bind_eq_ok_iff.1 h
  obtain ⟨hbrace, h⟩ := expect_bind_eq_ok_iff.1 h
  obtain ⟨consequence, p₂, hconsequence, h⟩ := bind_eq_ok_iff.1 h
  obtain ⟨alt, p₃, halt, h⟩ := bind_eq_ok_iff.1 h
  obtain ⟨rfl, rfl⟩ := pure_eq_ok_iff.1 h
  obtain ⟨n, ts, hn, htakes, hreads⟩ := hsub hp.advance.advance hcondition
  have hp₁ := htakes.genuine hp.advance.advance
  obtain ⟨m, us, hm, htakes', hreads'⟩ :=
    found_block hsub hp₁.advance (by rwa [Parser.current_advance]) hconsequence
  obtain ⟨k, vs, hk', htakes'', hreads''⟩ :=
    found_alternative hsub (htakes'.genuine hp₁.advance) halt
  rw [hc] at hreads
  rw [htakes''.kind_lookahead] at hreads'
  have hbody := Parser.Takes.next (by simp [hc]) (htakes'.append htakes'').toKeeps
  have hopen := Parser.Takes.next (by simp [ho]) (htakes.append hbody).toKeeps
  exact ⟨_, _, max_le hn (max_le hm hk'), .cons (by simp [hk]) hopen.toKeeps,
    .conditional hk ho hreads hc hreads' hreads''⟩

lemma found_function (hsub : FindsExpressions levels sub) (hp : p.Genuine)
    (hk : p.current.kind = .fnWord) (h : function sub p = .ok e q) :
    Found levels (.operand e) p q := by
  rw [function, get_bind] at h
  obtain ⟨ho, h⟩ := expect_bind_eq_ok_iff.1 h
  obtain ⟨ids, p₁, hids, h⟩ := bind_eq_ok_iff.1 h
  obtain ⟨hbrace, h⟩ := expect_bind_eq_ok_iff.1 h
  obtain ⟨body, p₂, hbody, h⟩ := bind_eq_ok_iff.1 h
  obtain ⟨rfl, rfl⟩ := pure_eq_ok_iff.1 h
  obtain ⟨ts, c, htakes, hc, hreads⟩ := found_parameters hids
  obtain ⟨m, us, hm, htakes', hreads'⟩ :=
    found_block hsub (htakes.genuine hp.advance.advance) (by rwa [Parser.current_advance]) hbody
  have hopen := Parser.Takes.next (by simp [ho]) (htakes.append htakes').toKeeps
  rw [List.append_assoc] at hopen
  exact ⟨m, _, hm, .cons (by simp [hk]) hopen.toKeeps, .function hk ho hreads hc hreads'⟩

lemma found_array (hsub : FindsExpressions levels sub) (hp : p.Genuine)
    (hk : p.current.kind = .leftBracket) (h : array sub p = .ok e q) :
    Found levels (.operand e) p q := by
  rw [array, get_bind] at h
  obtain ⟨es, p', hes, h⟩ := bind_eq_ok_iff.1 h
  obtain ⟨rfl, rfl⟩ := pure_eq_ok_iff.1 h
  obtain ⟨n, ts, c, hn, htakes, hc, hreads⟩ := found_items hsub hp (by decide) hes
  exact ⟨n, _, hn, .cons (by simp [hk]) htakes.toKeeps, .array hk hreads hc⟩

lemma found_operand (hsub : FindsExpressions levels sub) (hp : p.Genuine) {rule : ParseM Expr}
    (hrule : operand? sub p.current.kind = some rule) (h : rule p = .ok e q) :
    Found levels (.operand e) p q := by
  rcases operand?_eq_some sub hrule with ⟨-, rfl⟩ | ⟨hk, rfl⟩ | ⟨hk, rfl⟩ | ⟨hk, rfl⟩ | ⟨hk, rfl⟩ |
    ⟨hk, rfl⟩
  · exact found_literal h
  · exact found_prefixed hsub hp hk h
  · exact found_group hsub hp hk h
  · exact found_conditional hsub hp hk h
  · exact found_function hsub hp hk h
  · exact found_array hsub hp hk h

/-! ## Operators -/

/-- The lookahead is the operator `o` with left operand `l`, and its rule ends at `q` with `e`: the
tokens up to there, whatever follows, extend the operand that they stand behind. -/
lemma found_operator (hsub : FindsExpressions levels sub) (hp : p.advance.Genuine)
    {rule : Expr → Power → ParseM Expr} (hrule : operator? sub p.lookahead.kind = some rule)
    (hpower : power < p.lookahead.kind.power) {combined : Expr}
    (h : rule l p.lookahead.kind.power p.advance = .ok combined q)
    (hrest : q.advance.Genuine → Found levels (.operators power combined e) q.advance r) :
    Found levels (.operators power l e) p.advance r := by
  have hcur : p.advance.current = p.lookahead := p.current_advance
  rcases operator?_eq_some sub hrule with ⟨hk, rfl⟩ | ⟨hk, rfl⟩ | ⟨hk, rfl⟩
  · have hne : p.lookahead.kind ≠ .endOfInput := by
      intro hend
      rw [hend] at hk
      exact absurd hk (by decide)
    rw [infixed, get_bind, advance_bind] at h
    obtain ⟨right, p', hright, h⟩ := bind_eq_ok_iff.1 h
    obtain ⟨rfl, rfl⟩ := pure_eq_ok_iff.1 h
    obtain ⟨n, ts, hn, htakes, hreads⟩ := hsub hp.advance hright
    obtain ⟨m, us, hm, htakes', hreads'⟩ := hrest (htakes.genuine hp.advance)
    rw [htakes'.kind_lookahead] at hreads
    rw [hcur] at hreads'
    exact ⟨_, _, max_le hn hm, .next hne (htakes.append htakes').toKeeps,
      .infixed hpower hk hreads hreads'⟩
  · dsimp only at h
    rw [call, get_bind] at h
    obtain ⟨es, p', hes, h⟩ := bind_eq_ok_iff.1 h
    obtain ⟨rfl, rfl⟩ := pure_eq_ok_iff.1 h
    obtain ⟨n, ts, c, hn, htakes, hc, hreads⟩ := found_items hsub hp (by decide) hes
    obtain ⟨m, us, hm, htakes', hreads'⟩ := hrest (htakes.genuine hp.advance)
    rw [hcur] at hreads'
    rw [hk] at hpower
    have hargs := htakes.append htakes'
    rw [List.append_assoc] at hargs
    exact ⟨_, _, max_le hn hm, .next (by simp [hk]) hargs.toKeeps, .call hpower hk hreads hc hreads'⟩
  · dsimp only at h
    rw [index, get_bind, advance_bind] at h
    obtain ⟨place, p', hplace, h⟩ := bind_eq_ok_iff.1 h
    obtain ⟨hc, h⟩ := expect_bind_eq_ok_iff.1 h
    obtain ⟨rfl, rfl⟩ := pure_eq_ok_iff.1 h
    obtain ⟨n, ts, hn, htakes, hreads⟩ := hsub hp.advance hplace
    obtain ⟨m, us, hm, htakes', hreads'⟩ := hrest (htakes.genuine hp.advance).advance
    rw [hc] at hreads
    rw [hcur] at hreads'
    rw [hk] at hpower
    have hclose := Parser.Takes.next (by simp [hc]) htakes'.toKeeps
    exact ⟨_, _, max_le hn hm, .next (by simp [hk]) (htakes.append hclose).toKeeps,
      .index hpower hk hreads hc hreads'⟩

lemma found_operatorChain (hsub : FindsExpressions levels sub) (hp : p.advance.Genuine)
    (h : operatorChain sub power l p = .ok e q) :
    Found levels (.operators power l e) p.advance q := by
  induction hlen : p.lexemes.length using Nat.strong_induction_on generalizing p l with
  | h n ih =>
    subst hlen
    rw [operatorChain_eq] at h
    by_cases hpower : power < p.lookahead.kind.power
    · have hlow : Power.lowest < p.lookahead.kind.power := by
        rw [Power.lt_iff_rank] at hpower ⊢
        exact (Nat.zero_le _).trans_lt hpower
      obtain ⟨rule, hrule⟩ := Option.isSome_iff_exists.1 ((isSome_operator?_iff sub _).2 hlow)
      rw [operatorRound, if_pos hpower, hrule] at h
      obtain ⟨combined, p', hcombined, h⟩ := bind_eq_ok_iff.1 h
      have hlt := length_lt_of_operator hrule hcombined
      exact found_operator hsub hp hrule hpower hcombined fun hp' => ih _ hlt hp' h rfl
    · rw [operatorRound, if_neg hpower] at h
      cases h
      exact ⟨0, [], Nat.zero_le _, .refl _, .operatorsEnd hpower⟩

lemma found_chain (hsub : FindsExpressions levels sub) (hp : p.Genuine)
    (h : chain sub power p = .ok e q) : Found (levels + 1) (.expression power e) p q := by
  rw [chain_eq] at h
  cases hrule : operand? sub p.current.kind with
  | none => rw [hrule] at h; cases h
  | some rule =>
    rw [hrule] at h
    obtain ⟨l, p', hl, h⟩ := bind_eq_ok_iff.1 h
    obtain ⟨n, ts, hn, htakes, hreads⟩ := found_operand hsub hp hrule hl
    obtain ⟨m, us, hm, htakes', hreads'⟩ := found_operatorChain hsub (htakes.genuine hp) h
    rw [htakes'.kind_lookahead] at hreads
    exact ⟨_, _, Nat.succ_le_succ (max_le hn hm), htakes.append htakes',
      .expression hreads hreads'⟩

omit [∀ power, Moves (sub power)] in
/-- A parse of an expression that ends well has found a reading of it. -/
theorem found_expressionAt (levels : Nat) : FindsExpressions levels (expressionAt levels) := by
  induction levels with
  | zero =>
    intro power p e q _ h
    rw [expressionAt_zero] at h
    cases h
  | succ levels ih =>
    intro power p e q hp h
    obtain ⟨q', hq, rfl⟩ := nested_eq_ok h
    -- the level of nesting is no part of what is taken
    obtain ⟨n, ts, hn, htakes, hreads⟩ := found_chain (p := { p with depth := p.depth + 1 }) ih hp hq
    exact ⟨n, ts, hn, ⟨⟨htakes.isPrefix, htakes.passed⟩, htakes.current_eq⟩, hreads⟩

end Rule

end ScriptSyntax
