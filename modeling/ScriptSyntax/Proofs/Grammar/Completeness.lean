import ScriptSyntax.Proofs.Grammar.Reading
import ScriptSyntax.Proofs.Parser.Outcome

/-!
# What can be read is parsed

The parser finds every reading.  If the tokens before it are read as a phrase, then the rule for the
phrase delivers it: it ends on the last of these tokens with the phrase as its value, or, if there
are fewer levels of nesting left than the reading takes, it runs out of them before anything else is
found wrong.

The proof goes by induction on the reading.  `Phrase.Parsed` says what the rule for each sort of
phrase does, and there is one lemma for each way to read a phrase.

## Main statements

* `Grammar.Reads.parsed`: every reading is found by the parser.
-/

namespace ScriptSyntax

namespace Grammar

open Rule

/-- The rule for a phrase that is read from the tokens `ts`, in front of a token of kind `next` and
with `levels` levels of nesting, delivers it.  Rules start on the first token of their phrase, or for
a phrase that may be empty on the token before it.  A list of statements goes on behind the ones that
are read, wherever that leads. -/
def Phrase.Parsed (levels : Nat) (ts : List Token) (next : TokenKind) : Phrase → Prop
  | .expression power e => ∀ (left : Nat) (p : Parser), p.depth + left ≤ maxNesting →
      p.Faces ts next → Delivers (levels ≤ left) p (ts.length - 1) e (expressionAt left power p)
  | .operand e => ∀ (left : Nat) (p : Parser), p.depth + left ≤ maxNesting → p.Faces ts next →
      ∃ rule, operand? (expressionAt left) p.current.kind = some rule ∧
        Delivers (levels ≤ left) p (ts.length - 1) e (rule p)
  | .operators power l e => ∀ (left : Nat) (p : Parser), p.depth + left ≤ maxNesting →
      p.advance.Faces ts next →
      Delivers (levels ≤ left) p ts.length e (operatorChain (expressionAt left) power l p)
  | .items es => ∀ (left : Nat) (p : Parser), p.depth + left ≤ maxNesting →
      p.advance.Faces ts next → next = .rightParen ∨ next = .rightBracket →
      Delivers (levels ≤ left) p (ts.length + 1) es (Rule.items (expressionAt left) next p)
  | .itemsTail es => ∀ (left : Nat) (p : Parser), p.depth + left ≤ maxNesting →
      p.advance.Faces ts next → next ≠ .comma →
      Delivers (levels ≤ left) p ts.length es (Rule.itemsTail (expressionAt left) p)
  | .names ids => ∀ p : Parser, p.advance.Faces ts next → next = .rightParen →
      parameters p = .ok ids (p.ahead (ts.length + 1))
  | .namesTail ids => ∀ p : Parser, p.advance.Faces ts next → next ≠ .comma →
      identifiersTail p = .ok ids (p.ahead ts.length)
  | .alternative alt => ∀ (left : Nat) (p : Parser), p.depth + left ≤ maxNesting →
      p.advance.Faces ts next →
      Delivers (levels ≤ left) p ts.length alt (Rule.alternative (expressionAt left) p)
  | .block b => ∀ (left : Nat) (p : Parser), p.depth + left ≤ maxNesting → p.Faces ts next →
      Delivers (levels ≤ left) p (ts.length - 1) b (Rule.block (expressionAt left) p)
  | .statement s => ∀ (left : Nat) (p : Parser), p.depth + left ≤ maxNesting → p.Faces ts next →
      Delivers (levels ≤ left) p (ts.length - 1) s (Rule.statement (expressionAt left) p)
  | .statements body => ∀ (left : Nat) (p : Parser) (inBlock : Bool),
      p.depth + left ≤ maxNesting → p.Faces ts next →
      (levels ≤ left → statementList (expressionAt left) inBlock p =
        (body ++ (statementList (expressionAt left) inBlock (p.ahead ts.length)).1,
          (statementList (expressionAt left) inBlock (p.ahead ts.length)).2)) ∧
      (¬levels ≤ left →
        Exhausts p (statementList (expressionAt left) inBlock p).2.diagnostics.toList)

variable {n m k : Nat} {power : Power} {t x o c : Token} {l r e : Expr} {es : List Expr}
  {ids : List Identifier} {b : Block} {alt : Option Block} {s : Stmt} {body : List Stmt}
  {ts us vs : List Token} {next : TokenKind}

namespace Phrase.Parsed

/-! ## Operands -/

lemma expression (hts : 0 < ts.length) (hl : (Phrase.operand l).Parsed n ts (firstKind us next))
    (he : (Phrase.operators power l e).Parsed m us next) :
    (Phrase.expression power e).Parsed (max n m + 1) (ts ++ us) next := by
  intro left p hp h
  cases left with
  | zero =>
    exact ⟨fun hfits => absurd hfits (by omega), fun _ => ⟨0, [], rfl⟩⟩
  | succ left =>
    have hdepth : p.depth < maxNesting := by omega
    refine Delivers.nested (x := chain (expressionAt left) power) hdepth ?_
    have hp' : p.depth + 1 + left ≤ maxNesting := by omega
    obtain ⟨rule, hrule, hdel⟩ := hl left { p with depth := p.depth + 1 } hp' h.left
    rw [chain_eq, hrule]
    have := moves_operand _ hrule
    refine (hdel.bind (he left _ (by simpa using hp') ?_)).congr (by omega) ?_
    · exact Parser.Faces.last (p := { p with depth := p.depth + 1 }) h hts
    · rw [List.length_append]
      omega

lemma literal (h : Expr.ofToken t = .ok e) : (Phrase.operand e).Parsed 0 [t] next := by
  intro left p _ hp
  have ht := kind_mem_of_ofToken_eq_ok h
  refine ⟨Rule.literal, ?_, (Delivers.of_eq ?_).congr (by simp) rfl⟩
  · rw [hp.current_eq]
    simp only [List.mem_cons, List.not_mem_nil, or_false] at ht
    rcases ht with ht | ht | ht | ht | ht <;> rw [ht] <;> rfl
  · rw [Rule.literal, get_bind, hp.current_eq, h]
    rfl

lemma prefixed (ho : o.kind = .bang ∨ o.kind = .minus) (hts : 0 < ts.length)
    (hr : (Phrase.expression .unary r).Parsed n ts next) :
    (Phrase.operand (.prefixOp o o.text r)).Parsed n (o :: ts) next := by
  intro left p hp h
  refine ⟨Rule.prefixed (expressionAt left), ?_, ?_⟩
  · rw [h.current_eq]
    rcases ho with ho | ho <;> rw [ho] <;> rfl
  · rw [Rule.prefixed, get_bind, advance_bind, h.current_eq]
    have hsub := hr left p.advance hp h.advance
    refine ((hsub.bind (Delivers.of_eq (k := 0) ?_)).of_advance).congr (by simp) ?_
    · rfl
    · simp only [List.length_cons]
      omega

lemma group (ho : o.kind = .leftParen) (hts : 0 < ts.length) (hc : c.kind = .rightParen)
    (he : (Phrase.expression .lowest e).Parsed n ts .rightParen) :
    (Phrase.operand e).Parsed n (o :: (ts ++ [c])) next := by
  intro left p hp h
  refine ⟨Rule.group (expressionAt left), by rw [h.current_eq, ho]; rfl, ?_⟩
  have h' := h.advance
  have hin : p.advance.Faces ts .rightParen := by simpa [hc] using h'.left
  rw [Rule.group, advance_bind]
  refine (((he left p.advance hp hin).bind (Delivers.of_eq (k := 1) ?_)).of_advance).congr
    (by simp) ?_
  · rw [expect_bind (by rw [(h'.last hts).kind_lookahead]; exact hc)]
    rfl
  · simp only [List.length_cons, List.length_append, List.length_nil]
    omega

lemma array (ho : o.kind = .leftBracket) (hc : c.kind = .rightBracket)
    (hes : (Phrase.items es).Parsed n ts .rightBracket) :
    (Phrase.operand (.array o es)).Parsed n (o :: (ts ++ [c])) next := by
  intro left p hp h
  refine ⟨Rule.array (expressionAt left), by rw [h.current_eq, ho]; rfl, ?_⟩
  have hin : p.advance.Faces ts .rightBracket := by simpa [hc] using h.advance.left
  rw [Rule.array, get_bind, h.current_eq]
  have hitems := hes left p hp hin (.inr rfl)
  refine (hitems.bind (f := fun es => pure (Expr.array o es)) (Delivers.of_eq (k := 0) rfl)).congr
    (by simp) ?_
  simp

lemma conditional (ht : t.kind = .ifWord) (ho : o.kind = .leftParen) (hc : c.kind = .rightParen)
    (hts : 0 < ts.length) (hus : 0 < us.length) (hbrace : firstKind us (firstKind vs next) = .leftBrace)
    (he : (Phrase.expression .lowest e).Parsed n ts .rightParen)
    (hb : (Phrase.block b).Parsed m us (firstKind vs next))
    (halt : (Phrase.alternative alt).Parsed k vs next) :
    (Phrase.operand (.conditional t e b alt)).Parsed (max n (max m k))
      (t :: o :: (ts ++ c :: (us ++ vs))) next := by
  intro left p hp h
  refine ⟨Rule.conditional (expressionAt left), by rw [h.current_eq, ht]; rfl, ?_⟩
  have h₁ := h.advance
  have h₂ := h₁.advance
  rw [Rule.conditional, get_bind, h.current_eq,
    expect_bind (by rw [h₁.kind_lookahead, firstKind_cons, ho]), advance_bind]
  have hin : p.advance.advance.Faces ts .rightParen := by simpa [hc] using h₂.left
  have hcond := he left p.advance.advance hp hin
  -- `q` stands on the last token of the condition, `q.advance.advance` on the opening brace
  generalize hq : p.advance.advance.ahead (ts.length - 1) = q at hcond
  have hqdepth : q.depth + left ≤ maxNesting := by
    rw [← hq, Parser.depth_ahead]
    exact hp
  have h₃ : q.advance.Faces (c :: (us ++ vs)) next := hq ▸ h₂.last hts
  have h₄ := h₃.advance
  have hcons := hb left q.advance.advance hqdepth h₄.left
  have halt' := halt left (q.advance.advance.ahead (us.length - 1))
    (by rw [Parser.depth_ahead]; exact hqdepth) (h₄.last hus)
  have hrest := (hcons.bind (f := fun b => Rule.alternative (expressionAt left) >>= fun alt =>
    pure (Expr.conditional t e b alt)) (halt'.bind (Delivers.of_eq (k := 0) rfl))).of_advance.of_advance
  have hbody : Delivers (m ≤ left ∧ k ≤ left ∧ True) q (us.length - 1 + (vs.length + 0) + 1 + 1)
      (Expr.conditional t e b alt) ((expect .rightParen >>= fun _ => expect .leftBrace >>= fun _ =>
        Rule.block (expressionAt left) >>= fun b => Rule.alternative (expressionAt left) >>=
          fun alt => pure (Expr.conditional t e b alt)) q) := by
    rw [expect_bind (by rw [h₃.kind_lookahead, firstKind_cons, hc]),
      expect_bind (by rw [h₄.kind_lookahead, firstKind_append, hbrace])]
    exact hrest
  rw [← hq] at hbody
  refine ((hcond.bind hbody).of_advance.of_advance).congr (by simp) ?_
  simp only [List.length_cons, List.length_append]
  omega

lemma function (ht : t.kind = .fnWord) (ho : o.kind = .leftParen) (hc : c.kind = .rightParen)
    (hus : 0 < us.length) (hbrace : firstKind us next = .leftBrace)
    (hids : (Phrase.names ids).Parsed 0 ts .rightParen) (hb : (Phrase.block b).Parsed n us next) :
    (Phrase.operand (.function t ids b)).Parsed n (t :: o :: (ts ++ c :: us)) next := by
  intro left p hp h
  refine ⟨Rule.function (expressionAt left), by rw [h.current_eq, ht]; rfl, ?_⟩
  have h₁ := h.advance
  have h₂ := h₁.advance
  have hin : p.advance.advance.Faces ts .rightParen := by simpa [hc] using h₂.left
  have h₃ : (p.advance.ahead (ts.length + 1)).Faces (c :: us) next := h₂.right
  have h₄ := h₃.advance
  rw [Rule.function, get_bind, h.current_eq,
    expect_bind (by rw [h₁.kind_lookahead, firstKind_cons, ho]), bind_apply, hids _ hin rfl]
  simp only
  rw [expect_bind (by rw [h₄.kind_lookahead, hbrace])]
  have hblock := hb left _ (by simpa using hp) h₄
  refine ((hblock.bind (f := fun b => pure (Expr.function t ids b))
    (Delivers.of_eq (k := 0) rfl)).of_advance.of_ahead.of_advance).congr (by simp) ?_
  simp only [List.length_cons, List.length_append]
  omega

/-! ## Blocks -/

lemma block (hc : c.kind = .rightBrace) (hbody : (Phrase.statements body).Parsed n ts .rightBrace) :
    (Phrase.block (.mk o body)).Parsed n (o :: (ts ++ [c])) next := by
  intro left p hp h
  have h' := h.advance
  have hin : p.advance.Faces ts .rightBrace := by simpa [hc] using h'.left
  have hbrace : (p.advance.ahead ts.length).current.kind = .rightBrace := by
    rw [h'.right.current_eq, hc]
  have hstop : statementList (expressionAt left) true (p.advance.ahead ts.length) =
      ([], p.advance.ahead ts.length) := by
    rw [statementList_eq, if_pos (by simp [atListEnd, Parser.currentIs, hbrace])]
  obtain ⟨hfits, hexhausts⟩ := hbody left p.advance true hp hin
  have hlist : Delivers (n ≤ left) p.advance ts.length body
      (Rule.blockBody (expressionAt left) p.advance) := by
    refine ⟨fun hn => ?_, hexhausts⟩
    have hrun := hfits hn
    rw [hstop, List.append_nil] at hrun
    rw [blockBody_apply, hrun]
  rw [Rule.block, get_bind, advance_bind, h.current_eq]
  refine ((hlist.bind (Delivers.of_eq (k := 0) ?_)).of_advance).congr (by simp) ?_
  · rw [get_bind, if_neg (by simp [Parser.currentIs, hbrace])]
    rfl
  · simp

lemma noAlternative (hnext : next ≠ .elseWord) :
    (Phrase.alternative none).Parsed 0 [] next := by
  intro left p _ h
  refine (Delivers.of_eq ?_).congr (by simp) rfl
  rw [Rule.alternative, get_bind, h.lookaheadIs, firstKind_nil, if_neg (by simpa using hnext)]
  rfl

lemma alternative (ht : t.kind = .elseWord) (hts : firstKind ts next = .leftBrace)
    (hlen : 0 < ts.length) (hb : (Phrase.block b).Parsed n ts next) :
    (Phrase.alternative (some b)).Parsed n (t :: ts) next := by
  intro left p hp h
  have h' : p.advance.advance.Faces ts next := h.advance
  rw [Rule.alternative, get_bind, h.lookaheadIs, firstKind_cons, if_pos (by simp [ht]),
    advance_bind, expect_bind (by rw [h'.kind_lookahead, hts])]
  refine (((hb left p.advance.advance hp h').map some).of_advance.of_advance).congr Iff.rfl ?_
  simp only [List.length_cons]
  omega

/-! ## Operators -/

lemma operatorsEnd (h : ¬power < next.power) : (Phrase.operators power e e).Parsed 0 [] next := by
  intro left p _ hp
  refine (Delivers.of_eq ?_).congr (by simp) rfl
  rw [operatorChain_eq, operatorRound, hp.kind_lookahead, firstKind_nil, if_neg h]
  rfl

/-- An operator takes what is read behind it, and the chain goes on with what the two make. -/
lemma operation (rule : Subparser → Expr → Power → ParseM Expr) (hpower : power < o.kind.power)
    (hrule : ∀ sub, operator? sub o.kind = some (rule sub))
    (hr : ∀ (left : Nat) (p : Parser), p.depth + left ≤ maxNesting →
      p.Faces (o :: (ts ++ us)) next →
      Delivers (n ≤ left) p ts.length r (rule (expressionAt left) l o.kind.power p))
    (he : (Phrase.operators power r e).Parsed m us next) :
    (Phrase.operators power l e).Parsed (max n m) (o :: (ts ++ us)) next := by
  intro left p hp h
  rw [operatorChain_eq, operatorRound, h.kind_lookahead, firstKind_cons, if_pos hpower, hrule]
  have hus : (p.advance.ahead ts.length).advance.Faces us next := by
    rw [Parser.advance_ahead]
    exact h.advance.right
  have hchain := he left _ (by simpa using hp) hus
  refine (((hr left p.advance hp h).bind hchain).of_advance).congr (by simp) ?_
  simp

lemma infixed (ho : o.kind ∈ binaryOperators) (hpower : power < o.kind.power) (hts : 0 < ts.length)
    (hr : (Phrase.expression o.kind.power r).Parsed n ts (firstKind us next))
    (he : (Phrase.operators power (.infixOp o o.text l r) e).Parsed m us next) :
    (Phrase.operators power l e).Parsed (max n m) (o :: (ts ++ us)) next := by
  refine operation Rule.infixed hpower (fun sub => ?_) (fun left p hp h => ?_) he
  · simp only [binaryOperators, List.mem_cons, List.not_mem_nil, or_false] at ho
    rcases ho with ho | ho | ho | ho | ho | ho | ho | ho <;> rw [ho] <;> rfl
  · rw [Rule.infixed, get_bind, advance_bind, h.current_eq]
    have hsub := hr left p.advance hp h.advance.left
    refine ((hsub.bind (f := fun r => pure (Expr.infixOp o o.text l r))
      (Delivers.of_eq (k := 0) rfl)).of_advance).congr (by simp) ?_
    omega

lemma call (ho : o.kind = .leftParen) (hc : c.kind = .rightParen) (hpower : power < .call)
    (hes : (Phrase.items es).Parsed n ts .rightParen)
    (he : (Phrase.operators power (.call o l es) e).Parsed m us next) :
    (Phrase.operators power l e).Parsed (max n m) (o :: (ts ++ c :: us)) next := by
  rw [List.append_cons]
  refine operation (fun sub l _ => Rule.call sub l) (by rw [ho]; exact hpower)
    (fun sub => by rw [ho]; rfl) (fun left p hp h => ?_) he
  have hin : p.advance.Faces ts .rightParen := by
    have := h.advance.left.left
    simpa [hc] using this
  rw [Rule.call, get_bind, h.current_eq]
  refine ((hes left p hp hin (.inl rfl)).bind (f := fun es => pure (Expr.call o l es))
    (Delivers.of_eq (k := 0) rfl)).congr (by simp) ?_
  simp

lemma index (ho : o.kind = .leftBracket) (hc : c.kind = .rightBracket) (hpower : power < .index)
    (hts : 0 < ts.length) (hr : (Phrase.expression .lowest r).Parsed n ts .rightBracket)
    (he : (Phrase.operators power (.index o l r) e).Parsed m us next) :
    (Phrase.operators power l e).Parsed (max n m) (o :: (ts ++ c :: us)) next := by
  rw [List.append_cons]
  refine operation (fun sub l _ => Rule.index sub l) (by rw [ho]; exact hpower)
    (fun sub => by rw [ho]; rfl) (fun left p hp h => ?_) he
  have h' : p.advance.Faces (ts ++ [c]) (firstKind us next) := h.advance.left
  have hin : p.advance.Faces ts .rightBracket := by simpa [hc] using h'.left
  rw [Rule.index, get_bind, advance_bind, h.current_eq]
  refine (((hr left p.advance hp hin).bind (Delivers.of_eq (k := 1) ?_)).of_advance).congr
    (by simp) ?_
  · rw [expect_bind (by rw [(h'.last hts).kind_lookahead]; exact hc)]
    rfl
  · simp only [List.length_append, List.length_cons, List.length_nil]
    omega

/-! ## Lists -/

lemma noItem : (Phrase.items []).Parsed 0 [] next := by
  intro left p _ h _
  refine (Delivers.of_eq ?_).congr (by simp) rfl
  rw [Rule.items, get_bind, advance_bind, h.lookaheadIs, firstKind_nil, if_pos (by simp)]
  rfl

lemma items (hts : 0 < ts.length) (hfirst : firstKind ts (firstKind us next) ∈ operandKinds)
    (he : (Phrase.expression .lowest e).Parsed n ts (firstKind us next))
    (hes : (Phrase.itemsTail es).Parsed m us next) :
    (Phrase.items (e :: es)).Parsed (max n m) (ts ++ us) next := by
  intro left p hp h hnext
  have hfull : ¬(p.lookaheadIs next = true) := by
    rw [h.lookaheadIs, firstKind_append, beq_iff_eq]
    rintro hk
    rw [hk] at hfirst
    rcases hnext with rfl | rfl <;> simp [operandKinds] at hfirst
  have hcomma : next ≠ .comma := by rcases hnext with rfl | rfl <;> decide
  rw [Rule.items, get_bind, advance_bind, if_neg hfull]
  have hfirstItem := he left p.advance hp h.left
  generalize hq : p.advance.ahead (ts.length - 1) = q at hfirstItem
  have h₁ : q.advance.Faces us next := hq ▸ h.last hts
  have htail := hes left q (by rw [← hq, Parser.depth_ahead]; exact hp) h₁ hcomma
  have h₂ : (q.ahead us.length).advance.Faces [] next := by
    rw [Parser.advance_ahead]
    exact h₁.past
  have hrest : Delivers (m ≤ left ∧ True) q (us.length + 1) (e :: es)
      ((Rule.itemsTail (expressionAt left) >>= fun es => expect next >>= fun _ =>
        pure (e :: es)) q) := by
    refine htail.bind (Delivers.of_eq (k := 1) ?_)
    rw [expect_bind (by rw [h₂.kind_lookahead, firstKind_nil])]
    rfl
  rw [← hq] at hrest
  refine ((hfirstItem.bind hrest).of_advance).congr (by simp) ?_
  rw [List.length_append]
  omega

lemma itemsEnd : (Phrase.itemsTail []).Parsed 0 [] next := by
  intro left p _ h hnext
  refine (Delivers.of_eq ?_).congr (by simp) rfl
  rw [itemsTail_eq, tailRound, get_bind, h.lookaheadIs, firstKind_nil, if_neg (by simpa using hnext)]
  rfl

lemma itemsTail (hc : c.kind = .comma) (hts : 0 < ts.length)
    (he : (Phrase.expression .lowest e).Parsed n ts (firstKind us next))
    (hes : (Phrase.itemsTail es).Parsed m us next) :
    (Phrase.itemsTail (e :: es)).Parsed (max n m) (c :: (ts ++ us)) next := by
  intro left p hp h hnext
  rw [itemsTail_eq, tailRound, get_bind, h.lookaheadIs, firstKind_cons, if_pos (by simp [hc]),
    advance_bind]
  have h' := h.advance
  have hitem : Delivers (n ≤ left) p.advance ts.length e
      (Rule.item (expressionAt left) p.advance) := by
    rw [Rule.item, advance_bind]
    refine ((he left p.advance.advance hp h'.left).of_advance).congr Iff.rfl ?_
    omega
  have hus : (p.advance.ahead ts.length).advance.Faces us next := by
    rw [Parser.advance_ahead]
    exact h'.right
  have htail := hes left _ (by simpa using hp) hus hnext
  refine ((hitem.bind (htail.bind (f := fun es => pure (e :: es))
    (Delivers.of_eq (k := 0) rfl))).of_advance).congr (by simp) ?_
  simp

lemma noName : (Phrase.names []).Parsed 0 [] next := by
  intro p h hnext
  rw [parameters, get_bind, h.lookaheadIs, firstKind_nil, if_pos (by simp [hnext])]
  rfl

lemma names (hx : x.kind = .identifier) (hids : (Phrase.namesTail ids).Parsed 0 ts next) :
    (Phrase.names (⟨x, x.text⟩ :: ids)).Parsed 0 (x :: ts) next := by
  intro p h hnext
  have hcur : p.lookahead = x := by rw [← Parser.current_advance, h.current_eq]
  rw [parameters, get_bind, h.lookaheadIs, firstKind_cons, if_neg (by simp [hx]),
    identifier_bind (by rw [hcur, hx]), get_bind]
  have htail : moreIdentifiers p.advance.lexemes p.advance = .ok ids (p.advance.ahead ts.length) :=
    hids p.advance h.advance (by simp [hnext])
  have hend : (p.advance.ahead ts.length).advance.Faces [] next := by
    rw [Parser.advance_ahead]
    exact h.advance.past
  rw [bind_apply, htail]
  simp only
  rw [expect_bind (by rw [hend.kind_lookahead, firstKind_nil, hnext]), hcur, Parser.advance_ahead]
  rfl

lemma namesEnd : (Phrase.namesTail []).Parsed 0 [] next := by
  intro p h hnext
  rw [identifiersTail_eq, tailRound, get_bind, h.lookaheadIs, firstKind_nil,
    if_neg (by simpa using hnext)]
  rfl

lemma namesTail (hc : c.kind = .comma) (hx : x.kind = .identifier)
    (hids : (Phrase.namesTail ids).Parsed 0 ts next) :
    (Phrase.namesTail (⟨x, x.text⟩ :: ids)).Parsed 0 (c :: x :: ts) next := by
  intro p h hnext
  have hcur : p.advance.lookahead = x := by rw [← Parser.current_advance, h.advance.current_eq]
  rw [identifiersTail_eq, tailRound, get_bind, h.lookaheadIs, firstKind_cons,
    if_pos (by simp [hc]), advance_bind, identifier_bind (by rw [hcur, hx]), bind_apply,
    hids _ h.advance.advance hnext, hcur]
  rfl

/-! ## Statements -/

/-- Insisting on the end of a statement moves over the semicolon, if there is one. -/
lemma expectEnd_eq_ok {p : Parser} (hend : Ending next us) (h : p.advance.Faces us next) :
    expectEnd p = .ok () (p.ahead us.length) := by
  have hk := h.kind_lookahead
  rw [expectEnd_apply, Parser.lookaheadIs]
  cases hend with
  | semicolon hs =>
    rw [if_pos (by simpa [hs] using hk)]
    rfl
  | brace hnext | source hnext =>
    rw [firstKind_nil, hnext] at hk
    rw [if_neg (by simp [hk]), if_pos (by simp [Token.isOneOf, closers, hk])]
    rfl

lemma letBinding (ht : t.kind = .letWord) (hx : x.kind = .identifier) (ho : o.kind = .assign)
    (hts : 0 < ts.length) (he : (Phrase.expression .lowest e).Parsed n ts (firstKind us next))
    (hend : Ending next us) :
    (Phrase.statement (.letBinding t ⟨x, x.text⟩ e)).Parsed n (t :: x :: o :: (ts ++ us)) next := by
  intro left p hp h
  have h₁ := h.advance
  have h₂ := h₁.advance
  have h₃ := h₂.advance
  have hcur : p.lookahead = x := by rw [← Parser.current_advance, h₁.current_eq]
  have hrule : Rule.statement (expressionAt left) p = Rule.letStatement (expressionAt left) p := by
    rw [Rule.statement, get_bind, h.current_eq, ht]
    rfl
  rw [hrule, Rule.letStatement, get_bind, identifier_bind (by rw [hcur, hx]),
    expect_bind (by rw [h₂.kind_lookahead, firstKind_cons, ho]), advance_bind, h.current_eq, hcur]
  have hsub := he left p.advance.advance.advance hp h₃.left
  refine ((hsub.bind (Delivers.of_eq (k := us.length) ?_)).of_advance.of_advance.of_advance).congr
    (by simp) ?_
  · rw [bind_apply, expectEnd_eq_ok hend (h₃.last hts)]
    rfl
  · simp only [List.length_cons, List.length_append]
    omega

lemma statement_eq_return {sub : Subparser} {p : Parser} (ht : p.current.kind = .returnWord) :
    Rule.statement sub p = Rule.returnStatement sub p := by
  rw [Rule.statement, get_bind, ht]
  rfl

lemma returnNothing (ht : t.kind = .returnWord) (hend : Ending next us) :
    (Phrase.statement (.return t none)).Parsed 0 (t :: us) next := by
  intro left p _ h
  have h₁ := h.advance
  refine (Delivers.of_eq ?_).congr (by simp) rfl
  have hstop : p.lookahead.isOneOf (.semicolon :: closers) = true := by
    rw [Token.isOneOf, h₁.kind_lookahead]
    cases hend with
    | semicolon hs => simp [hs]
    | brace hnext | source hnext => simp [hnext, closers]
  rw [statement_eq_return (by rw [h.current_eq, ht]), Rule.returnStatement, get_bind, bind_apply,
    Rule.returnValue, get_bind, if_pos hstop, pure_apply]
  simp only
  rw [bind_apply, expectEnd_eq_ok hend h₁, h.current_eq]
  rfl

lemma returnValue (ht : t.kind = .returnWord) (hts : 0 < ts.length)
    (hfirst : firstKind ts (firstKind us next) ∈ operandKinds)
    (he : (Phrase.expression .lowest e).Parsed n ts (firstKind us next)) (hend : Ending next us) :
    (Phrase.statement (.return t (some e))).Parsed n (t :: (ts ++ us)) next := by
  intro left p hp h
  have h₁ := h.advance
  have hgo : ¬(p.lookahead.isOneOf (.semicolon :: closers) = true) := by
    rw [Token.isOneOf, h₁.kind_lookahead, firstKind_append]
    generalize firstKind ts (firstKind us next) = kind at hfirst
    revert hfirst
    cases kind <;> simp [operandKinds, closers]
  have hvalue : Delivers (n ≤ left) p ts.length (some e)
      (Rule.returnValue (expressionAt left) p) := by
    rw [Rule.returnValue, get_bind, if_neg hgo, advance_bind]
    refine (((he left p.advance hp h₁.left).map some).of_advance).congr Iff.rfl ?_
    omega
  have hus : (p.ahead ts.length).advance.Faces us next := by
    rw [Parser.advance_ahead]
    exact h₁.right
  rw [statement_eq_return (by rw [h.current_eq, ht]), Rule.returnStatement, get_bind, h.current_eq]
  refine (hvalue.bind (Delivers.of_eq (k := us.length) ?_)).congr (by simp) ?_
  · rw [bind_apply, expectEnd_eq_ok hend hus]
    rfl
  · simp

lemma statement_eq_expression {sub : Subparser} {p : Parser} (hk : p.current.kind ∈ operandKinds) :
    Rule.statement sub p = Rule.expressionStatement sub p := by
  rw [Rule.statement, get_bind]
  revert hk
  cases p.current.kind <;> simp [operandKinds, Rule.statement?]

lemma closedExpression (hc : c.kind = .semicolon) (hfirst : t.kind ∈ operandKinds)
    (he : (Phrase.expression .lowest e).Parsed n (t :: ts) .semicolon) :
    (Phrase.statement (.expression t e)).Parsed n (t :: (ts ++ [c])) next := by
  intro left p hp h
  have h' : p.Faces ((t :: ts) ++ [c]) next := h
  have hin : p.Faces (t :: ts) .semicolon := by simpa [hc] using h'.left
  rw [statement_eq_expression (by rw [h.current_eq]; exact hfirst), Rule.expressionStatement,
    get_bind, h.current_eq]
  refine ((he left p hp hin).bind (Delivers.of_eq (k := 1) ?_)).congr (by simp) (by simp)
  rw [get_bind, (h'.last (by simp)).lookaheadIs, firstKind_cons, if_pos (by simp [hc])]
  rfl

lemma openExpression (hnext : next ≠ .semicolon) (hfirst : t.kind ∈ operandKinds)
    (he : (Phrase.expression .lowest e).Parsed n (t :: ts) next) :
    (Phrase.statement (.expression t e)).Parsed n (t :: ts) next := by
  intro left p hp h
  have h' : p.Faces ((t :: ts) ++ []) next := by simpa using h
  rw [statement_eq_expression (by rw [h.current_eq]; exact hfirst), Rule.expressionStatement,
    get_bind, h.current_eq]
  refine ((he left p hp h).bind (Delivers.of_eq (k := 0) ?_)).congr (by simp) (by simp)
  rw [get_bind, (h'.last (by simp)).lookaheadIs, firstKind_nil, if_neg (by simpa using hnext)]
  rfl

lemma noStatement : (Phrase.statements []).Parsed 0 [] next :=
  fun _ _ _ _ _ => ⟨fun _ => rfl, fun h => absurd (Nat.zero_le _) h⟩

lemma statements (hts : 0 < ts.length)
    (hfirst : firstKind ts (firstKind us next) ∈ statementKinds)
    (hs : (Phrase.statement s).Parsed n ts (firstKind us next))
    (hbody : (Phrase.statements body).Parsed m us next) :
    (Phrase.statements (s :: body)).Parsed (max n m) (ts ++ us) next := by
  intro left p inBlock hp h
  have hgo : atListEnd inBlock p = false := by
    rw [atListEnd, Parser.currentIs, Parser.currentIs, h.kind_current, firstKind_append]
    generalize firstKind ts (firstKind us next) = kind at hfirst
    revert hfirst
    cases kind <;> simp [statementKinds, operandKinds]
  have hstmt := hs left p hp h.left
  obtain ⟨hfits, hexhausts⟩ := hbody left (p.ahead ts.length) inBlock (by simpa using hp) h.right
  by_cases hn : n ≤ left
  · have hlist : statementList (expressionAt left) inBlock p =
        (s :: (statementList (expressionAt left) inBlock (p.ahead ts.length)).1,
          (statementList (expressionAt left) inBlock (p.ahead ts.length)).2) := by
      rw [statementList_eq, if_neg (by simp [hgo]), hstmt.eq_ok hn]
      simp only
      rw [Parser.advance_ahead, Nat.sub_add_cancel hts]
    rw [hlist]
    refine ⟨fun hmax => ?_, fun hmax => (hexhausts (by omega)).of_ahead⟩
    rw [hfits (by omega), Parser.ahead_ahead, List.length_append]
    rfl
  · refine ⟨fun hmax => absurd hmax (by omega), fun _ => ?_⟩
    exact (hstmt.exhausts hn).mono (found_isPrefix_statementList _ hgo)

end Phrase.Parsed

/-- Every reading is found by the parser. -/
theorem Reads.parsed {phrase : Phrase} (h : Reads n phrase ts next) :
    phrase.Parsed n ts next := by
  induction h with
  | expression hl _ ihl ihe => exact .expression hl.length_pos ihl ihe
  | literal h => exact .literal h
  | prefixed ho hr ih => exact .prefixed ho hr.length_pos ih
  | group ho he hc ih => exact .group ho he.length_pos hc ih
  | conditional ht ho he hc hb _ ihe ihb ihalt =>
    exact .conditional ht ho hc he.length_pos hb.length_pos (hb.firstKind_block _) ihe ihb ihalt
  | function ht ho _ hc hb ihids ihb =>
    exact .function ht ho hc hb.length_pos (hb.firstKind_block _) ihids ihb
  | array ho _ hc ih => exact .array ho hc ih
  | operatorsEnd h => exact .operatorsEnd h
  | infixed hpower ho hr _ ihr ihe => exact .infixed ho hpower hr.length_pos ihr ihe
  | call hpower ho _ hc _ ihes ihe => exact .call ho hc hpower ihes ihe
  | index hpower ho hr hc _ ihr ihe => exact .index ho hc hpower hr.length_pos ihr ihe
  | noItem => exact .noItem
  | items he _ ihe ihes => exact .items he.length_pos (he.firstKind_expression _) ihe ihes
  | itemsEnd => exact .itemsEnd
  | itemsTail hc he _ ihe ihes => exact .itemsTail hc he.length_pos ihe ihes
  | noName => exact .noName
  | names hx _ ih => exact .names hx ih
  | namesEnd => exact .namesEnd
  | namesTail hc hx _ ih => exact .namesTail hc hx ih
  | noAlternative hnext => exact .noAlternative hnext
  | alternative ht hb ih => exact .alternative ht (hb.firstKind_block _) hb.length_pos ih
  | block _ _ hc ih => exact .block hc ih
  | noStatement => exact .noStatement
  | statements hs _ ihs ihbody => exact .statements hs.length_pos (hs.firstKind_statement _) ihs ihbody
  | letBinding ht hx ho he hend ih => exact .letBinding ht hx ho he.length_pos ih hend
  | returnNothing ht hend => exact .returnNothing ht hend
  | returnValue ht he hend ih =>
    exact .returnValue ht he.length_pos (he.firstKind_expression _) ih hend
  | closedExpression he hc ih => exact .closedExpression hc (he.firstKind_expression next) ih
  | openExpression he hnext ih => exact .openExpression hnext (he.firstKind_expression next) ih

end Grammar

end ScriptSyntax
