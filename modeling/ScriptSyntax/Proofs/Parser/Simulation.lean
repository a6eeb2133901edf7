import ScriptSyntax.Proofs.Parser.Outcome
import ScriptSyntax.Proofs.Tree.Relocate

/-!
# Two parses side by side

A rule looks at the kinds and texts of the tokens in its window and at the nesting, and at nothing
else.  So two parses that see the same tokens, possibly at other places, do the same thing, and keep
doing it for as long as their windows agree.

A `Simulation` says when that is.  Two parsers are `Near` each other if they agree on the current token,
and `Far` from where they part if they agree on the lookahead as well.  They part behind a token of
kind `stop`, a semicolon or a closing brace.  No rule for an expression gets past such a token: where
it stands on one it has failed for want of an operand or of levels, and that is all that it can still
say there.

## Main statements

* `Simulation.follows_expressionAt`: expressions are parsed alike, up to places.
* `Simulation.matches_statement`: so are statements.
-/

namespace ScriptSyntax

/-- When two parses go side by side. -/
structure Simulation where
  /-- Where the places of the first parse are in the second. -/
  place : Position → Position
  /-- The kind of the token behind which the parses may part. -/
  stop : TokenKind
  stop_eq : stop = .semicolon ∨ stop = .rightBrace
  /-- The parsers agree on the current token. -/
  Near : Parser → Parser → Prop
  /-- The parsers agree on the current token and on the lookahead. -/
  Far : Parser → Parser → Prop
  near_of_far {p p' : Parser} : Far p p' → Near p p'
  far_of_near {p p' : Parser} : Near p p' → p.current.kind ≠ stop → Far p p'
  current_eq {p p' : Parser} : Near p p' → p'.current = p.current.relocate place
  lookahead_eq {p p' : Parser} : Far p p' → p'.lookahead = p.lookahead.relocate place
  depth_eq {p p' : Parser} : Near p p' → p'.depth = p.depth
  advance {p p' : Parser} : Far p p' → Near p.advance p'.advance
  near_depth {p p' : Parser} (depth : Nat) :
    Near p p' → Near { p with depth := depth } { p' with depth := depth }
  far_depth {p p' : Parser} (depth : Nat) :
    Far p p' → Far { p with depth := depth } { p' with depth := depth }

namespace Simulation

open Rule

variable (S : Simulation) {p p' q q' : Parser}

/-! ## Windows that agree -/

lemma kind_current (h : S.Near p p') : p'.current.kind = p.current.kind := by
  rw [S.current_eq h, Token.kind_relocate]

lemma kind_lookahead (h : S.Far p p') : p'.lookahead.kind = p.lookahead.kind := by
  rw [S.lookahead_eq h, Token.kind_relocate]

lemma lookaheadIs (h : S.Far p p') (kind : TokenKind) :
    p'.lookaheadIs kind = p.lookaheadIs kind := by
  rw [Parser.lookaheadIs, Parser.lookaheadIs, S.kind_lookahead h]

/-- Parsers that stand on a token of another kind than `stop` have not come to where they part. -/
lemma far_of_kind {kind : TokenKind} (h : S.Near p p') (hk : p.current.kind = kind)
    (hs : kind ≠ .semicolon) (hb : kind ≠ .rightBrace) : S.Far p p' := by
  refine S.far_of_near h ?_
  rintro hstop
  rcases S.stop_eq with heq | heq
  · exact hs (by rw [← hk, hstop, heq])
  · exact hb (by rw [← hk, hstop, heq])

lemma far_of_mem {kinds : List TokenKind} (h : S.Near p p') (hk : p.current.kind ∈ kinds)
    (hs : .semicolon ∉ kinds) (hb : .rightBrace ∉ kinds) : S.Far p p' := by
  refine S.far_of_kind h rfl ?_ ?_
  · rintro heq
    exact hs (heq ▸ hk)
  · rintro heq
    exact hb (heq ▸ hk)

/-! ## Outcomes that agree -/

/-- What a rule can say where it fails.  It names a lack of levels at the current token only, and
where the parses may have parted already it says nothing but that or that no operand starts there. -/
def Faulty (d : Diagnostic) (p p' : Parser) : Prop :=
  S.Near p p' ∧ (d = p.tooDeep ∨ d = p.notAnOperand) ∨
    S.Far p p' ∧ (∀ limit, d.fault ≠ .nestingTooDeep limit) ∧
      (d.position = p.position ∨ d.position = p.lookahead.position)

/-- The outcomes agree: values agree by `move` and end at parsers related by `post`, and faults are
the same up to places. -/
inductive Matches {α : Type} (move : α → α) (post : Parser → Parser → Prop) :
    EStateM.Result Diagnostic Parser α → EStateM.Result Diagnostic Parser α → Prop where
  | ok {a : α} {q q' : Parser} : post q q' → Matches move post (.ok a q) (.ok (move a) q')
  | error {d : Diagnostic} {q q' : Parser} : S.Faulty d q q' →
      Matches move post (.error d q) (.error (d.relocate S.place) q')

variable {S} {α β : Type} {move : α → α} {move' : β → β} {mid post : Parser → Parser → Prop}

/-- Sequences of parses that agree step by step agree. -/
theorem Matches.bind_of_ok {x x' : ParseM α} {f f' : α → ParseM β}
    (hx : S.Matches move mid (x p) (x' p'))
    (hf : ∀ a q q', x p = .ok a q → mid q q' →
      S.Matches move' post (f a q) (f' (move a) q')) :
    S.Matches move' post ((x >>= f) p) ((x' >>= f') p') := by
  rw [bind_apply, bind_apply]
  generalize x p = r, x' p' = r' at hx hf
  cases hx with
  | ok h => exact hf _ _ _ rfl h
  | error h => exact .error h

lemma Matches.bind {x x' : ParseM α} {f f' : α → ParseM β}
    (hx : S.Matches move mid (x p) (x' p'))
    (hf : ∀ a q q', mid q q' → S.Matches move' post (f a q) (f' (move a) q')) :
    S.Matches move' post ((x >>= f) p) ((x' >>= f') p') :=
  hx.bind_of_ok fun a q q' _ => hf a q q'

lemma Matches.map {x x' : ParseM α} {g : α → β} (hx : S.Matches move post (x p) (x' p'))
    (hg : ∀ a, g (move a) = move' (g a)) :
    S.Matches move' post ((g <$> x) p) ((g <$> x') p') := by
  rw [map_apply, map_apply]
  generalize x p = r, x' p' = r' at hx
  cases hx with
  | ok h =>
    simp only [hg]
    exact .ok h
  | error h => exact .error h

/-- A value that is made here, from parts that agree. -/
lemma matches_pure {a a' : α} (h : post p p') (ha : a' = move a) :
    S.Matches move post ((pure a : ParseM α) p) ((pure a' : ParseM α) p') := by
  subst ha
  exact .ok h

variable (S)

lemma faulty_unexpected (h : S.Far p p') (kind : TokenKind) : S.Faulty (p.unexpected kind) p p' :=
  .inr ⟨h, fun _ hfault => (by cases hfault), .inr rfl⟩

lemma unexpected_eq (h : S.Far p p') (kind : TokenKind) :
    p'.unexpected kind = (p.unexpected kind).relocate S.place := by
  rw [Parser.unexpected, Parser.unexpected, S.lookahead_eq h]
  rfl

lemma tooDeep_eq (h : S.Near p p') : p'.tooDeep = p.tooDeep.relocate S.place := by
  rw [Parser.tooDeep, Parser.tooDeep, Parser.position, Parser.position, S.current_eq h]
  rfl

lemma notAnOperand_eq (h : S.Near p p') : p'.notAnOperand = p.notAnOperand.relocate S.place := by
  rw [Parser.notAnOperand, Parser.notAnOperand, Parser.position, Parser.position, S.current_eq h]
  rfl

/-! ## Steps -/

/-- Insisting on a token other than those behind which parses part. -/
lemma matches_expect (h : S.Far p p') {kind : TokenKind} (hs : kind ≠ .semicolon)
    (hb : kind ≠ .rightBrace) :
    S.Matches id (fun q q' => S.Far q q' ∧ q.current.kind = kind) (expect kind p) (expect kind p') := by
  rw [expect_apply, expect_apply, S.lookaheadIs h]
  split
  · rename_i hk
    have hcur : p.advance.current.kind = kind := by
      rw [Parser.current_advance]
      simpa [Parser.lookaheadIs] using hk
    exact .ok ⟨S.far_of_kind (S.advance h) hcur hs hb, hcur⟩
  · rw [S.unexpected_eq h]
    exact .error (S.faulty_unexpected h kind)

/-- How two parses stand behind a statement: far from where they part, or on the semicolon. -/
def Ended (p p' : Parser) : Prop :=
  S.Far p p' ∨ S.Near p p' ∧ p.current.kind = .semicolon

lemma matches_expectEnd (h : S.Far p p') :
    S.Matches id S.Ended (expectEnd p) (expectEnd p') := by
  have hone : p'.lookahead.isOneOf closers = p.lookahead.isOneOf closers := by
    rw [Token.isOneOf, Token.isOneOf, S.kind_lookahead h]
  rw [expectEnd_apply, expectEnd_apply, S.lookaheadIs h, hone]
  split
  · rename_i hk
    refine .ok (.inr ⟨S.advance h, ?_⟩)
    rw [Parser.current_advance]
    simpa [Parser.lookaheadIs] using hk
  · split
    · exact .ok (.inl h)
    · rw [S.unexpected_eq h]
      exact .error (S.faulty_unexpected h _)

lemma matches_identifier (h : S.Far p p') :
    S.Matches (Identifier.relocate S.place) S.Far (identifier p) (identifier p') := by
  rw [identifier]
  refine (S.matches_expect h (by decide) (by decide)).bind fun _ q q' hq => ?_
  rw [get_bind, get_bind]
  refine matches_pure hq.1 ?_
  rw [S.current_eq (S.near_of_far hq.1)]
  rfl

/-! ## Expressions inside -/

/-- The expressions that `sub` parses are parsed alike. -/
def Follows (sub : Subparser) : Prop :=
  ∀ (power : Power) ⦃p p' : Parser⦄, S.Near p p' →
    S.Matches (Expr.relocate S.place) S.Far (sub power p) (sub power p')

/-- The blocks that are parsed with `sub` are parsed alike. -/
def FollowsBlocks (sub : Subparser) : Prop :=
  ∀ ⦃p p' : Parser⦄, S.Far p p' → p.current.kind = .leftBrace →
    S.Matches (Block.relocate S.place) S.Far (block sub p) (block sub p')

variable {S} {sub : Subparser}

/-! ## Lists behind commas -/

lemma matches_identifiersTail (h : S.Far p p') :
    S.Matches (List.map (Identifier.relocate S.place)) S.Far (identifiersTail p)
      (identifiersTail p') := by
  induction hlen : p.lexemes.length using Nat.strong_induction_on generalizing p p' with
  | h n ih =>
    subst hlen
    rw [identifiersTail_eq, identifiersTail_eq, tailRound, get_bind, get_bind, S.lookaheadIs h]
    split
    · rename_i hcomma
      have hc : p.lookahead.kind = .comma := by simpa [Parser.lookaheadIs] using hcomma
      have hlt : p.advance.lexemes.length < p.lexemes.length := p.length_advance_lt (by simp [hc])
      have hadv : S.Far p.advance p'.advance :=
        S.far_of_kind (S.advance h) (by rw [Parser.current_advance, hc]) (by decide) (by decide)
      rw [advance_bind, advance_bind]
      refine (S.matches_identifier hadv).bind_of_ok fun id q q' hq hfar => ?_
      have hlen := ((Moves.ok _ hq).length_le).trans_lt hlt
      exact (ih _ hlen hfar rfl).bind fun ids r r' hr => matches_pure hr rfl
    · exact matches_pure h rfl

lemma matches_parameters (h : S.Far p p') :
    S.Matches (List.map (Identifier.relocate S.place)) S.Far (parameters p) (parameters p') := by
  rw [parameters, get_bind, get_bind, S.lookaheadIs h]
  split
  · rename_i hclose
    have hc : p.lookahead.kind = .rightParen := by simpa [Parser.lookaheadIs] using hclose
    rw [advance_bind, advance_bind]
    exact matches_pure
      (S.far_of_kind (S.advance h) (by rw [Parser.current_advance, hc]) (by decide) (by decide)) rfl
  · refine (S.matches_identifier h).bind fun id q q' hq => ?_
    rw [get_bind, get_bind]
    have htail : S.Matches (List.map (Identifier.relocate S.place)) S.Far
        (moreIdentifiers q.lexemes q) (moreIdentifiers q'.lexemes q') := matches_identifiersTail hq
    refine htail.bind fun ids r r' hr => ?_
    exact (S.matches_expect hr (by decide) (by decide)).bind fun _ t t' ht =>
      matches_pure ht.1 rfl

lemma matches_item (hsub : S.Follows sub) (h : S.Far p p') :
    S.Matches (Expr.relocate S.place) S.Far (item sub p) (item sub p') := by
  rw [item, advance_bind, advance_bind]
  exact hsub .lowest (S.advance h)

lemma matches_itemsTail [∀ power, Moves (sub power)] (hsub : S.Follows sub) (h : S.Far p p') :
    S.Matches (List.map (Expr.relocate S.place)) S.Far (itemsTail sub p) (itemsTail sub p') := by
  induction hlen : p.lexemes.length using Nat.strong_induction_on generalizing p p' with
  | h n ih =>
    subst hlen
    rw [itemsTail_eq, itemsTail_eq, tailRound, get_bind, get_bind, S.lookaheadIs h]
    split
    · rename_i hcomma
      have hc : p.lookahead.kind = .comma := by simpa [Parser.lookaheadIs] using hcomma
      have hlt : p.advance.lexemes.length < p.lexemes.length := p.length_advance_lt (by simp [hc])
      have hadv : S.Far p.advance p'.advance :=
        S.far_of_kind (S.advance h) (by rw [Parser.current_advance, hc]) (by decide) (by decide)
      rw [advance_bind, advance_bind]
      refine (matches_item hsub hadv).bind_of_ok fun e q q' hq hfar => ?_
      have hlen := ((Moves.ok _ hq).length_le).trans_lt hlt
      exact (ih _ hlen hfar rfl).bind fun es r r' hr => matches_pure hr rfl
    · exact matches_pure h rfl

lemma matches_items [∀ power, Moves (sub power)] (hsub : S.Follows sub) {close : TokenKind}
    (hs : close ≠ .semicolon) (hb : close ≠ .rightBrace) (h : S.Far p p') :
    S.Matches (List.map (Expr.relocate S.place)) S.Far (items sub close p) (items sub close p') := by
  rw [items, get_bind, get_bind, advance_bind, advance_bind, S.lookaheadIs h]
  split
  · rename_i hempty
    have hc : p.lookahead.kind = close := by simpa [Parser.lookaheadIs] using hempty
    exact matches_pure
      (S.far_of_kind (S.advance h) (by rw [Parser.current_advance, hc]) hs hb) rfl
  · refine (hsub .lowest (S.advance h)).bind fun e q q' hq => ?_
    rw [get_bind, get_bind]
    have htail : S.Matches (List.map (Expr.relocate S.place)) S.Far (moreItems sub q.lexemes q)
        (moreItems sub q'.lexemes q') := matches_itemsTail hsub hq
    refine htail.bind fun es r r' hr => ?_
    exact (S.matches_expect hr hs hb).bind fun _ t t' ht => matches_pure ht.1 rfl

/-! ## Operands -/

lemma ofToken_relocate (f : Position → Position) (t : Token) :
    Expr.ofToken (t.relocate f) = (Expr.ofToken t).map (Expr.relocate f) := by
  unfold Expr.ofToken
  rw [Token.kind_relocate, Token.text_relocate]
  cases t.kind <;> first | rfl | skip
  dsimp only
  split <;> rfl

lemma fault_ofToken {t : Token} {fault : Fault} (h : Expr.ofToken t = .error fault) :
    (∃ text, fault = .integerRange text ∧ t.kind = .integer) ∨ fault = .noOperand t.kind := by
  unfold Expr.ofToken at h
  cases hk : t.kind <;> rw [hk] at h <;> simp only [Except.error.injEq, reduceCtorEq] at h
  case integer =>
    split at h
    · cases h
    · exact .inl ⟨t.text, (Except.error.inj h).symm, rfl⟩
  all_goals exact .inr h.symm

lemma matches_literal (h : S.Near p p')
    (hk : p.current.kind ∈ [.identifier, .integer, .string, .trueWord, .falseWord]) :
    S.Matches (Expr.relocate S.place) S.Far (literal p) (literal p') := by
  have hfar := S.far_of_mem h hk (by decide) (by decide)
  rw [literal, get_bind, get_bind, S.current_eq h, ofToken_relocate]
  cases he : Expr.ofToken p.current with
  | ok e => exact matches_pure hfar rfl
  | error fault =>
    have hd : (⟨fault, p'.position⟩ : Diagnostic) = Diagnostic.relocate S.place ⟨fault, p.position⟩ := by
      rw [Parser.position, S.current_eq h]
      rfl
    change S.Matches _ _ (.error ⟨fault, p.position⟩ p) (.error ⟨fault, p'.position⟩ p')
    rw [hd]
    refine .error ?_
    rcases fault_ofToken he with ⟨text, rfl, -⟩ | rfl
    · exact .inr ⟨hfar, fun _ hfault => (by cases hfault), .inl rfl⟩
    · exact .inr ⟨hfar, fun _ hfault => (by cases hfault), .inl rfl⟩

lemma matches_prefixed (hsub : S.Follows sub) (h : S.Far p p') :
    S.Matches (Expr.relocate S.place) S.Far (prefixed sub p) (prefixed sub p') := by
  rw [prefixed, get_bind, get_bind, advance_bind, advance_bind, S.current_eq (S.near_of_far h)]
  exact (hsub .unary (S.advance h)).bind fun e q q' hq => matches_pure hq rfl

lemma matches_group (hsub : S.Follows sub) (h : S.Far p p') :
    S.Matches (Expr.relocate S.place) S.Far (group sub p) (group sub p') := by
  rw [group, advance_bind, advance_bind]
  refine (hsub .lowest (S.advance h)).bind fun e q q' hq => ?_
  exact (S.matches_expect hq (by decide) (by decide)).bind fun _ r r' hr => matches_pure hr.1 rfl

lemma matches_alternative (hsub : S.FollowsBlocks sub) (h : S.Far p p') :
    S.Matches (Option.map (Block.relocate S.place)) S.Far (alternative sub p)
      (alternative sub p') := by
  rw [alternative, get_bind, get_bind, S.lookaheadIs h]
  split
  · rename_i helse
    have ht : p.lookahead.kind = .elseWord := by simpa [Parser.lookaheadIs] using helse
    have hadv : S.Far p.advance p'.advance :=
      S.far_of_kind (S.advance h) (by rw [Parser.current_advance, ht]) (by decide) (by decide)
    rw [advance_bind, advance_bind]
    refine (S.matches_expect hadv (by decide) (by decide)).bind fun _ q q' hq => ?_
    exact (hsub hq.1 hq.2).map fun _ => rfl
  · exact matches_pure h rfl

lemma matches_conditional (hsub : S.Follows sub) (hblocks : S.FollowsBlocks sub) (h : S.Far p p') :
    S.Matches (Expr.relocate S.place) S.Far (conditional sub p) (conditional sub p') := by
  rw [conditional, get_bind, get_bind, S.current_eq (S.near_of_far h)]
  refine (S.matches_expect h (by decide) (by decide)).bind fun _ q q' hq => ?_
  rw [advance_bind, advance_bind]
  refine (hsub .lowest (S.advance hq.1)).bind fun condition q q' hq => ?_
  refine (S.matches_expect hq (by decide) (by decide)).bind fun _ q q' hq => ?_
  refine (S.matches_expect hq.1 (by decide) (by decide)).bind fun _ q q' hq => ?_
  refine (hblocks hq.1 hq.2).bind fun consequence q q' hq => ?_
  refine (matches_alternative hblocks hq).bind fun alternative q q' hq => ?_
  refine matches_pure hq ?_
  rw [Expr.relocate, relocateElse_eq_map]

lemma matches_function (hblocks : S.FollowsBlocks sub) (h : S.Far p p') :
    S.Matches (Expr.relocate S.place) S.Far (function sub p) (function sub p') := by
  rw [function, get_bind, get_bind, S.current_eq (S.near_of_far h)]
  refine (S.matches_expect h (by decide) (by decide)).bind fun _ q q' hq => ?_
  refine (matches_parameters hq.1).bind fun ids q q' hq => ?_
  refine (S.matches_expect hq (by decide) (by decide)).bind fun _ q q' hq => ?_
  exact (hblocks hq.1 hq.2).bind fun body q q' hq => matches_pure hq rfl

lemma matches_array [∀ power, Moves (sub power)] (hsub : S.Follows sub) (h : S.Far p p') :
    S.Matches (Expr.relocate S.place) S.Far (array sub p) (array sub p') := by
  rw [array, get_bind, get_bind, S.current_eq (S.near_of_far h)]
  refine (matches_items hsub (by decide) (by decide) h).bind fun es q q' hq => ?_
  refine matches_pure hq ?_
  rw [Expr.relocate, relocateEach_eq_map]

lemma matches_operand [∀ power, Moves (sub power)] (hsub : S.Follows sub)
    (hblocks : S.FollowsBlocks sub) {rule : ParseM Expr} (h : S.Near p p')
    (hrule : operand? sub p.current.kind = some rule) :
    S.Matches (Expr.relocate S.place) S.Far (rule p) (rule p') := by
  have hfar : ∀ kind, p.current.kind = kind → kind ≠ .semicolon → kind ≠ .rightBrace → S.Far p p' :=
    fun _ hk => S.far_of_kind h hk
  rcases operand?_eq_some sub hrule with ⟨hk, rfl⟩ | ⟨hk | hk, rfl⟩ | ⟨hk, rfl⟩ | ⟨hk, rfl⟩ |
    ⟨hk, rfl⟩ | ⟨hk, rfl⟩
  · exact matches_literal h hk
  · exact matches_prefixed hsub (hfar _ hk (by decide) (by decide))
  · exact matches_prefixed hsub (hfar _ hk (by decide) (by decide))
  · exact matches_group hsub (hfar _ hk (by decide) (by decide))
  · exact matches_conditional hsub hblocks (hfar _ hk (by decide) (by decide))
  · exact matches_function hblocks (hfar _ hk (by decide) (by decide))
  · exact matches_array hsub (hfar _ hk (by decide) (by decide))

/-! ## Operators -/

lemma matches_operator [∀ power, Moves (sub power)] (hsub : S.Follows sub) {kind : TokenKind}
    {rule : Expr → Power → ParseM Expr} (hrule : operator? sub kind = some rule) (h : S.Far p p')
    (left : Expr) (power : Power) :
    S.Matches (Expr.relocate S.place) S.Far (rule left power p)
      (rule (left.relocate S.place) power p') := by
  rcases operator?_eq_some sub hrule with ⟨-, rfl⟩ | ⟨-, rfl⟩ | ⟨-, rfl⟩
  · rw [infixed, infixed, get_bind, get_bind, advance_bind, advance_bind,
      S.current_eq (S.near_of_far h)]
    exact (hsub power (S.advance h)).bind fun e q q' hq => matches_pure hq rfl
  · dsimp only
    rw [call, call, get_bind, get_bind, S.current_eq (S.near_of_far h)]
    refine (matches_items hsub (by decide) (by decide) h).bind fun es q q' hq => ?_
    refine matches_pure hq ?_
    rw [Expr.relocate, relocateEach_eq_map]
  · dsimp only
    rw [index, index, get_bind, get_bind, advance_bind, advance_bind,
      S.current_eq (S.near_of_far h)]
    refine (hsub .lowest (S.advance h)).bind fun e q q' hq => ?_
    exact (S.matches_expect hq (by decide) (by decide)).bind fun _ r r' hr => matches_pure hr.1 rfl

/-- The operators that come next are the same, and so are the expressions they make. -/
lemma matches_operatorChain [∀ power, Moves (sub power)] (hsub : S.Follows sub) (power : Power)
    (left : Expr) (h : S.Far p p') :
    S.Matches (Expr.relocate S.place) S.Far (operatorChain sub power left p)
      (operatorChain sub power (left.relocate S.place) p') := by
  induction hlen : p.lexemes.length using Nat.strong_induction_on generalizing p p' left with
  | h n ih =>
    subst hlen
    rw [operatorChain_eq, operatorChain_eq, operatorRound, operatorRound, S.kind_lookahead h]
    split
    · rename_i hpower
      cases hrule : operator? sub p.lookahead.kind with
      | none => exact .ok h
      | some rule =>
        have hk : p.lookahead.kind ∈ [.equal, .notEqual, .less, .greater, .plus, .minus, .asterisk,
            .slash, .leftParen, .leftBracket] := by
          rcases operator?_eq_some sub hrule with ⟨hk, -⟩ | ⟨hk, -⟩ | ⟨hk, -⟩
          · exact List.mem_append_left [.leftParen, .leftBracket] hk
          · simp [hk]
          · simp [hk]
        have hadv : S.Far p.advance p'.advance :=
          S.far_of_mem (S.advance h) (by rwa [Parser.current_advance]) (by decide) (by decide)
        refine (matches_operator hsub hrule hadv left _).bind_of_ok fun e q q' hq hfar => ?_
        exact ih _ (length_lt_of_operator hrule hq) e hfar rfl
    · exact .ok h

lemma matches_chain [∀ power, Moves (sub power)] (hsub : S.Follows sub)
    (hblocks : S.FollowsBlocks sub) (power : Power) (h : S.Near p p') :
    S.Matches (Expr.relocate S.place) S.Far (chain sub power p) (chain sub power p') := by
  rw [chain_eq, chain_eq, S.kind_current h]
  cases hrule : operand? sub p.current.kind with
  | none =>
    rw [S.notAnOperand_eq h]
    exact .error (.inl ⟨h, .inr rfl⟩)
  | some rule =>
    exact (matches_operand hsub hblocks h hrule).bind fun e q q' hq =>
      matches_operatorChain hsub power e hq

/-- Parses that agree one level further in agree. -/
lemma matches_nested {x : ParseM α} (h : S.Near p p')
    (hx : S.Matches move S.Far (x { p with depth := p.depth + 1 })
      (x { p' with depth := p.depth + 1 })) :
    S.Matches move S.Far (nested x p) (nested x p') := by
  rw [nested_apply, nested_apply, S.depth_eq h]
  have hleave : ∀ {q q'}, S.Near q q' → q'.leaveNesting = { q' with depth := q.depth - 1 } := by
    intro q q' h
    rw [Parser.leaveNesting, S.depth_eq h]
  split
  · generalize x { p with depth := p.depth + 1 } = r, x { p' with depth := p.depth + 1 } = r' at hx
    cases hx with
    | ok h =>
      refine .ok ?_
      rw [hleave (S.near_of_far h)]
      exact S.far_depth _ h
    | error h =>
      refine .error ?_
      rcases h with ⟨h, hd⟩ | ⟨h, hd⟩
      · rw [hleave h]
        exact .inl ⟨S.near_depth _ h, hd⟩
      · rw [hleave (S.near_of_far h)]
        exact .inr ⟨S.far_depth _ h, hd⟩
  · rw [S.tooDeep_eq h]
    exact .error (.inl ⟨h, .inl rfl⟩)

/-- Expressions are parsed alike, if the blocks inside them are. -/
theorem follows_expressionAt
    (hblocks : ∀ sub, (∀ power, Moves (sub power)) → S.Follows sub → S.FollowsBlocks sub)
    (levels : Nat) : S.Follows (expressionAt levels) := by
  induction levels with
  | zero =>
    intro power p p' h
    rw [expressionAt_zero, expressionAt_zero, S.tooDeep_eq h]
    exact .error (.inl ⟨h, .inl rfl⟩)
  | succ levels ih =>
    intro power p p' h
    exact matches_nested h (matches_chain ih (hblocks _ inferInstance ih) power (S.near_depth _ h))

/-! ## Statements -/

lemma matches_letStatement (hsub : S.Follows sub) (h : S.Far p p') :
    S.Matches (Stmt.relocate S.place) S.Ended (letStatement sub p) (letStatement sub p') := by
  rw [letStatement, get_bind, get_bind, S.current_eq (S.near_of_far h)]
  refine (S.matches_identifier h).bind fun id q q' hq => ?_
  refine (S.matches_expect hq (by decide) (by decide)).bind fun _ q q' hq => ?_
  rw [advance_bind, advance_bind]
  refine (hsub .lowest (S.advance hq.1)).bind fun value q q' hq => ?_
  exact (S.matches_expectEnd hq).bind fun _ q q' hq => matches_pure hq rfl

lemma matches_returnValue (hsub : S.Follows sub) (h : S.Far p p') :
    S.Matches (Option.map (Expr.relocate S.place)) S.Far (returnValue sub p)
      (returnValue sub p') := by
  have hone : p'.lookahead.isOneOf (.semicolon :: closers) =
      p.lookahead.isOneOf (.semicolon :: closers) := by
    rw [Token.isOneOf, Token.isOneOf, S.kind_lookahead h]
  rw [returnValue, get_bind, get_bind, hone]
  split
  · exact matches_pure h rfl
  · rw [advance_bind, advance_bind]
    exact (hsub .lowest (S.advance h)).map fun _ => rfl

lemma matches_returnStatement (hsub : S.Follows sub) (h : S.Far p p') :
    S.Matches (Stmt.relocate S.place) S.Ended (returnStatement sub p)
      (returnStatement sub p') := by
  rw [returnStatement, get_bind, get_bind, S.current_eq (S.near_of_far h)]
  refine (matches_returnValue hsub h).bind fun value q q' hq => ?_
  refine (S.matches_expectEnd hq).bind fun _ q q' hq => ?_
  refine matches_pure hq ?_
  rw [Stmt.relocate, relocateValue_eq_map]

lemma matches_expressionStatement (hsub : S.Follows sub) (h : S.Near p p') :
    S.Matches (Stmt.relocate S.place) S.Ended (expressionStatement sub p)
      (expressionStatement sub p') := by
  rw [expressionStatement, get_bind, get_bind, S.current_eq h]
  refine (hsub .lowest h).bind fun e q q' hq => ?_
  rw [get_bind, get_bind, S.lookaheadIs hq]
  split
  · rename_i hsemi
    rw [advance_bind, advance_bind]
    refine matches_pure (.inr ⟨S.advance hq, ?_⟩) rfl
    rw [Parser.current_advance]
    simpa [Parser.lookaheadIs] using hsemi
  · exact matches_pure (.inl hq) rfl

/-- Statements are parsed alike, if the expressions inside them are. -/
theorem matches_statement (hsub : S.Follows sub) (h : S.Near p p') :
    S.Matches (Stmt.relocate S.place) S.Ended (statement sub p) (statement sub p') := by
  rw [statement, get_bind, get_bind, S.kind_current h]
  cases hrule : statement? sub p.current.kind with
  | none => exact matches_expressionStatement hsub h
  | some rule =>
    have hrules : (p.current.kind = .letWord ∧ rule = letStatement sub) ∨
        (p.current.kind = .returnWord ∧ rule = returnStatement sub) := by
      revert hrule
      generalize p.current.kind = kind
      cases kind <;> simp [statement?, eq_comm]
    rcases hrules with ⟨hk, rfl⟩ | ⟨hk, rfl⟩
    · exact matches_letStatement hsub (S.far_of_kind h hk (by decide) (by decide))
    · exact matches_returnStatement hsub (S.far_of_kind h hk (by decide) (by decide))

end Simulation

end ScriptSyntax
