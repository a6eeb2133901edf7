import ScriptSyntax.Proofs.Grammar.Agreement
import ScriptSyntax.Proofs.Grammar.Prediction

/-!
# What can be read is predicted

A reader that looks at one token ahead finds every program: the tokens of a reading meet the goal that
stands for what they are read as.  Since the tokens decide the run, a reader that cannot go on has a
token before it with which no program goes on.

## Main statements

* `Grammar.Reads.predicted`: every reading is a run.
* `Grammar.Run.not_isProgram`: behind a run that cannot go on no tokens make a program.
-/

namespace ScriptSyntax

namespace Grammar

/-! ## Steps -/

section Steps

variable {next kind : TokenKind} {g : Goal} {gs hs ks : List Goal} {t : Token} {ts us : List Token}

lemma Run.trans_of_eq (h : Run kind gs ts hs) (hkind : firstKind us next = kind)
    (h' : Run next hs us ks) : Run next gs (ts ++ us) ks := by
  subst hkind
  exact h.trans h'

lemma Run.of_ne (hne : kind ≠ .integer) (ht : t.kind = kind) (h : Run next gs ts hs) :
    Run next (.token kind :: gs) (t :: ts) hs :=
  .token (.of_ne ht hne) h

lemma Goal.predict_tail (h : kind ∉ continuations) : tail.predict kind = some [] := by
  revert h
  cases kind <;> decide

/-- An expression does not go on in front of most tokens. -/
lemma Run.skip (hfirst : firstKind ts next ∉ continuations) (h : Run next gs ts hs) :
    Run next (.tail :: gs) ts hs :=
  .predict (Goal.predict_tail hfirst) h

/-- The goals that statements are part of. -/
def Goal.IsList (g : Goal) : Prop := g = .body ∨ g = .program

/-- In front of a statement a list comes down to the statement and the list again. -/
lemma Goal.IsList.predict (hg : g.IsList) (hk : kind ∈ statementKinds) :
    g.predict kind = some (statement kind ++ [g]) := by
  have hbrace : kind ≠ .rightBrace := ne_of_mem_of_not_mem hk (by decide)
  have hend : kind ≠ .endOfInput := ne_of_mem_of_not_mem hk (by decide)
  rcases hg with rfl | rfl
  · exact if_neg hbrace
  · exact if_neg hend

lemma Goal.predict_items (hk : kind ∈ operandKinds) (hnext : next = .rightParen ∨ next = .rightBracket) :
    (items next).predict kind = some [expression, moreItems next] := by
  refine if_neg ?_
  rintro rfl
  rcases hnext with rfl | rfl
  · exact absurd hk (by decide)
  · exact absurd hk (by decide)

lemma Goal.predict_returned (hk : kind ∈ operandKinds) :
    returned.predict kind = some [expression, ending] := by
  revert hk
  cases kind <;> decide

lemma Goal.statement_of_operand (hk : kind ∈ operandKinds) :
    statement kind = [expression, separator] := by
  revert hk
  cases kind <;> decide

lemma not_mem_continuations_of_close (h : kind = .rightParen ∨ kind = .rightBracket) :
    kind ∉ continuations := by
  rcases h with rfl | rfl <;> decide

/-- What ends a statement meets the goal for it. -/
lemma Ending.run (h : Ending next us) (gs : List Goal) : Run next (.ending :: gs) us gs := by
  cases h with
  | @semicolon s hs =>
    have hp : Goal.ending.predict (firstKind [s] next) = some [.token .semicolon] := by
      rw [firstKind_cons, hs]
      rfl
    exact .predict hp (.of_ne (by decide) hs .refl)
  | brace hnext | source hnext =>
    have hp : Goal.ending.predict (firstKind [] next) = some [] := by
      rw [firstKind_nil, hnext]
      rfl
    exact .predict hp .refl

lemma Ending.not_mem_continuations (h : Ending next us) : firstKind us next ∉ continuations := by
  cases h with
  | semicolon hs =>
    rw [firstKind_cons, hs]
    decide
  | brace hnext | source hnext =>
    rw [firstKind_nil, hnext]
    decide

/-- The token of an expression of one token is a fitting one. -/
lemma fits_of_ofToken {e : Expr} (h : Expr.ofToken t = .ok e) : Fits t.kind t := by
  refine ⟨rfl, fun hk => ?_⟩
  unfold Expr.ofToken at h
  rw [hk] at h
  dsimp only at h
  split at h
  · assumption
  · cases h

lemma Goal.operand?_of_ofToken {e : Expr} (h : Expr.ofToken t = .ok e) :
    operand? t.kind = some [.token t.kind, .tail] := by
  have hk := kind_mem_of_ofToken_eq_ok h
  revert hk
  cases t.kind <;> decide

end Steps

/-! ## Readings -/

/-- The tokens of a phrase, in front of a token of kind `next`, meet the goal for the phrase.  It is
left open whether an expression goes on. -/
def Phrase.Predicted (ts : List Token) (next : TokenKind) : Phrase → Prop
  | .expression _ _ | .operand _ => ∀ gs, Run next (.expression :: gs) ts (.tail :: gs)
  | .operators _ _ _ => ∀ gs, Run next (.tail :: gs) ts (.tail :: gs)
  | .items _ => next = .rightParen ∨ next = .rightBracket →
    ∀ gs, Run next (.items next :: gs) ts (.token next :: gs)
  | .itemsTail _ => next = .rightParen ∨ next = .rightBracket →
    ∀ gs, Run next (.tail :: .moreItems next :: gs) ts (.token next :: gs)
  | .names _ => next = .rightParen → ∀ gs, Run next (.names :: gs) ts (.token .rightParen :: gs)
  | .namesTail _ => next = .rightParen →
    ∀ gs, Run next (.moreNames :: gs) ts (.token .rightParen :: gs)
  | .alternative _ => ∀ gs, Run next (.alternative :: gs) ts (.tail :: gs)
  | .block _ => ∀ gs, Run next (.token .leftBrace :: .body :: gs) ts gs
  | .statement _ | .statements _ => ∀ g : Goal, g.IsList → ∀ gs, Run next (g :: gs) ts (g :: gs)

namespace Phrase.Predicted

variable {power : Power} {t x o c : Token} {l r e : Expr} {es : List Expr}
  {ids : List Identifier} {b : Block} {alt : Option Block} {s : Stmt} {body : List Stmt}
  {ts us vs : List Token} {next : TokenKind}

lemma literal (h : Expr.ofToken t = .ok e) : (Phrase.operand e).Predicted [t] next :=
  fun _ => .predict (Goal.operand?_of_ofToken h) (.token (fits_of_ofToken h) .refl)

lemma prefixed (ho : o.kind = .bang ∨ o.kind = .minus)
    (hr : (Phrase.expression .unary r).Predicted ts next) :
    (Phrase.operand (.prefixOp o o.text r)).Predicted (o :: ts) next := by
  intro gs
  rcases ho with ho | ho
  · exact .predict (by rw [firstKind_cons, ho]; rfl) (.of_ne (by decide) ho (hr gs))
  · exact .predict (by rw [firstKind_cons, ho]; rfl) (.of_ne (by decide) ho (hr gs))

lemma group (ho : o.kind = .leftParen) (hc : c.kind = .rightParen)
    (he : (Phrase.expression .lowest e).Predicted ts .rightParen) :
    (Phrase.operand e).Predicted (o :: (ts ++ [c])) next := by
  intro gs
  refine .predict (by rw [firstKind_cons, ho]; rfl) (.of_ne (by decide) ho ?_)
  exact (he _).trans_of_eq hc (.skip (by rw [firstKind_cons, hc]; decide)
    (.of_ne (by decide) hc .refl))

lemma conditional (ht : t.kind = .ifWord) (ho : o.kind = .leftParen) (hc : c.kind = .rightParen)
    (he : (Phrase.expression .lowest e).Predicted ts .rightParen)
    (hb : (Phrase.block b).Predicted us (firstKind vs next))
    (halt : (Phrase.alternative alt).Predicted vs next) :
    (Phrase.operand (.conditional t e b alt)).Predicted (t :: o :: (ts ++ c :: (us ++ vs))) next := by
  intro gs
  refine .predict (by rw [firstKind_cons, ht]; rfl) (.of_ne (by decide) ht (.of_ne (by decide) ho ?_))
  exact (he _).trans_of_eq hc (.skip (by rw [firstKind_cons, hc]; decide)
    (.of_ne (by decide) hc ((hb _).trans (halt gs))))

lemma function (ht : t.kind = .fnWord) (ho : o.kind = .leftParen) (hc : c.kind = .rightParen)
    (hids : (Phrase.names ids).Predicted ts .rightParen) (hb : (Phrase.block b).Predicted us next) :
    (Phrase.operand (.function t ids b)).Predicted (t :: o :: (ts ++ c :: us)) next := by
  intro gs
  refine .predict (by rw [firstKind_cons, ht]; rfl) (.of_ne (by decide) ht (.of_ne (by decide) ho ?_))
  exact (hids rfl _).trans_of_eq hc (.of_ne (by decide) hc (hb _))

lemma array (ho : o.kind = .leftBracket) (hc : c.kind = .rightBracket)
    (hes : (Phrase.items es).Predicted ts .rightBracket) :
    (Phrase.operand (.array o es)).Predicted (o :: (ts ++ [c])) next := by
  intro gs
  refine .predict (by rw [firstKind_cons, ho]; rfl) (.of_ne (by decide) ho ?_)
  exact (hes (.inr rfl) _).trans_of_eq hc (.of_ne (by decide) hc .refl)

lemma infixed (ho : o.kind ∈ binaryOperators)
    (hr : (Phrase.expression o.kind.power r).Predicted ts (firstKind us next))
    (he : (Phrase.operators power (.infixOp o o.text l r) e).Predicted us next) :
    (Phrase.operators power l e).Predicted (o :: (ts ++ us)) next := by
  intro gs
  have hne : o.kind ≠ .integer := ne_of_mem_of_not_mem ho (by decide)
  exact .predict (if_pos ho) (.of_ne hne rfl ((hr gs).trans (he gs)))

lemma call (ho : o.kind = .leftParen) (hc : c.kind = .rightParen)
    (hes : (Phrase.items es).Predicted ts .rightParen)
    (he : (Phrase.operators power (.call o l es) e).Predicted us next) :
    (Phrase.operators power l e).Predicted (o :: (ts ++ c :: us)) next := by
  intro gs
  refine .predict (by rw [firstKind_cons, ho]; rfl) (.of_ne (by decide) ho ?_)
  exact (hes (.inl rfl) _).trans_of_eq hc (.of_ne (by decide) hc (he gs))

lemma index (ho : o.kind = .leftBracket) (hc : c.kind = .rightBracket)
    (hr : (Phrase.expression .lowest r).Predicted ts .rightBracket)
    (he : (Phrase.operators power (.index o l r) e).Predicted us next) :
    (Phrase.operators power l e).Predicted (o :: (ts ++ c :: us)) next := by
  intro gs
  refine .predict (by rw [firstKind_cons, ho]; rfl) (.of_ne (by decide) ho ?_)
  exact (hr _).trans_of_eq hc (.skip (by rw [firstKind_cons, hc]; decide)
    (.of_ne (by decide) hc (he gs)))

lemma items (hfirst : firstKind ts (firstKind us next) ∈ operandKinds)
    (he : (Phrase.expression .lowest e).Predicted ts (firstKind us next))
    (hes : (Phrase.itemsTail es).Predicted us next) :
    (Phrase.items (e :: es)).Predicted (ts ++ us) next := by
  intro hnext gs
  refine .predict (Goal.predict_items ?_ hnext) ((he _).trans (hes hnext gs))
  rwa [firstKind_append]

lemma itemsTail (hc : c.kind = .comma)
    (he : (Phrase.expression .lowest e).Predicted ts (firstKind us next))
    (hes : (Phrase.itemsTail es).Predicted us next) :
    (Phrase.itemsTail (e :: es)).Predicted (c :: (ts ++ us)) next := by
  intro hnext gs
  refine .skip (by rw [firstKind_cons, hc]; decide) ?_
  refine .predict (by rw [firstKind_cons, hc]; rfl) (.of_ne (by decide) hc ?_)
  exact (he _).trans (hes hnext gs)

lemma itemsEnd : (Phrase.itemsTail []).Predicted [] next := by
  intro hnext gs
  refine .skip (not_mem_continuations_of_close hnext) (.predict (if_neg ?_) .refl)
  rw [firstKind_nil]
  rcases hnext with rfl | rfl <;> decide

lemma names (hx : x.kind = .identifier) (hids : (Phrase.namesTail ids).Predicted ts next) :
    (Phrase.names (⟨x, x.text⟩ :: ids)).Predicted (x :: ts) next :=
  fun hnext gs => .predict (by rw [firstKind_cons, hx]; rfl) (.of_ne (by decide) hx (hids hnext gs))

lemma namesTail (hc : c.kind = .comma) (hx : x.kind = .identifier)
    (hids : (Phrase.namesTail ids).Predicted ts next) :
    (Phrase.namesTail (⟨x, x.text⟩ :: ids)).Predicted (c :: x :: ts) next :=
  fun hnext gs => .predict (by rw [firstKind_cons, hc]; rfl)
    (.of_ne (by decide) hc (.of_ne (by decide) hx (hids hnext gs)))

lemma alternative (ht : t.kind = .elseWord) (hb : (Phrase.block b).Predicted ts next) :
    (Phrase.alternative (some b)).Predicted (t :: ts) next :=
  fun _ => .predict (by rw [firstKind_cons, ht]; rfl) (.of_ne (by decide) ht (hb _))

lemma block (ho : o.kind = .leftBrace) (hc : c.kind = .rightBrace)
    (hbody : (Phrase.statements body).Predicted ts .rightBrace) :
    (Phrase.block (.mk o body)).Predicted (o :: (ts ++ [c])) next := by
  intro gs
  refine .of_ne (by decide) ho ((hbody .body (.inl rfl) gs).trans_of_eq hc ?_)
  exact .predict (by rw [firstKind_cons, hc]; rfl) (.of_ne (by decide) hc .refl)

lemma letBinding (ht : t.kind = .letWord) (hx : x.kind = .identifier) (ho : o.kind = .assign)
    (he : (Phrase.expression .lowest e).Predicted ts (firstKind us next)) (hend : Ending next us) :
    (Phrase.statement (.letBinding t ⟨x, x.text⟩ e)).Predicted (t :: x :: o :: (ts ++ us)) next := by
  intro g hg gs
  refine .predict (hg.predict (by rw [firstKind_cons, ht]; decide)) ?_
  rw [firstKind_cons, ht]
  refine .of_ne (by decide) ht (.of_ne (by decide) hx (.of_ne (by decide) ho ?_))
  exact (he _).trans (.skip hend.not_mem_continuations (hend.run _))

lemma returnNothing (ht : t.kind = .returnWord) (hend : Ending next us) :
    (Phrase.statement (.return t none)).Predicted (t :: us) next := by
  intro g hg gs
  refine .predict (hg.predict (by rw [firstKind_cons, ht]; decide)) ?_
  rw [firstKind_cons, ht]
  refine .of_ne (by decide) ht (.predict (if_pos ?_) (hend.run _))
  cases hend with
  | semicolon hs => simp [hs]
  | brace hnext | source hnext => simp [hnext]

lemma returnValue (ht : t.kind = .returnWord)
    (hfirst : firstKind ts (firstKind us next) ∈ operandKinds)
    (he : (Phrase.expression .lowest e).Predicted ts (firstKind us next)) (hend : Ending next us) :
    (Phrase.statement (.return t (some e))).Predicted (t :: (ts ++ us)) next := by
  intro g hg gs
  refine .predict (hg.predict (by rw [firstKind_cons, ht]; decide)) ?_
  rw [firstKind_cons, ht]
  refine .of_ne (by decide) ht (.predict (Goal.predict_returned (by rwa [firstKind_append])) ?_)
  exact (he _).trans (.skip hend.not_mem_continuations (hend.run _))

/-- An expression that stands as a statement leads to the semicolon it may have. -/
lemma expressionStatement (hfirst : t.kind ∈ operandKinds)
    (he : (Phrase.expression .lowest e).Predicted (t :: ts) next) (hnext : next ∉ continuations)
    {g : Goal} (hg : g.IsList) (gs : List Goal) :
    Run next (g :: gs) (t :: ts) (.separator :: g :: gs) := by
  have hstatement : t.kind ∈ statementKinds :=
    List.mem_cons_of_mem _ (List.mem_cons_of_mem _ hfirst)
  refine .predict (hg.predict hstatement) ?_
  rw [firstKind_cons, Goal.statement_of_operand hfirst]
  exact (he _).drop_end (Goal.predict_tail hnext)

lemma closedExpression (hc : c.kind = .semicolon) (hfirst : t.kind ∈ operandKinds)
    (he : (Phrase.expression .lowest e).Predicted (t :: ts) .semicolon) :
    (Phrase.statement (.expression t e)).Predicted (t :: (ts ++ [c])) next := by
  intro g hg gs
  have hp : Goal.separator.predict (firstKind [c] next) = some [.token .semicolon] := by
    rw [firstKind_cons, hc]
    rfl
  exact (expressionStatement hfirst he (by decide) hg gs).trans_of_eq hc
    (.predict hp (.of_ne (by decide) hc .refl))

lemma openExpression (hsemi : next ≠ .semicolon) (hnext : next ∉ continuations)
    (hfirst : t.kind ∈ operandKinds)
    (he : (Phrase.expression .lowest e).Predicted (t :: ts) next) :
    (Phrase.statement (.expression t e)).Predicted (t :: ts) next := by
  intro g hg gs
  refine (expressionStatement hfirst he hnext hg gs).drop_end ?_
  rw [Goal.predict, if_neg hsemi, if_neg hnext]

lemma statements (hs : (Phrase.statement s).Predicted ts (firstKind us next))
    (hbody : (Phrase.statements body).Predicted us next) :
    (Phrase.statements (s :: body)).Predicted (ts ++ us) next :=
  fun g hg gs => (hs g hg gs).trans (hbody g hg gs)

end Phrase.Predicted

/-- Every reading is a run. -/
theorem Reads.predicted {n : Nat} {phrase : Phrase} {ts : List Token} {next : TokenKind}
    (h : Reads n phrase ts next) : phrase.Predicted ts next := by
  induction h with
  | expression _ _ ihl ihe => exact fun gs => (ihl gs).trans (ihe gs)
  | literal h => exact .literal h
  | prefixed ho _ ih => exact .prefixed ho ih
  | group ho _ hc ih => exact .group ho hc ih
  | conditional ht ho _ hc _ _ ihe ihb ihalt => exact .conditional ht ho hc ihe ihb ihalt
  | function ht ho _ hc _ ihids ihb => exact .function ht ho hc ihids ihb
  | array ho _ hc ih => exact .array ho hc ih
  | operatorsEnd => exact fun _ => .refl
  | infixed _ ho _ _ ihr ihe => exact .infixed ho ihr ihe
  | call _ ho _ hc _ ihes ihe => exact .call ho hc ihes ihe
  | index _ ho _ hc _ ihr ihe => exact .index ho hc ihr ihe
  | noItem => exact fun _ _ => .predict (if_pos rfl) .refl
  | items he _ ihe ihes => exact .items (he.firstKind_expression _) ihe ihes
  | itemsEnd => exact .itemsEnd
  | itemsTail hc _ _ ihe ihes => exact .itemsTail hc ihe ihes
  | noName => exact fun hnext _ => .predict (if_pos hnext) .refl
  | names hx _ ih => exact .names hx ih
  | namesEnd => exact fun hnext _ => .predict (by rw [firstKind_nil, hnext]; rfl) .refl
  | namesTail hc hx _ ih => exact .namesTail hc hx ih
  | noAlternative hnext => exact fun _ => .predict (if_neg hnext) .refl
  | alternative ht _ ih => exact .alternative ht ih
  | block ho _ hc ih => exact .block ho hc ih
  | noStatement => exact fun _ _ _ => .refl
  | statements _ _ ihs ihbody => exact .statements ihs ihbody
  | letBinding ht hx ho _ hend ih => exact .letBinding ht hx ho ih hend
  | returnNothing ht hend => exact .returnNothing ht hend
  | returnValue ht he hend ih => exact .returnValue ht (he.firstKind_expression _) ih hend
  | closedExpression he hc ih => exact .closedExpression hc (he.firstKind_expression .semicolon) ih
  | @openExpression n t e ts next he hnext ih =>
    have hopen : next ∉ continuations := by
      rw [← power_eq_lowest_iff, ← not_lowest_lt_iff]
      exact he.not_lt
    exact .openExpression hnext hopen (he.firstKind_expression next) ih

/-- A reader of programs goes through every program. -/
theorem IsProgram.run {ts : List Token} (h : IsProgram ts) : Run .endOfInput [.program] ts [] := by
  obtain ⟨n, body, hreads⟩ := (isProgram_iff_exists_reads ts).1 h
  exact (hreads.predicted .program (.inr rfl) []).drop_end rfl

/-! ## Tokens out of place -/

/-- The nearest of the goals comes down to nothing in front of the token, and is not met by it. -/
def Rejects (gs : List Goal) (t : Token) : Prop :=
  ∃ g hs, gs = g :: hs ∧ g.predict t.kind = none ∧ ∀ kind, g = .token kind → ¬Fits kind t

/-- Where a run cannot go on, no tokens that go on with the next one make a program. -/
theorem Run.not_isProgram {t : Token} {ts : List Token} {gs : List Goal}
    (h : Run t.kind [.program] ts gs) (hreject : Rejects gs t) (us : List Token) :
    ¬IsProgram (ts ++ t :: us) := by
  intro hprogram
  obtain ⟨g, hs, rfl, hpredict, hfits⟩ := hreject
  have h' : Run (firstKind (t :: us) .endOfInput) [.program] ts (g :: hs) := h
  cases hprogram.run.unique h' with
  | predict hp _ => exact absurd (hpredict.symm.trans hp) (by simp)
  | token ht _ => exact hfits _ rfl ht

/-- Where a run cannot go on at the end of the source, the tokens make no program. -/
theorem Run.not_isProgram_of_end {t : Token} {ts : List Token} {gs : List Goal}
    (h : Run t.kind [.program] ts gs) (ht : t.kind = .endOfInput) (hreject : Rejects gs t) :
    ¬IsProgram ts := by
  intro hprogram
  obtain ⟨g, hs, rfl, hpredict, -⟩ := hreject
  rw [ht] at h hpredict
  have hrun : Run .endOfInput [.program] (ts ++ []) [] := by simpa using hprogram.run
  cases hrun.unique h with
  | predict hp _ => exact absurd (hpredict.symm.trans hp) (by simp)

end Grammar

end ScriptSyntax
