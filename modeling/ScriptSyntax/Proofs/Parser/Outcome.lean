import ScriptSyntax.Proofs.Parser.Window

/-!
# How a parse may end

A parse of tokens that belong together can go wrong in one way only: there are not levels of nesting
enough.  `Rule.Delivers fits p k a r` says of the outcome `r` of a parse from `p` that it is the value
`a`, `k` tokens further on, if there are levels enough, and that running out of them is the first
thing found wrong otherwise.

## Main statements

* `Rule.Delivers.bind`: what a sequence of two parses delivers.
* `Rule.Delivers.nested`: what a parse one level further in delivers.
-/

namespace ScriptSyntax

namespace Rule

variable {α β : Type}

/-- What a parse found wrong, the diagnostic it failed with last. -/
def found : EStateM.Result Diagnostic Parser α → List Diagnostic
  | .ok _ q => q.diagnostics.toList
  | .error d q => q.diagnostics.toList ++ [d]

/-- A parse from `p` found `ds` wrong, and the first of it beyond the tokens themselves is that an
expression was nested too deep. -/
def Exhausts (p : Parser) (ds : List Diagnostic) : Prop :=
  ∃ k rest, ds = (p.ahead k).diagnostics.toList ++ (p.ahead k).tooDeep :: rest

lemma Exhausts.mono {p : Parser} {ds ds' : List Diagnostic} (h : Exhausts p ds)
    (hds : ds <+: ds') : Exhausts p ds' := by
  obtain ⟨k, rest, rfl⟩ := h
  obtain ⟨more, rfl⟩ := hds
  exact ⟨k, rest ++ more, by simp⟩

lemma Exhausts.of_ahead {p : Parser} {ds : List Diagnostic} {j : Nat}
    (h : Exhausts (p.ahead j) ds) : Exhausts p ds := by
  obtain ⟨k, rest, rfl⟩ := h
  exact ⟨j + k, rest, by rw [Parser.ahead_ahead]⟩

/-- What was found stays found, however the parse goes on. -/
lemma found_isPrefix_bind (x : ParseM α) (f : α → ParseM β) [∀ a, Moves (f a)] (p : Parser) :
    found (x p) <+: found ((x >>= f) p) := by
  rw [bind_apply]
  cases x p with
  | error d q => exact List.prefix_refl _
  | ok a q =>
    have hq := (Moves.trail (f a) q).diagnostics_isPrefix
    simp only [found]
    cases h : f a q with
    | ok b r => simpa only [h, final] using hq
    | error d r =>
      rw [h] at hq
      exact hq.trans (List.prefix_append _ _)

/-- What the first statement of a list finds stays found in the list. -/
lemma found_isPrefix_statementList (sub : Subparser) [∀ power, Moves (sub power)] {inBlock : Bool}
    {p : Parser} (h : atListEnd inBlock p = false) :
    found (statement sub p) <+: (statementList sub inBlock p).2.diagnostics.toList := by
  have hlist : ∀ q : Parser, q.Trail (statementList sub inBlock q).2 := fun q =>
    statements_trail sub inBlock q.lexemes q
  rw [statementList_eq, if_neg (by simp [h])]
  cases statement sub p with
  | ok s q => exact ((Parser.Trail.refl.advance).trans (hlist q.advance)).diagnostics_isPrefix
  | error d q =>
    have hd : found (.error d q : EStateM.Result Diagnostic Parser Stmt) =
        (q.record d).diagnostics.toList := by simp [found, Parser.record]
    rw [hd]
    simp only
    split
    · exact List.prefix_refl _
    · have hsync := (Parser.Trail.refl (p := q.record d)).synchronize inBlock
      exact (hsync.advance.trans (hlist _)).diagnostics_isPrefix

/-- The outcome of a parse from `p` is `a`, `k` tokens further on, if there are levels enough;
otherwise the lack of levels is the first thing it found. -/
structure Delivers (fits : Prop) (p : Parser) (k : Nat) (a : α)
    (r : EStateM.Result Diagnostic Parser α) : Prop where
  eq_ok : fits → r = .ok a (p.ahead k)
  exhausts : ¬fits → Exhausts p (found r)

namespace Delivers

variable {fits fits' : Prop} {p : Parser} {j k : Nat} {a : α} {b : β}
  {r : EStateM.Result Diagnostic Parser α}

lemma of_eq (h : r = .ok a (p.ahead k)) : Delivers True p k a r :=
  ⟨fun _ => h, fun h => absurd trivial h⟩

lemma congr (h : Delivers fits p k a r) (hfits : fits ↔ fits') (hk : k = j) :
    Delivers fits' p j a r := by
  subst hk
  exact ⟨fun hf => h.eq_ok (hfits.2 hf), fun hf => h.exhausts (fun hf' => hf (hfits.1 hf'))⟩

/-- A parse that starts further on. -/
lemma of_ahead (h : Delivers fits (p.ahead j) k a r) : Delivers fits p (j + k) a r :=
  ⟨fun hf => by rw [h.eq_ok hf, Parser.ahead_ahead], fun hf => (h.exhausts hf).of_ahead⟩

lemma of_advance (h : Delivers fits p.advance k a r) : Delivers fits p (k + 1) a r :=
  (of_ahead (j := 1) h).congr Iff.rfl (Nat.add_comm 1 k)

/-- What a sequence of two parses delivers. -/
theorem bind {x : ParseM α} {f : α → ParseM β} [∀ a, Moves (f a)] (hx : Delivers fits p j a (x p))
    (hf : Delivers fits' (p.ahead j) k b (f a (p.ahead j))) :
    Delivers (fits ∧ fits') p (j + k) b ((x >>= f) p) := by
  by_cases hfits : fits
  · rw [bind_apply, hx.eq_ok hfits]
    exact hf.of_ahead.congr ⟨fun h => ⟨hfits, h⟩, fun h => h.2⟩ rfl
  · exact ⟨fun h => absurd h.1 hfits, fun _ => (hx.exhausts hfits).mono (found_isPrefix_bind x f p)⟩

/-- A parse that makes a value of what another one delivers. -/
lemma map {x : ParseM α} (hx : Delivers fits p k a (x p)) (g : α → β) :
    Delivers fits p k (g a) ((g <$> x) p) := by
  constructor
  · intro hfits
    rw [map_apply, hx.eq_ok hfits]
  · intro hfits
    have h := hx.exhausts hfits
    rw [map_apply]
    cases hr : x p <;> simpa [hr, found] using h

/-- What a parse one level further in delivers. -/
theorem nested {x : ParseM α} [Moves x] (hp : p.depth < maxNesting)
    (hx : Delivers fits { p with depth := p.depth + 1 } k a (x { p with depth := p.depth + 1 })) :
    Delivers fits p k a (nested x p) := by
  rw [nested_apply, if_pos hp]
  constructor
  · intro hfits
    rw [hx.eq_ok hfits, Parser.ahead_with_depth]
    simp only [Parser.leaveNesting, Nat.add_sub_cancel]
    rw [← p.depth_ahead k]
  · intro hfits
    obtain ⟨i, rest, h⟩ := hx.exhausts hfits
    rw [Parser.ahead_with_depth] at h
    refine ⟨i, rest, ?_⟩
    cases hr : x { p with depth := p.depth + 1 } <;> rw [hr] at h <;> exact h

end Delivers

/-! ## Steps with a known outcome -/

section Steps

variable {p : Parser}

lemma get_bind (f : Parser → ParseM β) : (get >>= f) p = f p p := rfl

lemma advance_bind (f : Unit → ParseM β) : (advance >>= f) p = f () p.advance := rfl

lemma expect_eq_ok {kind : TokenKind} (h : p.lookahead.kind = kind) :
    expect kind p = .ok () p.advance := by
  rw [expect_apply, if_pos (by simp [Parser.lookaheadIs, h])]

lemma expect_bind {kind : TokenKind} (h : p.lookahead.kind = kind) (f : Unit → ParseM β) :
    (expect kind >>= f) p = f () p.advance := by
  rw [bind_apply, expect_eq_ok h]

lemma identifier_eq_ok (h : p.lookahead.kind = .identifier) :
    identifier p = .ok ⟨p.lookahead, p.lookahead.text⟩ p.advance := by
  rw [identifier, expect_bind h, get_bind, Parser.current_advance, pure_apply]

lemma identifier_bind (h : p.lookahead.kind = .identifier) (f : Identifier → ParseM β) :
    (identifier >>= f) p = f ⟨p.lookahead, p.lookahead.text⟩ p.advance := by
  rw [bind_apply, identifier_eq_ok h]

end Steps

end Rule

end ScriptSyntax
