import ScriptSyntax.Proofs.Parser.Outcome

/-!
# Parses that end well

A parse that ends well went through steps that ended well.  The lemmas below take it apart into these,
one for each way in which rules are put together.

## Main statements

* `Rule.bind_eq_ok_iff`: a sequence of two parses ends well if both of them do.
* `Rule.nested_eq_ok`: so does a parse one level further in.
-/

namespace ScriptSyntax

namespace Rule

variable {α β : Type} {x : ParseM α} {f : α → ParseM β} {p q r : Parser} {a a' : α} {b : β}
  {kind : TokenKind}

/-- A sequence of two parses ends well if both of them do. -/
theorem bind_eq_ok_iff : (x >>= f) p = .ok b r ↔ ∃ a q, x p = .ok a q ∧ f a q = .ok b r := by
  rw [bind_apply]
  cases x p with
  | ok a q =>
    refine ⟨fun h => ⟨a, q, rfl, h⟩, ?_⟩
    rintro ⟨a', q', hx, hf⟩
    cases hx
    exact hf
  | error d q => simp

lemma pure_eq_ok_iff : (pure a : ParseM α) p = .ok a' q ↔ a = a' ∧ p = q := by
  rw [pure_apply, EStateM.Result.ok.injEq]

lemma map_eq_ok_iff {g : α → β} : (g <$> x) p = .ok b q ↔ ∃ a, x p = .ok a q ∧ g a = b := by
  rw [map_apply]
  cases x p with
  | ok a q' => simp [and_comm]
  | error d q' => simp

/-- Insisting on a token and going on. -/
lemma expect_bind_eq_ok_iff {f : Unit → ParseM β} :
    (expect kind >>= f) p = .ok b r ↔ p.lookahead.kind = kind ∧ f () p.advance = .ok b r := by
  by_cases h : p.lookahead.kind = kind
  · rw [expect_bind h, and_iff_right h]
  · rw [bind_apply, expect_apply, if_neg (by simpa [Parser.lookaheadIs] using h)]
    simp [h]

lemma identifier_bind_eq_ok_iff {f : Identifier → ParseM β} :
    (identifier >>= f) p = .ok b r ↔
      p.lookahead.kind = .identifier ∧ f ⟨p.lookahead, p.lookahead.text⟩ p.advance = .ok b r := by
  by_cases h : p.lookahead.kind = .identifier
  · rw [identifier_bind h, and_iff_right h]
  · rw [identifier, bind_apply, bind_apply, expect_apply,
      if_neg (by simpa [Parser.lookaheadIs] using h)]
    simp [h]

/-- A parse one level further in ends well if it does so there. -/
theorem nested_eq_ok (h : nested x p = .ok a r) :
    ∃ q, x { p with depth := p.depth + 1 } = .ok a q ∧ r = q.leaveNesting := by
  rw [nested_apply] at h
  split at h
  · generalize x { p with depth := p.depth + 1 } = y at h
    cases y with
    | ok a' q =>
      cases h
      exact ⟨q, rfl, rfl⟩
    | error d q => cases h
  · cases h

end Rule

end ScriptSyntax
