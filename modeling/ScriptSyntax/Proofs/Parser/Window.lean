import ScriptSyntax.Proofs.Grammar.Language
import ScriptSyntax.Proofs.Parser.Loop

/-!
# Tokens ahead

What a parser has before it, seen as a list of tokens: `Parser.Faces p ts next` says that `p` has the
tokens `ts` before it and behind them a token of kind `next`, and `Parser.ahead p k` is the parser
that stands `k` tokens further on.

## Main statements

* `Parser.Faces.append`: facing one list behind another is facing the first and, past it, the second.
-/

namespace ScriptSyntax

namespace Parser

/-! ## The tokens of a parser -/

/-- The tokens from the current one on. -/
def tokens (p : Parser) : List Token := p.lexemes.map Lexeme.token

@[simp] lemma tokens_advance (p : Parser) : p.advance.tokens = p.tokens.tail := by
  simp [tokens]

@[simp] lemma current_advance (p : Parser) : p.advance.current = p.lookahead :=
  p.tokenAt_advance 0

lemma kind_current (p : Parser) : p.current.kind = firstKind p.tokens .endOfInput := by
  cases h : p.lexemes <;> simp [current, tokenAt, tokens, h, firstKind, Token.endOfInput]

lemma kind_lookahead (p : Parser) : p.lookahead.kind = firstKind p.tokens.tail .endOfInput := by
  cases h : p.lexemes with
  | nil => simp [lookahead, tokenAt, tokens, h, firstKind, Token.endOfInput]
  | cons l ls => cases ls <;> simp [lookahead, tokenAt, tokens, h, firstKind, Token.endOfInput]

lemma current_eq_of_tokens {p : Parser} {t : Token} {ts : List Token} (h : p.tokens = t :: ts) :
    p.current = t := by
  cases hl : p.lexemes with
  | nil => simp [tokens, hl] at h
  | cons l ls =>
    simp only [tokens, hl, List.map_cons, List.cons.injEq] at h
    simp [current, tokenAt, hl, h.1]

section

variable {p : Parser}

/-- A parser that stands on a token other than the end marker has it as its first token. -/
lemma tokens_eq_cons (h : p.current.kind ≠ .endOfInput) :
    p.tokens = p.current :: p.advance.tokens := by
  cases hp : p.tokens with
  | nil =>
    rw [p.kind_current, hp] at h
    exact absurd rfl h
  | cons t ts => rw [current_eq_of_tokens hp, tokens_advance, hp, List.tail_cons]

/-- Moving the window over a token takes it away. -/
lemma length_advance_lt (h : p.lookahead.kind ≠ .endOfInput) :
    p.advance.lexemes.length < p.lexemes.length := by
  have hne : p.lexemes ≠ [] := fun hnil => h (lookahead_of_lexemes_eq_nil hnil)
  have := List.length_pos_iff.2 hne
  rw [lexemes_advance, List.length_tail]
  omega

end

/-! ## Parsers further on -/

/-- The parser `count` tokens further on. -/
def ahead (p : Parser) : (count : Nat) → Parser
  | 0 => p
  | count + 1 => p.advance.ahead count

@[simp] lemma ahead_zero (p : Parser) : p.ahead 0 = p := rfl

lemma ahead_succ (p : Parser) (k : Nat) : p.ahead (k + 1) = p.advance.ahead k := rfl

lemma ahead_ahead (p : Parser) (j k : Nat) : (p.ahead j).ahead k = p.ahead (j + k) := by
  induction j generalizing p with
  | zero => rw [Nat.zero_add]; rfl
  | succ j ih => rw [Nat.succ_add, ahead_succ, ahead_succ, ih]

lemma advance_ahead (p : Parser) (k : Nat) : (p.ahead k).advance = p.ahead (k + 1) :=
  ahead_ahead p k 1

lemma trail_ahead (p : Parser) (k : Nat) : p.Trail (p.ahead k) := by
  induction k generalizing p with
  | zero => exact .refl
  | succ k ih => exact Trail.refl.advance.trans (ih p.advance)

@[simp] lemma depth_ahead (p : Parser) (k : Nat) : (p.ahead k).depth = p.depth :=
  (p.trail_ahead k).depth_eq

lemma tokens_ahead (p : Parser) (k : Nat) : (p.ahead k).tokens = p.tokens.drop k := by
  induction k generalizing p with
  | zero => rfl
  | succ k ih => rw [ahead_succ, ih, tokens_advance, List.drop_tail]

lemma lexemes_ahead (p : Parser) (k : Nat) : (p.ahead k).lexemes = p.lexemes.drop k := by
  induction k generalizing p with
  | zero => rfl
  | succ k ih => rw [ahead_succ, ih, lexemes_advance, List.drop_tail]

/-- Moving on shifts every token in view. -/
lemma tokenAt_ahead (p : Parser) (k index : Nat) : (p.ahead k).tokenAt index = p.tokenAt (k + index) := by
  induction k generalizing p with
  | zero => rw [Nat.zero_add]; rfl
  | succ k ih => rw [ahead_succ, ih, tokenAt_advance, Nat.add_right_comm]

lemma tokenAt_record (p : Parser) (d : Diagnostic) (index : Nat) :
    (p.record d).tokenAt index = p.tokenAt index := rfl

/-- Skipping moves on to the first boundary there is. -/
lemma synchronize_eq_ahead {p : Parser} {k : Nat} {inBlock : Bool}
    (hstop : (p.ahead k).atBoundary inBlock = true)
    (hpass : ∀ i < k, (p.ahead i).atBoundary inBlock = false) :
    p.synchronize inBlock = p.ahead k := by
  induction k generalizing p with
  | zero => exact (synchronize_eq p inBlock).trans (if_pos hstop)
  | succ k ih =>
    have hhere := hpass 0 (Nat.succ_pos k)
    rw [ahead_zero] at hhere
    rw [synchronize_eq, hhere, if_neg Bool.false_ne_true, ahead_succ]
    exact ih hstop fun i hi => hpass (i + 1) (Nat.succ_lt_succ hi)

/-- Moving on does not read the nesting. -/
lemma ahead_with_depth (p : Parser) (depth k : Nat) :
    ({ p with depth := depth } : Parser).ahead k = { p.ahead k with depth := depth } := by
  induction k generalizing p with
  | zero => rfl
  | succ k ih => exact ih p.advance

/-- Where the window has moved on, what is wrong with the tokens it has come to is told. -/
lemma diagnostics_ahead_eq (p : Parser) (k : Nat) :
    (p.ahead k).diagnostics.toList =
      p.diagnostics.toList ++ (p.lexemes.tail.take k).filterMap Lexeme.diagnostic? := by
  induction k generalizing p with
  | zero => simp
  | succ k ih =>
    have hadv : p.advance.diagnostics.toList =
        p.diagnostics.toList ++ p.lexemes[1]?.toList.filterMap Lexeme.diagnostic? := by
      simp [advance]
    rw [ahead_succ, ih, hadv, lexemes_advance, List.append_assoc, ← List.filterMap_append]
    congr 2
    rw [← List.getElem?_tail]
    cases p.lexemes.tail with
    | nil => simp
    | cons l ls => simp

/-- Over complete tokens the window moves without a diagnostic. -/
lemma diagnostics_ahead {p : Parser} {k : Nat}
    (h : ∀ l ∈ p.lexemes.tail.take k, l.closed = true) :
    (p.ahead k).diagnostics = p.diagnostics := by
  rw [← Array.toList_inj, diagnostics_ahead_eq, List.append_right_eq_self, List.filterMap_eq_nil_iff]
  intro l hl
  rw [Lexeme.diagnostic?, if_pos (h l hl)]

/-! ## Facing tokens -/

/-- The parser has the tokens `ts` before it, and then a token of kind `next`. -/
def Faces (p : Parser) (ts : List Token) (next : TokenKind) : Prop :=
  ∃ rest, p.tokens = ts ++ rest ∧ firstKind rest .endOfInput = next

namespace Faces

variable {p : Parser} {t : Token} {ts us : List Token} {next : TokenKind}

lemma kind_current (h : p.Faces ts next) : p.current.kind = firstKind ts next := by
  obtain ⟨rest, hts, rfl⟩ := h
  rw [p.kind_current, hts, firstKind_append]

lemma current_eq (h : p.Faces (t :: ts) next) : p.current = t := by
  obtain ⟨rest, hts, -⟩ := h
  exact current_eq_of_tokens hts

lemma kind_lookahead (h : p.advance.Faces ts next) : p.lookahead.kind = firstKind ts next := by
  obtain ⟨rest, hts, rfl⟩ := h
  rw [p.kind_lookahead, ← tokens_advance, hts, firstKind_append]

lemma lookaheadIs (h : p.advance.Faces ts next) (kind : TokenKind) :
    p.lookaheadIs kind = (firstKind ts next == kind) := by
  rw [Parser.lookaheadIs, h.kind_lookahead]

lemma advance (h : p.Faces (t :: ts) next) : p.advance.Faces ts next := by
  obtain ⟨rest, hts, hnext⟩ := h
  exact ⟨rest, by simp [hts], hnext⟩

/-- Facing one list behind another is facing the first and, past it, the second. -/
theorem append (h : p.Faces (ts ++ us) next) :
    p.Faces ts (firstKind us next) ∧ (p.ahead ts.length).Faces us next := by
  obtain ⟨rest, hts, rfl⟩ := h
  refine ⟨⟨us ++ rest, by rw [hts, List.append_assoc], firstKind_append ..⟩, rest, ?_, rfl⟩
  rw [tokens_ahead, hts, List.append_assoc, List.drop_left]

/-- The parser on the last of `ts` has `us` behind its current token. -/
lemma last (h : p.Faces (ts ++ us) next) (hts : 0 < ts.length) :
    (p.ahead (ts.length - 1)).advance.Faces us next := by
  rw [advance_ahead, Nat.sub_add_cancel hts]
  exact h.append.2

/-- Past `ts` comes what is behind them. -/
lemma past (h : p.Faces ts next) : (p.ahead ts.length).Faces [] next := by
  rw [← List.append_nil ts] at h
  simpa using h.append.2

lemma left (h : p.Faces (ts ++ us) next) : p.Faces ts (firstKind us next) := h.append.1

lemma right (h : p.Faces (ts ++ us) next) : (p.ahead ts.length).Faces us next := h.append.2

end Faces

end Parser

end ScriptSyntax
