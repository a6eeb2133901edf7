import ScriptSyntax.Proofs.Operations
import ScriptSyntax.Proofs.Parser.Window
import Mathlib.Data.Nat.Find
import Mathlib.Order.Bounds.Defs

/-!
# Recovery

When a statement has failed, the parser gives up the tokens up to a place where the next one may begin:
a semicolon, the last token of the source, or inside a block the last token in front of a closing brace.
What such a place is can be read off the tokens alone, `Supply.IsBoundary`, and recovery goes to the
first one there is.  It goes there token by token, so what is wrong with a string that it comes to is
told as it is anywhere else.

## Main statements

* `Parser.WindowAt.faultsAhead_eq`: which tokens are told of when the window moves on.
* `Operation.exists_windowAt_run`: whatever was asked of a parser, its window is on the tokens that its
  scanner had to yield.
* `Parser.synchronize_stops_first`: recovery ends at the first boundary, and tells of the tokens on the
  way.
-/

namespace ScriptSyntax

/-! ## Tokens without end -/

/-- What a parser is supplied with: one token after the other without end, and what is wrong with each of
them by itself. -/
structure Supply where
  token : ℕ → Token
  fault? : ℕ → Option Diagnostic

/-- What a scanner has still to yield; behind its last token that is the end marker, for ever. -/
def Scanner.supply (s : Scanner) : Supply := ⟨s.yielded, s.fault?⟩

namespace Supply

/-- Whether a faulty statement may be given up with the token at `index` as the current one: it is a
semicolon or the end marker, or the end marker is next, or a closing brace is next and the statement
stands in a block. -/
def IsBoundary (S : Supply) (inBlock : Bool) (index : ℕ) : Prop :=
  (S.token index).kind = .semicolon ∨ (S.token index).kind = .endOfInput ∨
    (S.token (index + 1)).kind = .endOfInput ∨
      inBlock = true ∧ (S.token (index + 1)).kind = .rightBrace

instance (S : Supply) (inBlock : Bool) : DecidablePred (S.IsBoundary inBlock) := fun _ =>
  inferInstanceAs (Decidable (_ ∨ _ ∨ _ ∨ _ ∧ _))

end Supply

/-! ## The window on a supply -/

namespace Parser

/-- Moving on tells what is wrong with the tokens that become current. -/
lemma turns_ahead (p : Parser) (count : ℕ) : p.Turns (p.ahead count) count (p.faultsAhead count) :=
  ⟨p.lexemes_ahead count, (p.trail_ahead count).finish_eq, p.diagnostics_ahead_eq count⟩

/-- The window of the parser is at the place `k` of the supply: the current token is the one there, the
lookahead the one behind it, and so on.  What is wrong with the current token by itself has been told, so
nothing is asked of that. -/
structure WindowAt (p : Parser) (S : Supply) (k : ℕ) : Prop where
  tokenAt_eq : ∀ i, p.tokenAt i = S.token (k + i)
  heldBack_eq : ∀ i, 0 < i → p.lexemes[i]?.bind Lexeme.diagnostic? = S.fault? (k + i)

/-- What a parser has before it, the current token included. -/
def supply (p : Parser) : Supply := ⟨p.tokenAt, fun i => p.lexemes[i]?.bind Lexeme.diagnostic?⟩

/-- A parser is supplied with what its scanner had to yield. -/
lemma supply_ofScanner (s : Scanner) : (ofScanner s).supply = s.supply := by
  rw [supply, Scanner.supply, Supply.mk.injEq]
  exact ⟨funext fun i => (s.yielded_eq i).1.symm, funext fun i => (s.yielded_eq i).2.symm⟩

/-- Every parser has its window on the first of the tokens before it. -/
lemma windowAt_supply (p : Parser) : p.WindowAt p.supply 0 where
  tokenAt_eq i := by rw [Nat.zero_add]; rfl
  heldBack_eq i _ := by rw [Nat.zero_add]; rfl

lemma windowAt_ofScanner (s : Scanner) : (ofScanner s).WindowAt s.supply 0 :=
  supply_ofScanner s ▸ windowAt_supply _

namespace WindowAt

variable {p q : Parser} {S : Supply} {k : ℕ}

/-- Where the window goes, it stays on the supply. -/
lemma of_turns (h : p.WindowAt S k) {count : ℕ} {told : List Diagnostic}
    (hq : p.Turns q count told) : q.WindowAt S (k + count) where
  tokenAt_eq i := by
    rw [tokenAt, hq.lexemes_eq, hq.finish_eq, List.getElem?_drop, Nat.add_assoc]
    exact h.tokenAt_eq (count + i)
  heldBack_eq i hi := by
    rw [hq.lexemes_eq, List.getElem?_drop, Nat.add_assoc]
    exact h.heldBack_eq (count + i) (Nat.add_pos_right count hi)

/-- Recovery stays where it is at a boundary, and nowhere else. -/
lemma atBoundary_iff (h : p.WindowAt S k) (inBlock : Bool) :
    p.atBoundary inBlock = true ↔ S.IsBoundary inBlock k := by
  have hcurrent : p.current = S.token k := h.tokenAt_eq 0
  have hlookahead : p.lookahead = S.token (k + 1) := h.tokenAt_eq 1
  simp [atBoundary, lookaheadIs, Token.isOneOf, Supply.IsBoundary, hcurrent, hlookahead, or_assoc]

lemma ahead (h : p.WindowAt S k) (count : ℕ) : (p.ahead count).WindowAt S (k + count) :=
  h.of_turns (p.turns_ahead count)

/-- When the window moves on by one token, what the supply has wrong with that token is told. -/
lemma faultsAhead_one (h : p.WindowAt S k) : p.faultsAhead 1 = [k + 1].filterMap S.fault? := by
  have hnext : p.lexemes.tail[0]?.bind Lexeme.diagnostic? = S.fault? (k + 1) := by
    rw [List.getElem?_tail, h.heldBack_eq 1 Nat.one_pos]
  rw [faultsAhead]
  cases hl : p.lexemes.tail <;> simp [← hnext, hl, List.filterMap_cons]

/-- When it moves on by `count` tokens, what the supply has wrong with them is told, one after the
other. -/
theorem faultsAhead_eq (h : p.WindowAt S k) (count : ℕ) :
    p.faultsAhead count = (List.range' (k + 1) count).filterMap S.fault? := by
  induction count with
  | zero => rfl
  | succ count ih =>
    rw [(p.turns_ahead count).faultsAhead_add, ih, (h.ahead count).faultsAhead_one,
      ← List.filterMap_append, Nat.add_right_comm, ← List.range'_1_concat]

/-- The tokens come to an end, and the end is a boundary. -/
lemma exists_isBoundary (h : p.WindowAt S k) (inBlock : Bool) :
    ∃ count, S.IsBoundary inBlock (k + count) := by
  have hnil : (p.ahead p.lexemes.length).lexemes = [] := by rw [lexemes_ahead, List.drop_length]
  exact ⟨p.lexemes.length,
    ((h.ahead _).atBoundary_iff inBlock).1 (atBoundary_of_lexemes_eq_nil hnil inBlock)⟩

end WindowAt

end Parser

/-- Whatever was asked of a parser, its window is on the tokens that its scanner had to yield. -/
theorem Operation.exists_windowAt_run (s : Scanner) (ops : List Operation) :
    ∃ k, (run ops (.ofScanner s)).WindowAt s.supply k := by
  obtain ⟨count, -, -, hrun⟩ := exists_turns_run ops (.ofScanner s)
  have hturns := (hrun ops.length).1
  rw [List.take_length] at hturns
  exact ⟨_, (Parser.windowAt_ofScanner s).of_turns hturns⟩

/-! ## Recovery -/

namespace Parser

variable {p : Parser} {S : Supply} {k : ℕ}

/-- Recovery ends at the first boundary.  From the place `k` the window goes one token at a time to the
least place `j` that is a boundary, what is wrong with the tokens on the way is told in order, each once,
and no level of nesting is entered or left. -/
theorem synchronize_stops_first (h : p.WindowAt S k) (inBlock : Bool) :
    ∃ j, IsLeast {i | k ≤ i ∧ S.IsBoundary inBlock i} j ∧
      p.synchronize inBlock = p.ahead (j - k) ∧
      (p.synchronize inBlock).WindowAt S j ∧
      (p.synchronize inBlock).diagnostics.toList =
        p.diagnostics.toList ++ (List.range' (k + 1) (j - k)).filterMap S.fault? ∧
      (p.synchronize inBlock).depth = p.depth := by
  -- counted from the window, the place of the first boundary is the number of tokens to move on by
  obtain ⟨count, hstop, hpass⟩ : ∃ count, S.IsBoundary inBlock (k + count) ∧
      ∀ i < count, ¬S.IsBoundary inBlock (k + i) :=
    ⟨_, Nat.find_spec (h.exists_isBoundary inBlock), fun _ => Nat.find_min _⟩
  have hsynchronize : p.synchronize inBlock = p.ahead count := by
    refine synchronize_eq_ahead (((h.ahead count).atBoundary_iff inBlock).2 hstop) fun i hi => ?_
    rw [← Bool.not_eq_true, (h.ahead i).atBoundary_iff inBlock]
    exact hpass i hi
  refine ⟨k + count, ⟨⟨Nat.le_add_right k count, hstop⟩, ?_⟩, ?_⟩
  · rintro i ⟨hki, hi⟩
    obtain ⟨further, rfl⟩ := Nat.exists_eq_add_of_le hki
    exact Nat.add_le_add_left (not_lt.1 fun hlt => hpass further hlt hi) k
  · rw [Nat.add_sub_cancel_left, hsynchronize, ← h.faultsAhead_eq]
    exact ⟨rfl, h.ahead count, (p.turns_ahead count).diagnostics_eq, p.depth_ahead count⟩

/-- A block with a faulty statement in it, and a string behind it that no quote closes. -/
def brokenLet : Scanner := .ofSource "fn() \x7b let x y \x7d \"z" none

/-- In `let x y` the window is on `x` where the lookahead turns out to be no `=`.  Outside of a block
recovery goes over the brace to the last token. -/
theorem synchronize_stops_first_brokenLet :
    ((ofScanner brokenLet).ahead 5).WindowAt brokenLet.supply 5 ∧
      IsLeast {i | 5 ≤ i ∧ brokenLet.supply.IsBoundary false i} 8 ∧
      ((ofScanner brokenLet).ahead 5).synchronize false = (ofScanner brokenLet).ahead 8 ∧
      ((ofScanner brokenLet).ahead 8).WindowAt brokenLet.supply 8 ∧
      ((ofScanner brokenLet).ahead 8).diagnostics.toList =
        [⟨.unterminatedString "z", ⟨17, "shell"⟩⟩] ∧
      ((ofScanner brokenLet).ahead 8).depth = 0 := by
  have h : ((ofScanner brokenLet).ahead 5).WindowAt brokenLet.supply 5 :=
    (windowAt_ofScanner brokenLet).ahead 5
  obtain ⟨j, hleast, hahead, hwindow, htold, hdepth⟩ := synchronize_stops_first h false
  obtain rfl : j = 8 := by
    have hle : j ≤ 8 := hleast.2 ⟨by decide, by decide⟩
    have hpass : ∀ i < 8, 5 ≤ i → ¬brokenLet.supply.IsBoundary false i := by decide
    exact hle.antisymm (not_lt.1 fun hlt => hpass j hlt hleast.1.1 hleast.1.2)
  rw [ahead_ahead] at hahead
  rw [hahead] at hwindow htold hdepth
  exact ⟨h, hleast, hahead, hwindow, htold.trans (by decide), hdepth⟩

end Parser

end ScriptSyntax
