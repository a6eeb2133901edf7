import Mathlib.Tactic
import ScriptSyntax.Parser.Program

/-!
# What a rule may do to a parser

Whatever a rule reads and however it ends, it does two things to a parser only: it moves the window
forward, and it records diagnostics.  `Parser.Trail p q` says that `q` comes from `p` in this way, and
the class `Rule.Moves` holds of the rules that leave such a trail on every parser.  The class is
closed under the combinators that rules are written with, so that the instances below follow the
text of the rules, and instance search finds the same fact for any part of a rule.

Everything that no rule can undo is a fact about trails.

## Main statements

* `Parser.Trail.lexemes_isSuffix`, `Parser.Trail.depth_eq`, `Parser.Trail.diagnostics_isPrefix`:
  along a trail the window only moves forward, the nesting is kept, and diagnostics are only added.
* `Rule.moves_expressionAt`, `Rule.statements_trail`: every expression and every list of statements
  is read along a trail.
-/

namespace ScriptSyntax

/-! ## Trails -/

namespace Parser

/-- The parser `q` comes from `p` by moving the window and recording diagnostics. -/
inductive Trail (p : Parser) : Parser → Prop where
  | refl : Trail p p
  | advance {q : Parser} : Trail p q → Trail p q.advance
  | record {q : Parser} (d : Diagnostic) : Trail p q → Trail p (q.record d)

namespace Trail

variable {p q r : Parser}

lemma trans (h : p.Trail q) (h' : q.Trail r) : p.Trail r := by
  induction h' with
  | refl => exact h
  | advance _ ih => exact ih.advance
  | record d _ ih => exact ih.record d

/-- The window only moves forward. -/
theorem lexemes_isSuffix (h : p.Trail q) : q.lexemes <:+ p.lexemes := by
  induction h with
  | refl => exact List.suffix_refl _
  | advance _ ih => exact (List.tail_suffix _).trans ih
  | record d _ ih => exact ih

/-- The nesting is kept. -/
theorem depth_eq (h : p.Trail q) : q.depth = p.depth := by
  induction h with
  | refl => rfl
  | advance _ ih => exact ih
  | record d _ ih => exact ih

lemma finish_eq (h : p.Trail q) : q.finish = p.finish := by
  induction h with
  | refl => rfl
  | advance _ ih => exact ih
  | record d _ ih => exact ih

/-- Diagnostics are only added, and behind those that are there. -/
theorem diagnostics_isPrefix (h : p.Trail q) :
    p.diagnostics.toList <+: q.diagnostics.toList := by
  induction h with
  | refl => exact List.prefix_refl _
  | advance _ ih => exact ih.trans (by simp [Parser.advance])
  | record d _ ih => exact ih.trans (by simp [Parser.record])

/-- What is wrong with a token by itself has been told once the window is past it. -/
theorem mem_diagnostics (h : p.Trail q) {l : Lexeme} {d : Diagnostic} (hl : l ∈ p.lexemes.tail)
    (hd : l.diagnostic? = some d) : l ∈ q.lexemes.tail ∨ d ∈ q.diagnostics := by
  induction h with
  | refl => exact .inl hl
  | @advance q _ ih =>
    rcases ih with hmem | hmem
    · cases htail : q.lexemes.tail with
      | nil => rw [htail] at hmem; exact absurd hmem List.not_mem_nil
      | cons l' ls =>
        rw [htail, List.mem_cons] at hmem
        rcases hmem with rfl | hmem
        · right
          have hsecond : q.lexemes[1]? = some l := by
            rw [← List.getElem?_tail, htail]
            rfl
          simp [Parser.advance, hsecond, hd]
        · left
          rwa [Parser.lexemes_advance, htail]
    · exact .inr (Array.mem_toList_iff.1
        ((Trail.refl.advance).diagnostics_isPrefix.subset (Array.mem_toList_iff.2 hmem)))
  | record d' _ ih =>
    rcases ih with hmem | hmem
    · exact .inl hmem
    · exact .inr (Array.mem_toList_iff.1
        ((Trail.refl.record d').diagnostics_isPrefix.subset (Array.mem_toList_iff.2 hmem)))

lemma synchronize (h : p.Trail q) (inBlock : Bool) : p.Trail (q.synchronize inBlock) :=
  synchronize_induction (motive := fun r => p.Trail r) (fun _ hr => hr.advance) h

/-- A trail does not read the nesting: the same steps lead on from any other depth. -/
lemma of_depth {depth : Nat} (h : Trail { p with depth := depth } q) :
    p.Trail { q with depth := p.depth } := by
  induction h with
  | refl => exact refl
  | advance _ ih => exact ih.advance
  | record d _ ih => exact ih.record d

end Trail

end Parser

namespace Rule

/-! ## Rules that leave a trail -/

/-- The parser that a rule leaves behind, whether it failed or not. -/
def final {α : Type} : EStateM.Result Diagnostic Parser α → Parser
  | .ok _ q | .error _ q => q

/-- A rule that leaves a trail on every parser. -/
class Moves {α : Type} (rule : ParseM α) : Prop where
  moves : ∀ p : Parser, p.Trail (final (rule p))

lemma Moves.trail {α : Type} (rule : ParseM α) [h : Moves rule] (p : Parser) :
    p.Trail (final (rule p)) := h.moves p

lemma Moves.ok {α : Type} (rule : ParseM α) [Moves rule] {p q : Parser} {a : α}
    (h : rule p = .ok a q) : p.Trail q := by
  simpa [h, final] using Moves.trail rule p

lemma Moves.error {α : Type} (rule : ParseM α) [Moves rule] {p q : Parser} {d : Diagnostic}
    (h : rule p = .error d q) : p.Trail q := by
  simpa [h, final] using Moves.trail rule p

lemma bind_apply {α β : Type} (x : ParseM α) (f : α → ParseM β) (p : Parser) :
    (x >>= f) p =
      match x p with
      | .ok a q => f a q
      | .error d q => .error d q := by
  simp only [bind, EStateM.bind]
  cases x p <;> rfl

lemma map_apply {α β : Type} (g : α → β) (x : ParseM α) (p : Parser) :
    (g <$> x) p =
      match x p with
      | .ok a q => .ok (g a) q
      | .error d q => .error d q := by
  simp only [Functor.map, EStateM.map]
  cases x p <;> rfl

lemma get_apply (p : Parser) : (get : ParseM Parser) p = .ok p p := rfl

lemma pure_apply {α : Type} (a : α) (p : Parser) : (pure a : ParseM α) p = .ok a p := rfl

lemma throw_apply {α : Type} (d : Diagnostic) (p : Parser) :
    (throw d : ParseM α) p = .error d p := rfl

section Combinators

variable {α β : Type}

instance (a : α) : Moves (pure a : ParseM α) := ⟨fun _ => .refl⟩

instance (d : Diagnostic) : Moves (throw d : ParseM α) := ⟨fun _ => .refl⟩

instance : Moves (get : ParseM Parser) := ⟨fun _ => .refl⟩

instance : Moves advance := ⟨fun _ => Parser.Trail.refl.advance⟩

instance (x : ParseM α) (f : α → ParseM β) [hx : Moves x] [hf : ∀ a, Moves (f a)] :
    Moves (x >>= f) where
  moves p := by
    rw [bind_apply]
    cases h : x p with
    | ok a q => exact (hx.ok x h).trans ((hf a).moves q)
    | error d q => exact hx.error x h

instance (g : α → β) (x : ParseM α) [hx : Moves x] : Moves (g <$> x) where
  moves p := by
    rw [map_apply]
    cases h : x p with
    | ok a q => exact hx.ok x h
    | error d q => exact hx.error x h

instance (c : Prop) [Decidable c] (x y : ParseM α) [hx : Moves x] [hy : Moves y] :
    Moves (if c then x else y) := by
  split <;> assumption

instance (x : ParseM α) [hx : Moves x] : Moves (nested x) where
  moves p := by
    rw [nested_apply]
    split
    · cases h : x { p with depth := p.depth + 1 } with
      | ok a q =>
        have hq := hx.ok x h
        have hd : q.leaveNesting = { q with depth := p.depth } := by
          simp [Parser.leaveNesting, hq.depth_eq]
        simpa [final, hd] using hq.of_depth
      | error d q =>
        have hq := hx.error x h
        have hd : q.leaveNesting = { q with depth := p.depth } := by
          simp [Parser.leaveNesting, hq.depth_eq]
        simpa [final, hd] using hq.of_depth
    · exact .refl

end Combinators

/-! ## The rules -/

instance (kind : TokenKind) : Moves (expect kind) := by unfold expect; infer_instance

instance : Moves expectEnd := by unfold expectEnd; infer_instance

instance : Moves identifier := by unfold identifier; infer_instance

instance : Moves literal where
  moves p := by
    simp only [literal, bind_apply, get_apply]
    cases Expr.ofToken p.current <;> exact .refl

section Statements

variable (sub : Subparser) [∀ power, Moves (sub power)]

instance : Moves (letStatement sub) := by unfold letStatement; infer_instance

instance : Moves (returnValue sub) := by unfold returnValue; infer_instance

instance : Moves (returnStatement sub) := by unfold returnStatement; infer_instance

instance : Moves (expressionStatement sub) := by unfold expressionStatement; infer_instance

instance (kind : TokenKind) : Moves ((statement? sub kind).getD (expressionStatement sub)) := by
  unfold statement?
  split <;> simp only [Option.getD_some, Option.getD_none] <;> infer_instance

instance : Moves (statement sub) := by unfold statement; infer_instance

/-- A list of statements is read along a trail. -/
theorem statements_trail (inBlock : Bool) (rounds : List Lexeme) (p : Parser) :
    p.Trail (statements sub inBlock rounds p).2 := by
  induction rounds generalizing p with
  | nil => exact .refl
  | cons _ rounds ih =>
    unfold statements
    split
    · exact .refl
    · split
      · rename_i s q h
        exact ((Moves.ok _ h).advance).trans (ih q.advance)
      · rename_i d q h
        have hq := (Moves.error _ h).record d
        split
        · exact hq
        · exact ((hq.synchronize inBlock).advance).trans (ih _)

instance : Moves (blockBody sub) := ⟨fun p => statements_trail sub true p.lexemes p⟩

instance : Moves (block sub) := by unfold block; infer_instance

end Statements

section Expressions

variable (sub : Subparser) [hsub : ∀ power, Moves (sub power)]

instance : Moves (prefixed sub) := by unfold prefixed; infer_instance

instance : Moves (group sub) := by unfold group; infer_instance

instance : Moves (alternative sub) := by unfold alternative; infer_instance

set_option synthInstance.maxSize 512 in
instance : Moves (conditional sub) := by unfold conditional; infer_instance

instance (rounds : List Lexeme) : Moves (moreIdentifiers rounds) := by
  induction rounds with
  | nil => unfold moreIdentifiers; infer_instance
  | cons _ rounds ih => unfold moreIdentifiers; infer_instance

instance : Moves parameters := by unfold parameters; infer_instance

instance : Moves (function sub) := by unfold function; infer_instance

instance (rounds : List Lexeme) : Moves (moreItems sub rounds) := by
  induction rounds with
  | nil => unfold moreItems; infer_instance
  | cons _ rounds ih => unfold moreItems; infer_instance

instance (close : TokenKind) : Moves (items sub close) := by unfold items; infer_instance

instance : Moves (array sub) := by unfold array; infer_instance

omit hsub in
/-- The rules for operands, and the tokens that each of them starts with. -/
lemma operand?_eq_some {kind : TokenKind} {rule : ParseM Expr} (h : operand? sub kind = some rule) :
    (kind ∈ [.identifier, .integer, .string, .trueWord, .falseWord] ∧ rule = literal) ∨
      ((kind = .bang ∨ kind = .minus) ∧ rule = prefixed sub) ∨
      (kind = .leftParen ∧ rule = group sub) ∨ (kind = .ifWord ∧ rule = conditional sub) ∨
      (kind = .fnWord ∧ rule = function sub) ∨ (kind = .leftBracket ∧ rule = array sub) := by
  cases kind <;> simp only [operand?, Option.some.injEq, reduceCtorEq] at h <;> subst h <;> simp

lemma moves_operand {kind : TokenKind} {rule : ParseM Expr} (h : operand? sub kind = some rule) :
    Moves rule := by
  cases kind <;> simp only [operand?, Option.some.injEq, reduceCtorEq] at h <;> subst h <;>
    infer_instance

instance (left : Expr) (power : Power) : Moves (infixed sub left power) := by
  unfold infixed; infer_instance

instance (left : Expr) : Moves (call sub left) := by unfold call; infer_instance

instance (left : Expr) : Moves (index sub left) := by unfold index; infer_instance

omit hsub in
/-- The rules for operators, and the tokens that each of them starts with. -/
lemma operator?_eq_some {kind : TokenKind} {rule : Expr → Power → ParseM Expr}
    (h : operator? sub kind = some rule) :
    (kind ∈ [.equal, .notEqual, .less, .greater, .plus, .minus, .asterisk, .slash] ∧
        rule = infixed sub) ∨
      (kind = .leftParen ∧ rule = fun left _ => call sub left) ∨
      (kind = .leftBracket ∧ rule = fun left _ => index sub left) := by
  cases kind <;> simp only [operator?, Option.some.injEq, reduceCtorEq] at h <;> subst h <;> simp

lemma moves_operator {kind : TokenKind} {rule : Expr → Power → ParseM Expr}
    (h : operator? sub kind = some rule) (left : Expr) (power : Power) :
    Moves (rule left power) := by
  cases kind <;> simp only [operator?, Option.some.injEq, reduceCtorEq] at h <;> subst h <;>
    infer_instance

instance (power : Power) (rounds : List Lexeme) (left : Expr) :
    Moves (operators sub power rounds left) := by
  induction rounds generalizing left with
  | nil => unfold operators; infer_instance
  | cons _ rounds ih =>
    constructor
    intro p
    simp only [operators, bind_apply, get_apply]
    split
    · cases hrule : operator? sub p.lookahead.kind with
      | none => exact .refl
      | some rule =>
        have := moves_operator sub hrule
        exact Moves.trail (do
          advance
          let combined ← rule left p.lookahead.kind.power
          operators sub power rounds combined) p
    · exact .refl

instance (power : Power) : Moves (chain sub power) where
  moves p := by
    simp only [chain, bind_apply, get_apply]
    cases hrule : operand? sub p.current.kind with
    | none => exact .refl
    | some rule =>
      have := moves_operand sub hrule
      exact Moves.trail (do
        let left ← rule
        operators sub power (← get).lexemes left) p

end Expressions

/-- An expression is read along a trail. -/
instance moves_expressionAt (levels : Nat) (power : Power) : Moves (expressionAt levels power) := by
  induction levels generalizing power with
  | zero => exact ⟨fun _ => .refl⟩
  | succ levels ih => unfold expressionAt; infer_instance

instance (power : Power) : Moves (expression power) := by
  unfold expression; infer_instance

end Rule

end ScriptSyntax
