import Mathlib.Tactic
import ScriptSyntax.Token.Power
import ScriptSyntax.Tree.Basic

/-!
# Chains of operators

The part of an expression that binary operators make: a binary tree with operators at its nodes and
operands at its leaves.  An operand is any expression, also one that is itself a chain in
parentheses, so that a chain says which operators belong together where a tree alone does not.

## Main statements

* `Chain.Ordered.eq_of_inOrder_eq`: operands and operators in order can be grouped by powers in one
  way only.
-/

namespace ScriptSyntax

/-- Operands joined by binary operators. -/
inductive Chain where
  | operand (e : Expr)
  | node (o : Token) (l r : Chain)

namespace Chain

/-- The expression that a chain makes. -/
def expr : Chain → Expr
  | operand e => e
  | node o l r => .infixOp o o.text l.expr r.expr

/-- The operands and operators of a chain from left to right. -/
def inOrder : Chain → List (Expr ⊕ Token)
  | operand e => [.inl e]
  | node o l r => l.inOrder ++ .inr o :: r.inOrder

/-- The operator at the root of a chain, if it has one. -/
def root? : Chain → Option Token
  | operand _ => none
  | node o _ _ => some o

/-- The operators are grouped by their powers: one that is the left operand of another holds at least
as tight as it, and one that is the right operand holds tighter. -/
inductive Ordered : Chain → Prop where
  | operand {e : Expr} : Ordered (operand e)
  | node {o : Token} {l r : Chain} : Ordered l → Ordered r →
      (∀ u ∈ l.root?, o.kind.power ≤ u.kind.power) → (∀ u ∈ r.root?, o.kind.power < u.kind.power) →
      Ordered (node o l r)

variable {c c' : Chain} {o : Token}

/-- No operator of an ordered chain holds less tight than the one at its root. -/
lemma Ordered.le_of_mem (h : c.Ordered) {power : Power}
    (hroot : ∀ u ∈ c.root?, power ≤ u.kind.power) (ho : .inr o ∈ c.inOrder) :
    power ≤ o.kind.power := by
  induction h with
  | operand => simp [inOrder] at ho
  | @node u l r _ _ hl hr ihl ihr =>
    have hu : power ≤ u.kind.power := hroot u rfl
    rw [inOrder, List.mem_append, List.mem_cons] at ho
    rcases ho with ho | ho | ho
    · exact ihl (fun v hv => Nat.le_trans hu (hl v hv)) ho
    · rwa [Sum.inr.inj ho]
    · exact ihr (fun v hv => Nat.le_trans hu (Nat.le_of_lt (hr v hv))) ho

/-- Behind its root an ordered chain has tighter operators only. -/
lemma Ordered.lt_of_mem (h : c.Ordered) {power : Power}
    (hroot : ∀ u ∈ c.root?, power < u.kind.power) (ho : .inr o ∈ c.inOrder) :
    power < o.kind.power := by
  induction h with
  | operand => simp [inOrder] at ho
  | @node u l r hl' hr' hl hr _ _ =>
    have hmem : u.kind.power ≤ o.kind.power :=
      (Ordered.node hl' hr' hl hr).le_of_mem (fun v hv => by cases hv; exact Nat.le_refl _) ho
    exact Nat.lt_of_lt_of_le (hroot u rfl) hmem

lemma inOrder_ne_nil (c : Chain) : c.inOrder ≠ [] := by
  cases c <;> simp [inOrder]

/-- An operand alone is no node. -/
lemma inOrder_operand_ne (e : Expr) (o : Token) (l r : Chain) :
    (operand e).inOrder ≠ (node o l r).inOrder := by
  intro heq
  have hlen := congrArg List.length heq
  have hl := List.length_pos_iff.2 l.inOrder_ne_nil
  simp only [inOrder, List.length_append, List.length_cons, List.length_nil] at hlen
  omega

/-- Two roots cannot stand on different sides of each other. -/
lemma Ordered.not_crossed {o o' : Token} {l l' r r' : Chain} (h : (Chain.node o l r).Ordered)
    (h' : (Chain.node o' l' r').Ordered) (ho : .inr o ∈ l'.inOrder) (ho' : .inr o' ∈ r.inOrder) :
    False := by
  cases h with
  | node _ hr _ hright =>
    cases h' with
    | node hl' _ hleft' _ =>
      have hle := hl'.le_of_mem hleft' ho
      have hlt := hr.lt_of_mem hright ho'
      exact absurd (Nat.lt_of_lt_of_le hlt hle) (lt_irrefl _)

/-- Operands and operators in order can be grouped by their powers in one way only: the root is the
last operator of the least power. -/
theorem Ordered.eq_of_inOrder_eq (h : c.Ordered) (h' : c'.Ordered)
    (heq : c.inOrder = c'.inOrder) : c = c' := by
  induction h generalizing c' with
  | @operand e =>
    cases h' with
    | operand =>
      simp only [inOrder, List.cons.injEq, Sum.inl.injEq, and_true] at heq
      rw [heq]
    | node => exact absurd heq (inOrder_operand_ne _ _ _ _)
  | @node o l r hl hr hleft hright ihl ihr =>
    cases h' with
    | operand => exact absurd heq.symm (inOrder_operand_ne _ _ _ _)
    | @node o' l' r' hl' hr' hleft' hright' =>
      have hnode := Ordered.node hl hr hleft hright
      have hnode' := Ordered.node hl' hr' hleft' hright'
      rcases List.append_eq_append_iff.1 heq with ⟨as, hfront, hback⟩ | ⟨as, hfront, hback⟩
      all_goals
        cases as with
        | nil =>
          simp only [List.append_nil, List.nil_append, List.cons.injEq, Sum.inr.injEq]
            at hfront hback
          first
          | rw [ihl hl' hfront.symm, ihr hr' hback.2, hback.1]
          | rw [ihl hl' hfront, ihr hr' hback.2.symm, hback.1]
        | cons x as =>
          simp only [List.cons_append, List.cons.injEq] at hback
          obtain ⟨rfl, hback⟩ := hback
          first
          | exact (hnode.not_crossed hnode' (by simp [hfront]) (by simp [hback])).elim
          | exact (hnode'.not_crossed hnode (by simp [hfront]) (by simp [hback])).elim

end Chain

end ScriptSyntax
