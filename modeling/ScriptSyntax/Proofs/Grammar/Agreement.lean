import ScriptSyntax.Proofs.Grammar.Reading
import ScriptSyntax.Proofs.Tree.Chain

/-!
# Readings and the language

The language leaves the operators of an expression in one flat chain, and a reading groups them by
their powers.  Both are about the same tokens: a reading is a derivation once its groups are
forgotten, and every chain of operands and operators can be grouped.

Grouping goes as operator precedence does.  From an operand on, the operators that hold tighter than
a given power are taken one after the other, and each takes for its right operand what holds tighter
than itself.  So a chain is split, at every power, into what is taken and what is left
(`exists_climbs`), and since there are few powers, few levels of nesting are taken.

## Main statements

* `Grammar.exists_climbs`: a chain is read as a tree that is ordered by powers.
* `Grammar.isProgram_iff_exists_reads`: the programs of the language are the lists of tokens that
  can be read as statements.
-/

namespace ScriptSyntax

namespace Grammar

/-! ## Powers -/

lemma power_of_mem_binaryOperators {kind : TokenKind} (h : kind ∈ binaryOperators) :
    .lowest < kind.power ∧ kind.power < .unary := by
  revert h
  cases kind <;> decide

lemma power_eq_lowest_iff {kind : TokenKind} : kind.power = .lowest ↔ kind ∉ continuations := by
  cases kind <;> decide

lemma not_lowest_lt_iff {power : Power} : ¬.lowest < power ↔ power = .lowest := by
  cases power <;> decide

/-- Nothing in front of an operator holds tighter than it. -/
lemma not_unary_lt_of_not_lt {power : Power} {kind : TokenKind} (h : ¬power < kind.power)
    (hpower : power < .unary) : ¬.unary < kind.power := by
  rw [Power.lt_iff_rank] at h hpower ⊢
  omega

variable {n m : Nat} {power : Power} {e l : Expr} {ts us : List Token} {next : TokenKind}

/-- A reading ends where what follows holds no tighter. -/
theorem Reads.not_lt {phrase : Phrase} (h : Reads n phrase ts next) :
    match phrase with
    | .expression power _ | .operators power _ _ => ¬power < next.power
    | _ => True := by
  induction h with
  | expression _ _ _ ih => exact ih
  | operatorsEnd h => exact h
  | infixed _ _ _ _ _ ih | call _ _ _ _ _ _ ih | index _ _ _ _ _ _ ih => exact ih
  | _ => trivial

/-! ## From readings to derivations -/

/-- An operator between two expressions makes an expression of them. -/
lemma Derives.infixed {o : Token} (hts : Derives .expression ts) (ho : o.kind ∈ binaryOperators)
    (hus : Derives .expression us) : Derives .expression (ts ++ o :: us) := by
  have hops : ∀ vs, Derives .operations vs → Derives .operations (vs ++ o :: us) := by
    intro vs hvs
    generalize hsym : Symbol.operations = symbol at hvs
    induction hvs with
    | noOperation =>
      cases hus with
      | expression hx hops => exact .operations ho hx hops
    | operations ho' hx _ _ ih =>
      rw [List.cons_append, List.append_assoc]
      exact .operations ho' hx (ih rfl)
    | _ => cases hsym
  cases hts with
  | expression hx hvs =>
    rw [List.append_assoc]
    exact .expression hx (hops _ hvs)

lemma Derives.expression_of_operand (h : Derives .operand ts) : Derives .expression ts := by
  simpa using Derives.expression h .noOperation

/-- What the tokens of a phrase are in the language, in front of a token of kind `next`.  Operators
have no symbol of their own: they extend the expression in front of them. -/
def Phrase.Derived (ts : List Token) (next : TokenKind) : Phrase → Prop
  | .expression power _ =>
    Derives .expression ts ∧ (¬power < .unary → Derives .operand ts)
  | .operand _ => Derives .primary ts ∨ Derives .operand ts ∧ ¬.unary < next.power
  | .operators power _ _ =>
    (∀ vs, Derives .applied vs →
      Derives .expression (vs ++ ts) ∧ (¬power < .unary → Derives .applied (vs ++ ts))) ∧
    (¬.unary < (firstKind ts next).power →
      (∀ vs, Derives .expression vs → Derives .expression (vs ++ ts)) ∧
        (¬power < .unary → ts = []))
  | .items _ => Derives .list ts
  | .itemsTail _ => Derives .listTail ts
  | .names _ => Derives .names ts
  | .namesTail _ => Derives .namesTail ts
  | .alternative _ => Derives .alternative ts
  | .block _ => Derives .block ts
  | .statement _ => Derives (.statement next) ts
  | .statements _ => Derives (.statements next) ts

/-- Every reading is a derivation. -/
theorem Reads.derived {phrase : Phrase} (h : Reads n phrase ts next) : phrase.Derived ts next := by
  induction h with
  | @expression n m power l e ts us next hl he ihl ihe =>
    rcases ihl with hprimary | ⟨hoperand, hnext⟩
    · obtain ⟨h₁, h₂⟩ := ihe.1 ts (.applied hprimary)
      exact ⟨h₁, fun hp => .operand (h₂ hp)⟩
    · obtain ⟨h₁, h₂⟩ := ihe.2 hnext
      refine ⟨h₁ ts hoperand.expression_of_operand, fun hp => ?_⟩
      rw [h₂ hp, List.append_nil]
      exact hoperand
  | @literal t e next h =>
    refine .inl ?_
    have hk := kind_mem_of_ofToken_eq_ok h
    by_cases hi : t.kind = .integer
    · refine .integer hi ?_
      by_contra hbig
      rw [Expr.ofToken, hi] at h
      simp only at h
      rw [if_neg (show ¬Nat.ofDigitChars 10 t.text.toList 0 < integerBound from hbig)] at h
      exact absurd h (by simp)
    · refine .constant ?_
      clear h
      generalize t.kind = kind at hk hi
      revert hk hi
      cases kind <;> decide
  | prefixed ho hr ih => exact .inr ⟨.prefixed ho (ih.2 (by decide)), hr.not_lt⟩
  | group ho _ hc ih => exact .inl (.group ho ih.1 hc)
  | conditional ht ho _ hc _ _ ihe ihb ihalt => exact .inl (.conditional ht ho ihe.1 hc ihb ihalt)
  | function ht ho _ hc _ ihids ihb => exact .inl (.function ht ho ihids hc ihb)
  | array ho _ hc ih => exact .inl (.array ho ih hc)
  | operatorsEnd h =>
    refine ⟨fun vs hvs => ?_, fun _ => ⟨fun vs hvs => ?_, fun _ => rfl⟩⟩
    · rw [List.append_nil]
      exact ⟨.expression_of_operand (.operand hvs), fun _ => hvs⟩
    · rwa [List.append_nil]
  | @infixed n m power o l r e ts us next hpower ho hr he ihr ihe =>
    have hunary : power < .unary := by
      have := (power_of_mem_binaryOperators ho).2
      rw [Power.lt_iff_rank] at *
      omega
    have hafter := not_unary_lt_of_not_lt hr.not_lt (power_of_mem_binaryOperators ho).2
    have hextend : ∀ vs, Derives .expression vs → Derives .expression (vs ++ o :: (ts ++ us)) := by
      intro vs hvs
      have hleft := hvs.infixed ho ihr.1
      have := (ihe.2 hafter).1 _ hleft
      rwa [List.append_assoc] at this
    refine ⟨fun vs hvs => ⟨hextend vs (.expression_of_operand (.operand hvs)), ?_⟩,
      fun _ => ⟨hextend, ?_⟩⟩
    · exact fun h => absurd hunary h
    · exact fun h => absurd hunary h
  | @call n m power o c l e es ts us next hpower ho hes hc he ihes ihe =>
    refine ⟨fun vs hvs => ?_, fun hno => ?_⟩
    · have := ihe.1 _ (Derives.call hvs ho ihes hc)
      simpa using this
    · rw [firstKind_cons, ho] at hno
      exact absurd (by decide) hno
  | @index n m power o c l r e ts us next hpower ho hr hc he ihr ihe =>
    refine ⟨fun vs hvs => ?_, fun hno => ?_⟩
    · have := ihe.1 _ (Derives.index hvs ho ihr.1 hc)
      simpa using this
    · rw [firstKind_cons, ho] at hno
      exact absurd (by decide) hno
  | noItem => exact .noElement
  | items _ _ ihe ihes => exact .list ihe.1 ihes
  | itemsEnd => exact .listEnd
  | itemsTail hc _ _ ihe ihes => exact .listTail hc ihe.1 ihes
  | noName => exact .noName
  | names hx _ ih => exact .names hx ih
  | namesEnd => exact .namesEnd
  | namesTail hc hx _ ih => exact .namesTail hc hx ih
  | noAlternative _ => exact .noAlternative
  | alternative ht _ ih => exact .alternative ht ih
  | block ho _ hc ih => exact .block ho ih hc
  | noStatement => exact .noStatement
  | statements _ _ ihs ihbody => exact .statements ihs ihbody
  | letBinding ht hx ho _ hend ih => exact .letBinding ht hx ho ih.1 hend
  | returnNothing ht hend => exact .returnNothing ht hend
  | returnValue ht _ hend ih => exact .returnValue ht ih.1 hend
  | closedExpression _ hc ih => exact .closedExpression ih.1 hc
  | openExpression he hnext ih =>
    refine .openExpression ih.1 ?_
    rw [← power_eq_lowest_iff, ← not_lowest_lt_iff]
    exact he.not_lt

/-! ## From derivations to readings -/

/-- The tree of a primary with calls and indices behind it: they apply to what stands in front of
them. -/
inductive AppliedTree : List Token → Expr → Prop where
  | primary {n : Nat} {e : Expr} {ts : List Token} : Derives .primary ts →
      (∀ next, next ≠ .elseWord → Reads n (.operand e) ts next) → AppliedTree ts e
  | call {n : Nat} {o c : Token} {e : Expr} {es : List Expr} {ts us : List Token} :
      AppliedTree ts e → o.kind = .leftParen → Reads n (.items es) us .rightParen →
      c.kind = .rightParen → AppliedTree (ts ++ o :: (us ++ [c])) (.call o e es)
  | index {n : Nat} {o c : Token} {e r : Expr} {ts us : List Token} :
      AppliedTree ts e → o.kind = .leftBracket →
      Reads n (.expression .lowest r) us .rightBracket → c.kind = .rightBracket →
      AppliedTree (ts ++ o :: (us ++ [c])) (.index o e r)

/-- The tree of an operand: prefix operators apply to all of what stands behind them, calls and
indices included. -/
inductive OperandTree : List Token → Expr → Prop where
  | prefixed {o : Token} {r : Expr} {ts : List Token} : o.kind = .bang ∨ o.kind = .minus →
      OperandTree ts r → OperandTree (o :: ts) (.prefixOp o o.text r)
  | applied {e : Expr} {ts : List Token} : AppliedTree ts e → OperandTree ts e

/-- The tokens `ts` are the operand `l`, which takes so many levels: whatever operators follow, if they
can be read with `l` in front of them, then with `ts` in front of them an expression is read. -/
structure IsOperand (levels : Nat) (l : Expr) (ts : List Token) : Prop where
  tree : OperandTree ts l
  reads : ∀ ⦃power : Power⦄ ⦃us : List Token⦄ ⦃next : TokenKind⦄ ⦃m : Nat⦄ ⦃e : Expr⦄,
    power < .call → ¬.unary < (firstKind us next).power → firstKind us next ≠ .elseWord →
    Reads m (.operators power l e) us next →
      Reads (max levels (m + 1)) (.expression power e) (ts ++ us) next

/-- An operator of a chain with the operand behind it. -/
structure Link where
  operator : Token
  tokens : List Token
  /-- The levels of nesting that the operand takes. -/
  levels : Nat
  tree : Expr

/-- The link has an operator and an operand. -/
structure Link.Valid (link : Link) : Prop where
  operator_mem : link.operator.kind ∈ binaryOperators
  isOperand : IsOperand link.levels link.tree link.tokens

/-- The operator and the operand of a link, as they stand in a chain. -/
def Link.items (link : Link) : List (Expr ⊕ Token) := [.inr link.operator, .inl link.tree]

/-- The tokens of the links of a chain, one after the other. -/
def linked (links : List Link) : List Token :=
  links.flatMap fun link => link.operator :: link.tokens

lemma firstKind_linked_cons (link : Link) (links : List Link) (next : TokenKind) :
    firstKind (linked (link :: links)) next = link.operator.kind := rfl

lemma firstKind_linked_append (links links' : List Link) (next : TokenKind) :
    firstKind (linked (links ++ links')) next =
      firstKind (linked links) (firstKind (linked links') next) := by
  rw [linked, List.flatMap_append, firstKind_append]
  rfl

/-- What may stand behind an expression of lowest power. -/
structure Follows (next : TokenKind) : Prop where
  power_eq : next.power = .lowest
  ne_elseWord : next ≠ .elseWord

/-- The kind of what stands behind some of the links of a chain is an operator, or what stands
behind the chain. -/
lemma firstKind_linked {links : List Link} (hlinks : ∀ link ∈ links, link.Valid)
    (hnext : Follows next) :
    ¬.unary < (firstKind (linked links) next).power ∧
      firstKind (linked links) next ≠ .elseWord := by
  cases links with
  | nil =>
    refine ⟨?_, hnext.ne_elseWord⟩
    rw [linked, List.flatMap_nil, firstKind_nil, hnext.power_eq]
    decide
  | cons link links =>
    have ho := (hlinks link List.mem_cons_self).operator_mem
    rw [firstKind_linked_cons]
    generalize link.operator.kind = kind at ho
    revert ho
    cases kind <;> decide

/-- From the chain `c` on, the links `taken` have been taken and make `d` of it, at the price of so many
levels, and the links `left` stand behind. -/
structure Climbs (power : Power) (next : TokenKind) (c d : Chain) (taken left : List Link)
    (levels : Nat) : Prop where
  reads : Reads levels (.operators power c.expr d.expr) (linked taken)
    (firstKind (linked left) next)
  inOrder_eq : d.inOrder = c.inOrder ++ taken.flatMap Link.items
  ordered : d.Ordered
  /-- The last operator taken at this power holds tighter than asked for, and what is left does not
  hold tighter than it. -/
  root : ∀ o ∈ d.root?, power < o.kind.power ∧
    ¬o.kind.power < (firstKind (linked left) next).power
  /-- A power is one level, and there are four powers of operators. -/
  levels_le : ∀ bound, 0 < bound → (∀ link ∈ taken, link.levels ≤ bound) → power < .unary →
    levels + power.rank ≤ bound + 3

/-- From any chain on, the links are taken up to the first operator that holds no tighter than
`power`. -/
theorem exists_climbs (links : List Link) (hlinks : ∀ link ∈ links, link.Valid)
    (hnext : Follows next) (power : Power) (c : Chain) (hc : c.Ordered)
    (hroot : ∀ o ∈ c.root?, power < o.kind.power ∧
      ¬o.kind.power < (firstKind (linked links) next).power) :
    ∃ taken left n d, links = taken ++ left ∧ Climbs power next c d taken left n := by
  induction hlen : links.length using Nat.strong_induction_on generalizing links power c with
  | h k ih =>
    subst hlen
    have hstop : ¬power < (firstKind (linked links) next).power →
        ∃ taken left n d, links = taken ++ left ∧ Climbs power next c d taken left n := by
      intro hend
      refine ⟨[], links, 0, c, rfl, .operatorsEnd hend, (List.append_nil _).symm, hc, hroot, ?_⟩
      intro bound hbound _ hpower
      rw [Power.lt_iff_rank] at hpower
      have hunary : Power.unary.rank = 5 := rfl
      omega
    cases links with
    | nil =>
      refine hstop ?_
      rw [linked, List.flatMap_nil, firstKind_nil, hnext.power_eq, Power.lt_iff_rank]
      exact Nat.not_lt_zero _
    | cons link links =>
      rw [firstKind_linked_cons] at hroot hstop
      by_cases hpower : power < link.operator.kind.power
      · have hlink := hlinks _ List.mem_cons_self
        have htail : ∀ other ∈ links, other.Valid :=
          fun other ho => hlinks other (List.mem_cons_of_mem _ ho)
        -- the right operand takes what holds tighter, and the chain goes on behind it
        obtain ⟨taken₁, left₁, m, r, rfl, hr⟩ := ih links.length (by simp) links htail
          link.operator.kind.power (.operand link.tree) .operand (fun _ ho => by cases ho) rfl
        have hleft : ∀ other ∈ left₁, other.Valid :=
          fun other ho => htail other (List.mem_append_right _ ho)
        have hnode : (Chain.node link.operator c r).Ordered :=
          .node hc hr.ordered (fun o ho => Nat.not_lt.1 (hroot o ho).2) fun o ho => (hr.root o ho).1
        obtain ⟨taken₂, left₂, n, d, rfl, hd⟩ := ih left₁.length (by
          simp only [List.length_cons, List.length_append]
          omega) left₁ hleft power (.node link.operator c r) hnode (fun o ho => by
            cases ho
            exact ⟨hpower, hr.reads.not_lt⟩) rfl
        have hafter := firstKind_linked htail hnext
        have hcall : link.operator.kind.power < .call := by
          have := (power_of_mem_binaryOperators hlink.operator_mem).2
          rw [Power.lt_iff_rank] at this ⊢
          exact this.trans (by decide)
        rw [firstKind_linked_append] at hafter
        have hright := hlink.isOperand.reads hcall hafter.1 hafter.2 hr.reads
        rw [firstKind_linked_append] at hright
        refine ⟨link :: (taken₁ ++ taken₂), left₂, max (max link.levels (m + 1)) n, d, by simp, ?_, ?_,
          hd.ordered, hd.root, ?_⟩
        · simpa [linked] using Reads.infixed hpower hlink.operator_mem hright hd.reads
        · simp [hd.inOrder_eq, Chain.inOrder, hr.inOrder_eq, Link.items]
        · intro bound hbound hall hunary
          have hm := hr.levels_le bound hbound (fun other ho => hall other (by simp [ho]))
            (power_of_mem_binaryOperators hlink.operator_mem).2
          have hn := hd.levels_le bound hbound (fun other ho => hall other (by simp [ho])) hunary
          have hlevels := hall link List.mem_cons_self
          have htight := (power_of_mem_binaryOperators hlink.operator_mem).2
          rw [Power.lt_iff_rank] at hpower htight
          have hrank : Power.unary.rank = 5 := rfl
          omega
      · exact hstop hpower

/-- The tokens `ts` are the primary `l'` with calls and indices behind it: operators that can be read
with `l'` in front of them can be read with `ts` in front of them, split into an operand and the
operators on it. -/
def IsApplied (levels : Nat) (l' : Expr) (ts : List Token) : Prop :=
  AppliedTree ts l' ∧
  ∃ ts₁ ts₂ n k l, ts = ts₁ ++ ts₂ ∧ levels = max n k + 1 ∧
    (∀ next, next ≠ .elseWord → Reads n (.operand l) ts₁ next) ∧
    (∀ next, next ≠ .elseWord → firstKind ts₂ next ≠ .elseWord) ∧
    ∀ ⦃power : Power⦄ ⦃us : List Token⦄ ⦃next : TokenKind⦄ ⦃m : Nat⦄ ⦃e : Expr⦄, power < .call →
      Reads m (.operators power l' e) us next →
        Reads (max k m) (.operators power l e) (ts₂ ++ us) next

lemma IsApplied.isOperand {levels : Nat} (h : IsApplied levels l ts) : IsOperand levels l ts := by
  obtain ⟨htree, ts₁, ts₂, n, k, l', rfl, rfl, hl, helse, hops⟩ := h
  refine ⟨.applied htree, fun power us next m e hpower _ hnext he => ?_⟩
  have hlevels : max (max n k + 1) (m + 1) = max n (max k m) + 1 := by omega
  rw [List.append_assoc, hlevels]
  refine .expression (hl _ ?_) (hops hpower he)
  rw [firstKind_append]
  exact helse _ hnext

/-- One more operator on a primary. -/
lemma IsApplied.extend {vs : List Token} {l' : Expr} {levels : Nat} (h : IsApplied levels l ts)
    (hvs : firstKind vs .endOfInput ≠ .elseWord) (hne : vs ≠ [])
    (htree : AppliedTree ts l → AppliedTree (ts ++ vs) l')
    (hop : ∀ ⦃power : Power⦄ ⦃us : List Token⦄ ⦃next : TokenKind⦄ ⦃m : Nat⦄ ⦃e : Expr⦄,
      power < .call → Reads m (.operators power l' e) us next →
        Reads (max n m) (.operators power l e) (vs ++ us) next) :
    ∃ levels', IsApplied levels' l' (ts ++ vs) := by
  obtain ⟨happlied, ts₁, ts₂, m, k, l₀, rfl, rfl, hl, helse, hops⟩ := h
  refine ⟨_, htree happlied, ts₁, ts₂ ++ vs, m, max k n, l₀, by simp, rfl, hl, ?_, ?_⟩
  · intro next _
    rw [firstKind_append]
    refine helse _ ?_
    cases vs with
    | nil => exact absurd rfl hne
    | cons t vs => exact hvs
  · intro power us next m e hpower he
    rw [List.append_assoc, max_assoc]
    exact hops hpower (hop hpower he)

/-- What a symbol has to be read as. -/
def Symbol.Read (ts : List Token) : Symbol → Prop
  | .statements next => next = .rightBrace ∨ next = .endOfInput →
    (∃ n body, Reads n (.statements body) ts next) ∧
      firstKind ts next ∈ next :: statementKinds
  | .statement next => next ∈ .rightBrace :: .endOfInput :: statementKinds →
    ∃ n s, Reads n (.statement s) ts next
  | .expression => ∀ next, Follows next → ∃ n e, Reads n (.expression .lowest e) ts next
  | .operations => ∃ links, ts = linked links ∧ ∀ link ∈ links, link.Valid
  | .operand => ∃ levels l, IsOperand levels l ts
  | .applied => ∃ levels l, IsApplied levels l ts
  | .primary => ∃ n l, ∀ next, next ≠ .elseWord → Reads n (.operand l) ts next
  | .list => ∀ next, next = .rightParen ∨ next = .rightBracket → ∃ n es, Reads n (.items es) ts next
  | .listTail => ∀ next, next = .rightParen ∨ next = .rightBracket →
    (∃ n es, Reads n (.itemsTail es) ts next) ∧ firstKind ts next ∈ [.comma, next]
  | .names => ∃ ids, ∀ next, Reads 0 (.names ids) ts next
  | .namesTail => ∃ ids, ∀ next, Reads 0 (.namesTail ids) ts next
  | .alternative => ∃ n alt, ∀ next, next ≠ .elseWord →
    Reads n (.alternative alt) ts next
  | .block => ∃ n b, ∀ next, Reads n (.block b) ts next

lemma follows_of_mem {kind : TokenKind}
    (h : kind ∈ [.semicolon, .comma, .rightParen, .rightBracket, .rightBrace, .endOfInput]) :
    Follows kind := by
  constructor <;> revert h <;> cases kind <;> decide

/-- What ends a statement may follow an expression. -/
lemma Ending.follows (h : Ending next us) : Follows (firstKind us next) := by
  cases h with
  | semicolon hs => exact follows_of_mem (by simp [hs])
  | brace hnext | source hnext => exact follows_of_mem (by simp [hnext])

/-- Every derivation has a reading. -/
theorem Derives.read {symbol : Symbol} (h : Derives symbol ts) : symbol.Read ts := by
  induction h with
  | noStatement => exact fun _ => ⟨⟨0, [], .noStatement⟩, List.mem_cons_self⟩
  | @statements next ts us _ _ ihs ihbody =>
    intro hnext
    obtain ⟨⟨m, body, hbody⟩, hfirst⟩ := ihbody hnext
    have hmem : firstKind us next ∈ .rightBrace :: .endOfInput :: statementKinds := by
      rcases List.mem_cons.1 hfirst with hk | hk
      · rcases hnext with rfl | rfl <;> simp [hk]
      · exact List.mem_cons_of_mem _ (List.mem_cons_of_mem _ hk)
    obtain ⟨n, s, hs⟩ := ihs hmem
    refine ⟨⟨_, _, .statements hs hbody⟩, ?_⟩
    rw [firstKind_append]
    exact List.mem_cons_of_mem _ (hs.firstKind_statement _)
  | letBinding ht hx ho _ hend ih =>
    intro _
    obtain ⟨n, e, he⟩ := ih _ hend.follows
    exact ⟨_, _, .letBinding ht hx ho he hend⟩
  | returnNothing ht hend => exact fun _ => ⟨_, _, .returnNothing ht hend⟩
  | returnValue ht _ hend ih =>
    intro _
    obtain ⟨n, e, he⟩ := ih _ hend.follows
    exact ⟨_, _, .returnValue ht he hend⟩
  | closedExpression _ hc ih =>
    intro _
    obtain ⟨n, e, he⟩ := ih .semicolon (follows_of_mem (by simp))
    obtain ⟨t, ts, rfl, -⟩ := he.startsWith
    exact ⟨_, _, .closedExpression he hc⟩
  | @openExpression next ts _ hno ih =>
    intro hnext
    have hk : next ≠ .elseWord ∧ next ≠ .semicolon := by
      revert hnext
      cases next <;> decide
    obtain ⟨n, e, he⟩ := ih next ⟨power_eq_lowest_iff.2 hno, hk.1⟩
    obtain ⟨t, ts, rfl, -⟩ := he.startsWith
    exact ⟨_, _, .openExpression he hk.2⟩
  | @expression ts us _ _ ihx ihops =>
    intro next hnext
    obtain ⟨levels, l, hx⟩ := ihx
    obtain ⟨links, rfl, hlinks⟩ := ihops
    obtain ⟨taken, left, m, d, rfl, hd⟩ := exists_climbs links hlinks hnext .lowest (.operand l)
      .operand fun _ ho => by cases ho
    -- every operator holds tighter than the lowest power, so the whole chain is taken
    obtain rfl : left = [] := by
      cases left with
      | nil => rfl
      | cons link left =>
        have ho := (hlinks link (List.mem_append_right _ List.mem_cons_self)).operator_mem
        exact absurd (power_of_mem_binaryOperators ho).1 hd.reads.not_lt
    have hafter := firstKind_linked hlinks hnext
    rw [List.append_nil] at hafter ⊢
    exact ⟨_, _, hx.reads (by decide) hafter.1 hafter.2 hd.reads⟩
  | noOperation => exact ⟨[], rfl, by simp⟩
  | @operations o ts us ho _ _ ihx ihops =>
    obtain ⟨levels, l, hx⟩ := ihx
    obtain ⟨links, rfl, hlinks⟩ := ihops
    exact ⟨⟨o, ts, levels, l⟩ :: links, rfl, List.forall_mem_cons.2 ⟨⟨ho, hx⟩, hlinks⟩⟩
  | @prefixed o ts ho _ ih =>
    obtain ⟨levels, l, hx⟩ := ih
    refine ⟨max levels 1 + 1, _, .prefixed ho hx.tree, ?_⟩
    intro power us next m e hpower hafter helse he
    have hn := @hx.reads .unary [] (firstKind us next) 0 l (by decide) hafter helse
      (.operatorsEnd hafter)
    rw [List.append_nil] at hn
    have hlevels : max (max levels 1 + 1) (m + 1) = max (max levels 1) m + 1 := by omega
    rw [hlevels]
    exact .expression (.prefixed ho hn) he
  | operand _ ih =>
    obtain ⟨levels, l, happlied⟩ := ih
    exact ⟨levels, l, happlied.isOperand⟩
  | @applied ts hprimary ih =>
    obtain ⟨n, l, hl⟩ := ih
    refine ⟨_, l, .primary hprimary hl, ts, [], n, 0, l, by simp, rfl, hl, fun _ h => h, ?_⟩
    intro power us next m e _ he
    rwa [Nat.zero_max]
  | @call o c ts us _ ho _ hc ih ihes =>
    obtain ⟨levels, l, happlied⟩ := ih
    obtain ⟨n, es, hes⟩ := ihes .rightParen (.inl rfl)
    obtain ⟨levels', h⟩ := happlied.extend (by rw [firstKind_cons, ho]; decide) (by simp)
      (fun htree => .call htree ho hes hc) fun power vs next m e hpower he => by
        simpa using Reads.call hpower ho hes hc he
    exact ⟨levels', _, h⟩
  | @index o c ts us _ ho _ hc ih ihe =>
    obtain ⟨levels, l, happlied⟩ := ih
    obtain ⟨n, r, hr⟩ := ihe .rightBracket (follows_of_mem (by simp))
    have hindex : ∀ power : Power, power < .call → power < .index := fun power hpower =>
      Nat.lt_trans hpower (by decide)
    obtain ⟨levels', h⟩ := happlied.extend (by rw [firstKind_cons, ho]; decide) (by simp)
      (fun htree => .index htree ho hr hc) fun power vs next m e hpower he => by
        simpa using Reads.index (hindex power hpower) ho hr hc he
    exact ⟨levels', _, h⟩
  | @constant t ht =>
    obtain ⟨e, he⟩ : ∃ e, Expr.ofToken t = .ok e := by
      simp only [List.mem_cons, List.not_mem_nil, or_false] at ht
      rcases ht with ht | ht | ht | ht <;> exact ⟨_, by rw [Expr.ofToken, ht]⟩
    exact ⟨0, e, fun next _ => .literal he⟩
  | @integer t ht hvalue =>
    have he : Expr.ofToken t = .ok (.integer t (.ofNat (decimal t))) := by
      rw [Expr.ofToken, ht]
      exact if_pos hvalue
    exact ⟨0, _, fun next _ => .literal he⟩
  | group ho _ hc ih =>
    obtain ⟨n, e, he⟩ := ih .rightParen (follows_of_mem (by simp))
    exact ⟨n, e, fun next _ => .group ho he hc⟩
  | conditional ht ho _ hc _ _ ihe ihb ihalt =>
    obtain ⟨n, e, he⟩ := ihe .rightParen (follows_of_mem (by simp))
    obtain ⟨m, b, hb⟩ := ihb
    obtain ⟨k, alt, halt⟩ := ihalt
    exact ⟨_, _, fun next hnext => .conditional ht ho he hc (hb _) (halt next hnext)⟩
  | function ht ho _ hc _ ihids ihb =>
    obtain ⟨ids, hids⟩ := ihids
    obtain ⟨n, b, hb⟩ := ihb
    exact ⟨n, _, fun next _ => .function ht ho (hids _) hc (hb next)⟩
  | array ho _ hc ih =>
    obtain ⟨n, es, hes⟩ := ih .rightBracket (.inr rfl)
    exact ⟨n, _, fun next _ => .array ho hes hc⟩
  | noElement => exact fun _ _ => ⟨0, [], .noItem⟩
  | @list ts us _ _ ihe ihes =>
    intro next hnext
    obtain ⟨⟨m, es, hes⟩, hfirst⟩ := ihes next hnext
    have hfollows : Follows (firstKind us next) := follows_of_mem (by
      rcases hnext with rfl | rfl <;> rcases List.mem_pair.1 hfirst with hk | hk <;> simp [hk])
    obtain ⟨n, e, he⟩ := ihe _ hfollows
    exact ⟨_, _, .items he hes⟩
  | listEnd => exact fun next _ => ⟨⟨0, [], .itemsEnd⟩, by simp⟩
  | @listTail c ts us hc _ _ ihe ihes =>
    intro next hnext
    obtain ⟨⟨m, es, hes⟩, hfirst⟩ := ihes next hnext
    have hfollows : Follows (firstKind us next) := follows_of_mem (by
      rcases hnext with rfl | rfl <;> rcases List.mem_pair.1 hfirst with hk | hk <;> simp [hk])
    obtain ⟨n, e, he⟩ := ihe _ hfollows
    exact ⟨⟨_, _, .itemsTail hc he hes⟩, by simp [hc]⟩
  | noName => exact ⟨[], fun _ => .noName⟩
  | names hx _ ih =>
    obtain ⟨ids, hids⟩ := ih
    exact ⟨_, fun next => .names hx (hids next)⟩
  | namesEnd => exact ⟨[], fun _ => .namesEnd⟩
  | namesTail hc hx _ ih =>
    obtain ⟨ids, hids⟩ := ih
    exact ⟨_, fun next => .namesTail hc hx (hids next)⟩
  | noAlternative => exact ⟨0, none, fun next hnext => .noAlternative hnext⟩
  | alternative ht _ ih =>
    obtain ⟨n, b, hb⟩ := ih
    exact ⟨n, some b, fun next _ => .alternative ht (hb next)⟩
  | block ho _ hc ih =>
    obtain ⟨⟨n, body, hbody⟩, -⟩ := ih (.inl rfl)
    exact ⟨n, _, fun next => .block ho hbody hc⟩

/-- The programs are the lists of tokens that can be read as statements. -/
theorem isProgram_iff_exists_reads (ts : List Token) :
    IsProgram ts ↔ ∃ n body, Reads n (.statements body) ts .endOfInput :=
  ⟨fun h => (h.read (.inr rfl)).1, fun ⟨_, _, h⟩ => h.derived⟩

end Grammar

end ScriptSyntax
