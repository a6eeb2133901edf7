import ScriptSyntax.Proofs.Grammar.Language
import ScriptSyntax.Parser.Expression

/-!
# Readings

A reading is a derivation that carries its tree.  It groups operators by their powers, so that a
list of tokens has the tree that the parser finds, and it counts how many expressions lie inside one
another.  `Reads n phrase ts next` says that the tokens `ts`, in front of a token of kind `next`, are
read as `phrase`, and that this takes exactly `n` levels of nesting.

The token behind a phrase has to be told: an operand ends where the next token holds no tighter
than was asked for.
-/

namespace ScriptSyntax

namespace Grammar

/-- What tokens can be read as. -/
inductive Phrase where
  /-- An expression whose operators all hold tighter than `power`. -/
  | expression (power : Power) (e : Expr)
  | operand (e : Expr)
  /-- Operators that hold tighter than `power`; with the operand `left` before them they make `e`. -/
  | operators (power : Power) (left e : Expr)
  /-- Expressions separated by commas. -/
  | items (es : List Expr)
  /-- Expressions, each behind a comma. -/
  | itemsTail (es : List Expr)
  /-- Identifiers separated by commas. -/
  | names (ids : List Identifier)
  /-- Identifiers, each behind a comma. -/
  | namesTail (ids : List Identifier)
  | alternative (block? : Option Block)
  | block (b : Block)
  | statement (s : Stmt)
  | statements (body : List Stmt)

/-- The tokens `ts`, in front of a token of kind `next`, are read as a phrase, which takes `levels`
levels of nesting. -/
inductive Reads : (levels : Nat) → Phrase → (ts : List Token) → (next : TokenKind) → Prop where
  | expression {n m : Nat} {power : Power} {l e : Expr} {ts us : List Token} {next : TokenKind} :
      Reads n (.operand l) ts (firstKind us next) → Reads m (.operators power l e) us next →
      Reads (max n m + 1) (.expression power e) (ts ++ us) next
  | literal {t : Token} {e : Expr} {next : TokenKind} :
      Expr.ofToken t = .ok e → Reads 0 (.operand e) [t] next
  | prefixed {n : Nat} {o : Token} {r : Expr} {ts : List Token} {next : TokenKind} :
      o.kind = .bang ∨ o.kind = .minus → Reads n (.expression .unary r) ts next →
      Reads n (.operand (.prefixOp o o.text r)) (o :: ts) next
  | group {n : Nat} {o c : Token} {e : Expr} {ts : List Token} {next : TokenKind} :
      o.kind = .leftParen → Reads n (.expression .lowest e) ts .rightParen →
      c.kind = .rightParen → Reads n (.operand e) (o :: (ts ++ [c])) next
  | conditional {n m k : Nat} {t o c : Token} {e : Expr} {b : Block} {alt : Option Block}
      {ts us vs : List Token} {next : TokenKind} :
      t.kind = .ifWord → o.kind = .leftParen → Reads n (.expression .lowest e) ts .rightParen →
      c.kind = .rightParen → Reads m (.block b) us (firstKind vs next) →
      Reads k (.alternative alt) vs next →
      Reads (max n (max m k)) (.operand (.conditional t e b alt))
        (t :: o :: (ts ++ c :: (us ++ vs))) next
  | function {n : Nat} {t o c : Token} {ids : List Identifier} {b : Block} {ts us : List Token}
      {next : TokenKind} :
      t.kind = .fnWord → o.kind = .leftParen → Reads 0 (.names ids) ts .rightParen →
      c.kind = .rightParen → Reads n (.block b) us next →
      Reads n (.operand (.function t ids b)) (t :: o :: (ts ++ c :: us)) next
  | array {n : Nat} {o c : Token} {es : List Expr} {ts : List Token} {next : TokenKind} :
      o.kind = .leftBracket → Reads n (.items es) ts .rightBracket → c.kind = .rightBracket →
      Reads n (.operand (.array o es)) (o :: (ts ++ [c])) next
  | operatorsEnd {power : Power} {e : Expr} {next : TokenKind} :
      ¬power < next.power → Reads 0 (.operators power e e) [] next
  | infixed {n m : Nat} {power : Power} {o : Token} {l r e : Expr} {ts us : List Token}
      {next : TokenKind} :
      power < o.kind.power → o.kind ∈ binaryOperators →
      Reads n (.expression o.kind.power r) ts (firstKind us next) →
      Reads m (.operators power (.infixOp o o.text l r) e) us next →
      Reads (max n m) (.operators power l e) (o :: (ts ++ us)) next
  | call {n m : Nat} {power : Power} {o c : Token} {l e : Expr} {es : List Expr}
      {ts us : List Token} {next : TokenKind} :
      power < .call → o.kind = .leftParen → Reads n (.items es) ts .rightParen →
      c.kind = .rightParen → Reads m (.operators power (.call o l es) e) us next →
      Reads (max n m) (.operators power l e) (o :: (ts ++ c :: us)) next
  | index {n m : Nat} {power : Power} {o c : Token} {l r e : Expr} {ts us : List Token}
      {next : TokenKind} :
      power < .index → o.kind = .leftBracket → Reads n (.expression .lowest r) ts .rightBracket →
      c.kind = .rightBracket → Reads m (.operators power (.index o l r) e) us next →
      Reads (max n m) (.operators power l e) (o :: (ts ++ c :: us)) next
  | noItem {next : TokenKind} : Reads 0 (.items []) [] next
  | items {n m : Nat} {e : Expr} {es : List Expr} {ts us : List Token} {next : TokenKind} :
      Reads n (.expression .lowest e) ts (firstKind us next) → Reads m (.itemsTail es) us next →
      Reads (max n m) (.items (e :: es)) (ts ++ us) next
  | itemsEnd {next : TokenKind} : Reads 0 (.itemsTail []) [] next
  | itemsTail {n m : Nat} {c : Token} {e : Expr} {es : List Expr} {ts us : List Token}
      {next : TokenKind} :
      c.kind = .comma → Reads n (.expression .lowest e) ts (firstKind us next) →
      Reads m (.itemsTail es) us next →
      Reads (max n m) (.itemsTail (e :: es)) (c :: (ts ++ us)) next
  | noName {next : TokenKind} : Reads 0 (.names []) [] next
  | names {x : Token} {ids : List Identifier} {ts : List Token} {next : TokenKind} :
      x.kind = .identifier → Reads 0 (.namesTail ids) ts next →
      Reads 0 (.names (⟨x, x.text⟩ :: ids)) (x :: ts) next
  | namesEnd {next : TokenKind} : Reads 0 (.namesTail []) [] next
  | namesTail {c x : Token} {ids : List Identifier} {ts : List Token} {next : TokenKind} :
      c.kind = .comma → x.kind = .identifier → Reads 0 (.namesTail ids) ts next →
      Reads 0 (.namesTail (⟨x, x.text⟩ :: ids)) (c :: x :: ts) next
  | noAlternative {next : TokenKind} :
      next ≠ .elseWord → Reads 0 (.alternative none) [] next
  | alternative {n : Nat} {t : Token} {b : Block} {ts : List Token} {next : TokenKind} :
      t.kind = .elseWord → Reads n (.block b) ts next →
      Reads n (.alternative (some b)) (t :: ts) next
  | block {n : Nat} {o c : Token} {body : List Stmt} {ts : List Token} {next : TokenKind} :
      o.kind = .leftBrace → Reads n (.statements body) ts .rightBrace → c.kind = .rightBrace →
      Reads n (.block (.mk o body)) (o :: (ts ++ [c])) next
  | noStatement {next : TokenKind} : Reads 0 (.statements []) [] next
  | statements {n m : Nat} {s : Stmt} {body : List Stmt} {ts us : List Token} {next : TokenKind} :
      Reads n (.statement s) ts (firstKind us next) → Reads m (.statements body) us next →
      Reads (max n m) (.statements (s :: body)) (ts ++ us) next
  | letBinding {n : Nat} {t x o : Token} {e : Expr} {ts us : List Token} {next : TokenKind} :
      t.kind = .letWord → x.kind = .identifier → o.kind = .assign →
      Reads n (.expression .lowest e) ts (firstKind us next) → Ending next us →
      Reads n (.statement (.letBinding t ⟨x, x.text⟩ e)) (t :: x :: o :: (ts ++ us)) next
  | returnNothing {t : Token} {us : List Token} {next : TokenKind} :
      t.kind = .returnWord → Ending next us → Reads 0 (.statement (.return t none)) (t :: us) next
  | returnValue {n : Nat} {t : Token} {e : Expr} {ts us : List Token} {next : TokenKind} :
      t.kind = .returnWord → Reads n (.expression .lowest e) ts (firstKind us next) →
      Ending next us → Reads n (.statement (.return t (some e))) (t :: (ts ++ us)) next
  | closedExpression {n : Nat} {t c : Token} {e : Expr} {ts : List Token} {next : TokenKind} :
      Reads n (.expression .lowest e) (t :: ts) .semicolon → c.kind = .semicolon →
      Reads n (.statement (.expression t e)) (t :: (ts ++ [c])) next
  | openExpression {n : Nat} {t : Token} {e : Expr} {ts : List Token} {next : TokenKind} :
      Reads n (.expression .lowest e) (t :: ts) next → next ≠ .semicolon →
      Reads n (.statement (.expression t e)) (t :: ts) next

/-! ## First and following tokens -/

/-- The tokens that an operand starts with. -/
def operandKinds : List TokenKind :=
  [.identifier, .integer, .string, .trueWord, .falseWord, .bang, .minus, .leftParen, .ifWord,
    .fnWord, .leftBracket]

lemma kind_mem_of_ofToken_eq_ok {t : Token} {e : Expr} (h : Expr.ofToken t = .ok e) :
    t.kind ∈ [TokenKind.identifier, .integer, .string, .trueWord, .falseWord] := by
  unfold Expr.ofToken at h
  cases hk : t.kind <;> simp [hk] at h ⊢

/-- The expressions of one token. -/
lemma expr_of_ofToken_eq_ok {t : Token} {e : Expr} (h : Expr.ofToken t = .ok e) :
    e = .identifier ⟨t, t.text⟩ ∨ (∃ value, e = .integer t value) ∨ e = .string t t.text ∨
      ∃ value, e = .boolean t value := by
  unfold Expr.ofToken at h
  split at h
  · cases h
    exact .inl rfl
  · dsimp only at h
    split at h <;> cases h
    exact .inr (.inl ⟨_, rfl⟩)
  · cases h
    exact .inr (.inr (.inl rfl))
  · cases h
    exact .inr (.inr (.inr ⟨_, rfl⟩))
  · cases h
    exact .inr (.inr (.inr ⟨_, rfl⟩))
  · cases h

/-- The tokens that a statement starts with. -/
def statementKinds : List TokenKind := .letWord :: .returnWord :: operandKinds

/-- What a phrase that is never empty starts with. -/
def Phrase.StartsWith (ts : List Token) : Phrase → Prop
  | .expression _ _ | .operand _ => ∃ t us, ts = t :: us ∧ t.kind ∈ operandKinds
  | .statement _ => ∃ t us, ts = t :: us ∧ t.kind ∈ statementKinds
  | .block _ => ∃ t us, ts = t :: us ∧ t.kind = .leftBrace
  | _ => True

/-- An expression, a statement and a block have a first token, which is of a fitting kind. -/
theorem Reads.startsWith {n : Nat} {phrase : Phrase} {ts : List Token} {next : TokenKind}
    (h : Reads n phrase ts next) : phrase.StartsWith ts := by
  induction h with
  | expression _ _ ih _ =>
    obtain ⟨t, us, rfl, ht⟩ := ih
    exact ⟨t, _, rfl, ht⟩
  | literal h =>
    refine ⟨_, [], rfl, ?_⟩
    have := kind_mem_of_ofToken_eq_ok h
    simp only [List.mem_cons, List.not_mem_nil, or_false] at this
    simp only [operandKinds, List.mem_cons]
    tauto
  | prefixed h =>
    refine ⟨_, _, rfl, ?_⟩
    rcases h with h | h <;> simp [h, operandKinds]
  | group h | conditional h | function h | array h =>
    exact ⟨_, _, rfl, by simp [h, operandKinds]⟩
  | block h => exact ⟨_, _, rfl, h⟩
  | letBinding h | returnNothing h | returnValue h =>
    exact ⟨_, _, rfl, by simp [h, statementKinds]⟩
  | closedExpression _ _ ih | openExpression _ _ ih =>
    obtain ⟨t, us, hts, ht⟩ := ih
    simp only [List.cons.injEq] at hts
    obtain ⟨rfl, -⟩ := hts
    exact ⟨_, _, rfl, List.mem_cons_of_mem _ (List.mem_cons_of_mem _ ht)⟩
  | _ => trivial

section First

variable {n : Nat} {power : Power} {e : Expr} {b : Block} {s : Stmt} {ts : List Token}
  {next : TokenKind}

lemma Reads.firstKind_expression (h : Reads n (.expression power e) ts next) (kind : TokenKind) :
    firstKind ts kind ∈ operandKinds := by
  obtain ⟨t, us, rfl, ht⟩ := h.startsWith
  exact ht

lemma Reads.firstKind_statement (h : Reads n (.statement s) ts next) (kind : TokenKind) :
    firstKind ts kind ∈ statementKinds := by
  obtain ⟨t, us, rfl, ht⟩ := h.startsWith
  exact ht

lemma Reads.firstKind_block (h : Reads n (.block b) ts next) (kind : TokenKind) :
    firstKind ts kind = .leftBrace := by
  obtain ⟨t, us, rfl, ht⟩ := h.startsWith
  exact ht

/-- The phrases that are never empty. -/
def Phrase.IsProper : Phrase → Bool
  | .expression _ _ | .operand _ | .statement _ | .block _ => true
  | _ => false

lemma Reads.length_pos {phrase : Phrase} (h : Reads n phrase ts next)
    (hp : phrase.IsProper = true := by rfl) : 0 < ts.length := by
  have hs := h.startsWith
  cases phrase <;> simp only [Phrase.IsProper, Bool.false_eq_true] at hp <;>
    obtain ⟨t, us, rfl, -⟩ := hs <;> simp

end First

/-! ## Last tokens -/

/-- The tokens that an expression ends with. -/
def endKinds : List TokenKind :=
  [.identifier, .integer, .string, .trueWord, .falseWord, .rightParen, .rightBracket, .rightBrace]

/-- The last of the tokens, if there is one, is one that an expression ends with. -/
def EndsExpression (ts : List Token) : Prop := ∀ t ∈ ts.getLast?, t.kind ∈ endKinds

lemma endsExpression_concat (ts : List Token) {c : Token} (h : c.kind ∈ endKinds) :
    EndsExpression (ts ++ [c]) := by
  intro t ht
  rw [List.getLast?_append, List.getLast?_singleton] at ht
  obtain rfl := Option.some.inj ht
  exact h

lemma EndsExpression.append {ts us : List Token} (hts : EndsExpression ts)
    (hus : EndsExpression us) : EndsExpression (ts ++ us) := by
  intro t ht
  rw [List.getLast?_append] at ht
  cases hlast : us.getLast? with
  | none => exact hts t (by simpa [hlast] using ht)
  | some u => exact hus t (by simpa [hlast] using ht)

lemma EndsExpression.append_left {us : List Token} (hus : EndsExpression us) (h : 0 < us.length)
    (ts : List Token) : EndsExpression (ts ++ us) := by
  intro t ht
  cases hlast : us.getLast? with
  | none => rw [List.getLast?_eq_none_iff.1 hlast] at h; exact absurd h (by simp)
  | some u => exact hus t (by simpa [List.getLast?_append, hlast] using ht)

/-- Expressions, and what they are made of, end with one of a few tokens. -/
def Phrase.EndsWith (ts : List Token) : Phrase → Prop
  | .expression _ _ | .operand _ | .operators _ _ _ | .alternative _ | .block _ => EndsExpression ts
  | _ => True

theorem Reads.endsWith {n : Nat} {phrase : Phrase} {ts : List Token} {next : TokenKind}
    (h : Reads n phrase ts next) : phrase.EndsWith ts := by
  induction h with
  | expression _ _ ihl ihe => exact ihl.append ihe
  | @literal t e next h =>
    refine endsExpression_concat [] ?_
    have hk := kind_mem_of_ofToken_eq_ok h
    exact List.mem_append_left [.rightParen, .rightBracket, .rightBrace] hk
  | @prefixed n o r ts next _ hr ih => exact EndsExpression.append_left ih hr.length_pos [o]
  | @group n o c e ts next _ _ hc =>
    exact endsExpression_concat (o :: ts) (by simp [hc, endKinds])
  | @array n o c es ts next _ _ hc =>
    exact endsExpression_concat (o :: ts) (by simp [hc, endKinds])
  | @block n o c body ts next _ _ hc =>
    exact endsExpression_concat (o :: ts) (by simp [hc, endKinds])
  | @conditional n m k t o c e b alt ts us vs next _ _ _ _ hb _ _ ihb ihalt =>
    have hblock := EndsExpression.append_left ihb hb.length_pos (t :: o :: (ts ++ [c]))
    simpa [Phrase.EndsWith] using hblock.append ihalt
  | @function n t o c ids b ts us next _ _ _ _ hb _ ihb =>
    have hblock := EndsExpression.append_left ihb hb.length_pos (t :: o :: (ts ++ [c]))
    simpa [Phrase.EndsWith] using hblock
  | operatorsEnd | noAlternative => exact fun t ht => absurd ht (by simp)
  | @infixed n m power o l r e ts us next _ _ hr _ ihr ihe =>
    exact (EndsExpression.append_left ihr hr.length_pos [o]).append ihe
  | @call n m power o c l e es ts us next _ _ _ hc _ _ ihe =>
    have hclose : EndsExpression (o :: ts ++ [c]) :=
      endsExpression_concat (o :: ts) (by simp [hc, endKinds])
    simpa [Phrase.EndsWith] using hclose.append ihe
  | @index n m power o c l r e ts us next _ _ _ hc _ _ ihe =>
    have hclose : EndsExpression (o :: ts ++ [c]) :=
      endsExpression_concat (o :: ts) (by simp [hc, endKinds])
    simpa [Phrase.EndsWith] using hclose.append ihe
  | @alternative n t b ts next _ hb ih => exact EndsExpression.append_left ih hb.length_pos [t]
  | _ => trivial

/-- The last of the tokens, if there is one, is a semicolon. -/
def EndsClosed (ts : List Token) : Prop := ∀ t ∈ ts.getLast?, t.kind = .semicolon

lemma EndsClosed.right {ts us : List Token} (h : EndsClosed (ts ++ us)) : EndsClosed us := by
  intro t ht
  refine h t ?_
  rw [List.getLast?_append, ht]
  rfl

/-- What ends with a semicolon ends behind anything that does not. -/
lemma EndsClosed.length_pos {ts us : List Token} (h : EndsClosed (ts ++ us))
    (hts : ∃ t ∈ ts.getLast?, t.kind ≠ .semicolon) : 0 < us.length := by
  by_contra hus
  obtain rfl : us = [] := List.length_eq_zero_iff.1 (by omega)
  obtain ⟨t, ht, hk⟩ := hts
  rw [List.append_nil] at h
  exact hk (h t ht)

/-- An expression does not end with a semicolon. -/
lemma EndsExpression.exists_last {ts : List Token} (h : EndsExpression ts) (hts : 0 < ts.length) :
    ∃ t ∈ ts.getLast?, t.kind ≠ .semicolon := by
  have hlast := List.getLast?_eq_some_getLast (List.length_pos_iff.1 hts)
  refine ⟨_, hlast, fun hk => ?_⟩
  have hmem := h _ hlast
  rw [hk] at hmem
  exact absurd hmem (by decide)

/-- A semicolon ends a statement whatever comes next. -/
lemma Ending.closed {next : TokenKind} {us : List Token} (h : Ending next us)
    (hus : 0 < us.length) (next' : TokenKind) :
    Ending next' us ∧ firstKind us next' = firstKind us next := by
  cases h with
  | semicolon hs => exact ⟨.semicolon hs, rfl⟩
  | brace | source => exact absurd hus (by simp)

/-- Statements that end with a semicolon are read alike whatever comes next. -/
theorem Reads.statement_of_closed {n : Nat} {s : Stmt} {ts : List Token} {next : TokenKind}
    (h : Reads n (.statement s) ts next) (hts : EndsClosed ts) (next' : TokenKind) :
    Reads n (.statement s) ts next' := by
  cases h with
  | @letBinding n t x o e ts us _ ht hx ho he hend =>
    have hfront := EndsExpression.append_left he.endsWith he.length_pos [t, x, o]
    obtain ⟨hend', hk⟩ := hend.closed (hts.length_pos (hfront.exists_last (by simp))) next'
    exact .letBinding ht hx ho (hk ▸ he) hend'
  | @returnNothing t us _ ht hend =>
    have hus : 0 < us.length :=
      EndsClosed.length_pos (show EndsClosed ([t] ++ us) from hts) ⟨t, rfl, by simp [ht]⟩
    exact .returnNothing ht (hend.closed hus next').1
  | @returnValue n t e ts us _ ht he hend =>
    have hfront := EndsExpression.append_left he.endsWith he.length_pos [t]
    obtain ⟨hend', hk⟩ := hend.closed (hts.length_pos (hfront.exists_last (by simp))) next'
    exact .returnValue ht (hk ▸ he) hend'
  | closedExpression he hc => exact .closedExpression he hc
  | @openExpression n t e ts _ he _ =>
    have hnil : EndsClosed ((t :: ts) ++ []) := by rwa [List.append_nil]
    exact absurd (hnil.length_pos (EndsExpression.exists_last he.endsWith he.length_pos)) (by simp)

/-- So are lists of statements. -/
theorem Reads.statements_of_closed {n : Nat} {body : List Stmt} {ts : List Token} {next : TokenKind}
    (h : Reads n (.statements body) ts next) (hts : EndsClosed ts) (next' : TokenKind) :
    Reads n (.statements body) ts next' := by
  generalize hphrase : Phrase.statements body = phrase at h
  induction h generalizing body with
  | noStatement =>
    obtain rfl := Phrase.statements.inj hphrase
    exact .noStatement
  | @statements n m s body' ts us next hs hbody _ ih =>
    obtain rfl := Phrase.statements.inj hphrase
    refine .statements ?_ (ih hts.right rfl)
    cases us with
    | nil =>
      rw [List.append_nil] at hts
      exact hs.statement_of_closed hts _
    | cons u us => exact hs
  | _ => cases hphrase

/-! ## Other following tokens -/

/-- The tokens that stop a statement: none of them goes on with what is in front of it. -/
def stops : List TokenKind := [.semicolon, .rightBrace, .endOfInput]

/-- The phrases that go on for as long as the following tokens allow, and those that end with them. -/
def Phrase.IsOpen : Phrase → Bool
  | .expression _ _ | .operand _ | .operators _ _ _ | .alternative _ | .block _ => true
  | _ => false

lemma not_lt_power_of_mem_stops {stop : TokenKind} (h : stop ∈ stops) (power : Power) :
    ¬power < stop.power := by
  simp only [stops, List.mem_cons, List.not_mem_nil, or_false] at h
  rcases h with rfl | rfl | rfl <;> exact Nat.not_lt_zero _

/-- In front of a token that stops it a phrase is read as in front of any other token. -/
theorem Reads.before_stop {n : Nat} {phrase : Phrase} {ts : List Token} {next stop : TokenKind}
    (h : Reads n phrase ts next) (hopen : phrase.IsOpen = true) (hstop : stop ∈ stops) :
    Reads n phrase ts stop := by
  -- what comes next is another token only for the parts with nothing behind them
  have hpart : ∀ {n : Nat} {phrase : Phrase} {ts us : List Token} {next : TokenKind},
      Reads n phrase ts (firstKind us next) → Reads n phrase ts stop →
        Reads n phrase ts (firstKind us stop) := by
    intro n phrase ts us next h hstop
    cases us with
    | nil => exact hstop
    | cons u us => exact h
  induction h with
  | expression hl he ihl ihe => exact .expression (hpart hl (ihl rfl)) (ihe rfl)
  | literal ht => exact .literal ht
  | prefixed ho _ ih => exact .prefixed ho (ih rfl)
  | group ho he hc _ => exact .group ho he hc
  | conditional ht ho he hc hb _ _ ihb ihalt =>
    exact .conditional ht ho he hc (hpart hb (ihb rfl)) (ihalt rfl)
  | function ht ho hids hc _ _ ihb => exact .function ht ho hids hc (ihb rfl)
  | array ho hes hc _ => exact .array ho hes hc
  | operatorsEnd _ => exact .operatorsEnd (not_lt_power_of_mem_stops hstop _)
  | infixed hpower ho hr _ ihr ihe => exact .infixed hpower ho (hpart hr (ihr rfl)) (ihe rfl)
  | call hpower ho hes hc _ _ ihe => exact .call hpower ho hes hc (ihe rfl)
  | index hpower ho hr hc _ _ ihe => exact .index hpower ho hr hc (ihe rfl)
  | noAlternative _ =>
    refine .noAlternative fun helse => ?_
    rw [helse] at hstop
    exact absurd hstop (by decide)
  | alternative ht _ ih => exact .alternative ht (ih rfl)
  | block ho hbody hc _ => exact .block ho hbody hc
  | _ => cases hopen

/-- What ends a statement by itself lets it end in front of anything that closes the list around it. -/
lemma Ending.of_closer {next closer : TokenKind} {us : List Token} (h : Ending next us)
    (hcloser : closer ∈ [TokenKind.rightBrace, .endOfInput]) : Ending closer us := by
  have hnone : Ending closer [] := by
    simp only [List.mem_cons, List.not_mem_nil, or_false] at hcloser
    rcases hcloser with rfl | rfl
    · exact .brace rfl
    · exact .source rfl
  cases h with
  | semicolon hs => exact .semicolon hs
  | brace | source => exact hnone

section Statement

variable {n : Nat} {e : Expr} {s : Stmt} {ts us : List Token} {next : TokenKind}

/-- The last expression of a statement, in front of what ends the statement. -/
lemma Reads.before_ending {stop : TokenKind} (h : Reads n (.expression .lowest e) ts (firstKind us next))
    (hstop : stop ∈ stops) : Reads n (.expression .lowest e) ts (firstKind us stop) := by
  cases us with
  | nil => exact h.before_stop rfl hstop
  | cons u us => exact h

/-- A statement can be the last one of its list. -/
theorem Reads.statement_of_closer {closer : TokenKind} (h : Reads n (.statement s) ts next)
    (hcloser : closer ∈ [TokenKind.rightBrace, .endOfInput]) : Reads n (.statement s) ts closer := by
  have hstop : closer ∈ stops := List.mem_cons_of_mem _ hcloser
  cases h with
  | letBinding ht hx ho he hend =>
    exact .letBinding ht hx ho (he.before_ending hstop) (hend.of_closer hcloser)
  | returnNothing ht hend => exact .returnNothing ht (hend.of_closer hcloser)
  | returnValue ht he hend => exact .returnValue ht (he.before_ending hstop) (hend.of_closer hcloser)
  | closedExpression he hc => exact .closedExpression he hc
  | openExpression he _ =>
    refine .openExpression (he.before_stop rfl hstop) fun hsemi => ?_
    rw [hsemi] at hcloser
    exact absurd hcloser (by decide)

/-- A statement can be closed with a semicolon, unless it has one, and then be followed by anything. -/
theorem Reads.statement_close {c : Token} (h : Reads n (.statement s) ts next)
    (hc : c.kind = .semicolon) (next' : TokenKind) :
    Reads n (.statement s) ts next' ∨ Reads n (.statement s) (ts ++ [c]) next' := by
  have hstop : c.kind ∈ stops := by rw [hc]; decide
  cases h with
  | @letBinding n t x o e ts us _ ht hx ho he hend =>
    cases hend with
    | semicolon hs => exact .inl (.letBinding ht hx ho he (.semicolon hs))
    | brace | source =>
      have hend : Ending next' [c] := .semicolon hc
      rw [List.append_nil]
      exact .inr (.letBinding ht hx ho (he.before_ending hstop) hend)
  | @returnNothing t us _ ht hend =>
    cases hend with
    | semicolon hs => exact .inl (.returnNothing ht (.semicolon hs))
    | brace | source => exact .inr (.returnNothing ht (.semicolon hc))
  | @returnValue n t e ts us _ ht he hend =>
    cases hend with
    | semicolon hs => exact .inl (.returnValue ht he (.semicolon hs))
    | brace | source =>
      have hend : Ending next' [c] := .semicolon hc
      rw [List.append_nil]
      exact .inr (.returnValue ht (he.before_ending hstop) hend)
  | closedExpression he hs => exact .inl (.closedExpression he hs)
  | openExpression he _ => exact .inr (.closedExpression (he.before_stop rfl (by decide)) hc)

end Statement

end Grammar

end ScriptSyntax
