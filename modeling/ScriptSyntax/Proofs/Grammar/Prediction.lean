import ScriptSyntax.Proofs.Grammar.Language

/-!
# Prediction

A reader that goes over the tokens once, from the left, needs to remember only what it still has to
find: a list of goals, the nearest first.  The kind of the next token decides what the nearest goal
comes down to, and a goal that is a token is met by that token.  So the reader never goes back, and
where it cannot go on it has the first token that is out of place before it.

`Run next gs ts hs` says that the tokens `ts`, in front of a token of kind `next`, lead from the goals
`gs` to the goals `hs`.

## Main statements

* `Grammar.Run.unique`: the tokens decide the run.
* `Grammar.Run.meets`: what is read on the way to some goals belongs in front of whatever meets them.
* `Grammar.Run.exists_isProgram`: since every goal can be met, the tokens that a reader of programs has
  passed begin a program.
-/

namespace ScriptSyntax

namespace Grammar

/-! ## Goals -/

/-- What a reader of tokens has still to find. -/
inductive Goal where
  /-- A token of this kind. -/
  | token (kind : TokenKind)
  | expression
  /-- What an expression goes on with behind an operand. -/
  | tail
  /-- What an expression goes on with behind the block of a conditional. -/
  | alternative
  /-- Expressions separated by commas, and the token that closes them. -/
  | items (close : TokenKind)
  /-- Expressions, each behind a comma, and the token that closes them. -/
  | moreItems (close : TokenKind)
  /-- Identifiers separated by commas, and the parenthesis that closes them. -/
  | names
  /-- Identifiers, each behind a comma, and the parenthesis that closes them. -/
  | moreNames
  /-- The end of a statement that needs one. -/
  | ending
  /-- The semicolon that an expression statement may have. -/
  | separator
  /-- What may stand behind `return`, and the end of the statement. -/
  | returned
  /-- Statements, and the brace that closes them. -/
  | body
  /-- Statements up to the end of the source. -/
  | program
deriving DecidableEq, Repr

/-- The token is of this kind, and if it is an integer it is one that fits in 64 bits. -/
def Fits (kind : TokenKind) (t : Token) : Prop :=
  t.kind = kind ∧ (kind = .integer → decimal t < 2 ^ 63)

lemma Fits.of_ne {t : Token} {kind : TokenKind} (h : t.kind = kind) (hne : kind ≠ .integer) :
    Fits kind t :=
  ⟨h, fun heq => absurd heq hne⟩

namespace Goal

/-- The goals of a statement that starts with a token of this kind. -/
def statement : TokenKind → List Goal
  | .letWord => [token .letWord, token .identifier, token .assign, expression, ending]
  | .returnWord => [token .returnWord, returned]
  | _ => [expression, separator]

/-- The goals of an expression that starts with a token of this kind. -/
def operand? : TokenKind → Option (List Goal)
  | .bang => some [token .bang, expression]
  | .minus => some [token .minus, expression]
  | .identifier => some [token .identifier, tail]
  | .integer => some [token .integer, tail]
  | .string => some [token .string, tail]
  | .trueWord => some [token .trueWord, tail]
  | .falseWord => some [token .falseWord, tail]
  | .leftParen => some [token .leftParen, expression, token .rightParen, tail]
  | .ifWord => some [token .ifWord, token .leftParen, expression, token .rightParen,
      token .leftBrace, body, alternative]
  | .fnWord => some [token .fnWord, token .leftParen, names, token .leftBrace, body, tail]
  | .leftBracket => some [token .leftBracket, items .rightBracket, tail]
  | _ => none

/-- The goals that a goal comes down to in front of a token of kind `next`. -/
def predict (next : TokenKind) : Goal → Option (List Goal)
  | token _ => none
  | expression => operand? next
  | tail =>
    if next ∈ binaryOperators then some [token next, expression]
    else if next = .leftParen then some [token .leftParen, items .rightParen, tail]
    else if next = .leftBracket then
      some [token .leftBracket, expression, token .rightBracket, tail]
    else some []
  | alternative =>
    if next = .elseWord then some [token .elseWord, token .leftBrace, body, tail] else some [tail]
  | items close =>
    if next = close then some [token close] else some [expression, moreItems close]
  | moreItems close =>
    if next = .comma then some [token .comma, expression, moreItems close] else some [token close]
  | names =>
    if next = .rightParen then some [token .rightParen] else some [token .identifier, moreNames]
  | moreNames =>
    if next = .comma then some [token .comma, token .identifier, moreNames]
    else some [token .rightParen]
  | ending =>
    if next = .semicolon then some [token .semicolon]
    else if next ∈ [.rightBrace, .endOfInput] then some []
    else none
  | separator =>
    if next = .semicolon then some [token .semicolon]
    else if next ∈ continuations then none
    else some []
  | returned =>
    if next ∈ [.semicolon, .rightBrace, .endOfInput] then some [ending]
    else some [expression, ending]
  | body =>
    if next = .rightBrace then some [token .rightBrace] else some (statement next ++ [body])
  | program => if next = .endOfInput then some [] else some (statement next ++ [program])

end Goal

/-! ## Runs -/

/-- The tokens, in front of a token of kind `next`, lead from some goals to others. -/
inductive Run (next : TokenKind) : List Goal → List Token → List Goal → Prop where
  | refl {gs : List Goal} : Run next gs [] gs
  | predict {g : Goal} {gs hs ks : List Goal} {ts : List Token} :
      g.predict (firstKind ts next) = some hs → Run next (hs ++ gs) ts ks → Run next (g :: gs) ts ks
  | token {kind : TokenKind} {t : Token} {gs hs : List Goal} {ts : List Token} :
      Fits kind t → Run next gs ts hs → Run next (.token kind :: gs) (t :: ts) hs

namespace Run

variable {next : TokenKind} {g : Goal} {gs hs ks : List Goal} {t : Token} {ts us : List Token}

lemma trans (h : Run (firstKind us next) gs ts hs) (h' : Run next hs us ks) :
    Run next gs (ts ++ us) ks := by
  induction h with
  | refl => exact h'
  | predict hp _ ih => exact .predict (by rwa [firstKind_append]) (ih h')
  | token ht _ ih => exact .token ht (ih h')

/-- The nearest goal at the end of a run comes down to others. -/
lemma predict_end (h : Run next gs ts (g :: hs)) (hp : g.predict next = some ks) :
    Run next gs ts (ks ++ hs) := by
  have h' : Run (firstKind [] next) gs ts (g :: hs) := h
  simpa using h'.trans (.predict hp .refl)

/-- The nearest goal at the end of a run comes down to nothing. -/
lemma drop_end (h : Run next gs ts (g :: hs)) (hp : g.predict next = some []) :
    Run next gs ts hs :=
  h.predict_end hp

/-- The nearest goal at the end of a run is met. -/
lemma token_end {kind : TokenKind} (h : Run t.kind gs ts (.token kind :: hs)) (ht : Fits kind t)
    (next : TokenKind) : Run next gs (ts ++ [t]) hs := by
  have h' : Run (firstKind [t] next) gs ts (.token kind :: hs) := h
  exact h'.trans (.token ht .refl)

/-- The tokens decide the run: one that meets all goals goes through every other. -/
theorem unique (hall : Run next gs (ts ++ us) []) (h : Run (firstKind us next) gs ts hs) :
    Run next hs us [] := by
  induction h with
  | refl => exact hall
  | @predict g gs ks hs ts hp _ ih =>
    rw [← firstKind_append] at hp
    generalize hall' : ts ++ us = vs at hall hp
    cases hall with
    | predict hp' hall =>
      obtain rfl := Option.some.inj (hp.symm.trans hp')
      exact ih (hall' ▸ hall)
    | token _ _ => cases hp
  | token _ _ ih =>
    cases hall with
    | predict hp' _ => cases hp'
    | token _ hall => exact ih hall

/-- What comes down to other goals in front of the next token has not been read yet: some goals are
reached whatever the next token is. -/
lemma exists_forall (h : Run next gs ts hs) : ∃ ks, ∀ next', Run next' gs ts ks := by
  induction h with
  | @refl gs => exact ⟨gs, fun _ => .refl⟩
  | @predict g gs _ _ ts hp _ ih =>
    cases ts with
    | nil => exact ⟨g :: gs, fun _ => .refl⟩
    | cons t ts =>
      obtain ⟨ks, hks⟩ := ih
      exact ⟨ks, fun next' => .predict hp (hks next')⟩
  | token ht _ ih =>
    obtain ⟨ks, hks⟩ := ih
    exact ⟨ks, fun next' => .token ht (hks next')⟩

end Run

/-! ## What meets a goal -/

/-- The tokens `ts`, in front of a token of kind `next`, meet the goal.  A goal that is the rest of
something is met by what makes it whole. -/
def Goal.MetBy (next : TokenKind) (ts : List Token) : Goal → Prop
  | token kind => ∃ t, ts = [t] ∧ Fits kind t
  | expression => Derives .expression ts
  | tail => ∀ us, Derives .applied us → Derives .expression (us ++ ts)
  | alternative => ∃ us vs, ts = us ++ vs ∧ Derives .alternative us ∧
      ∀ ws, Derives .applied ws → Derives .expression (ws ++ vs)
  | items close => ∃ us c, ts = us ++ [c] ∧ Derives .list us ∧ c.kind = close
  | moreItems close => ∃ us c, ts = us ++ [c] ∧ Derives .listTail us ∧ c.kind = close
  | names => ∃ us c, ts = us ++ [c] ∧ Derives .names us ∧ c.kind = .rightParen
  | moreNames => ∃ us c, ts = us ++ [c] ∧ Derives .namesTail us ∧ c.kind = .rightParen
  | ending => Ending next ts
  | separator => (∃ c, ts = [c] ∧ c.kind = .semicolon) ∨ ts = [] ∧ next ∉ continuations
  | returned => ∀ t : Token, t.kind = .returnWord → Derives (.statement next) (t :: ts)
  | body => ∃ us c, ts = us ++ [c] ∧ Derives (.statements .rightBrace) us ∧ c.kind = .rightBrace
  | program => Derives (.statements next) ts

/-- The tokens, in front of a token of kind `next`, meet the goals one after the other. -/
inductive Meets (next : TokenKind) : List Goal → List Token → Prop where
  | nil : Meets next [] []
  | cons {g : Goal} {gs : List Goal} {ts us : List Token} :
      g.MetBy (firstKind us next) ts → Meets next gs us → Meets next (g :: gs) (ts ++ us)

namespace Meets

variable {next : TokenKind} {g : Goal} {gs hs : List Goal} {ts us : List Token}

lemma cons_inv (h : Meets next (g :: gs) ts) :
    ∃ us vs, ts = us ++ vs ∧ g.MetBy (firstKind vs next) us ∧ Meets next gs vs := by
  cases h with
  | cons hg hgs => exact ⟨_, _, rfl, hg, hgs⟩

lemma token {kind : TokenKind} {t : Token} (ht : Fits kind t) (h : Meets next gs ts) :
    Meets next (.token kind :: gs) (t :: ts) := by
  have hmet : Goal.MetBy (firstKind ts next) [t] (.token kind) := ⟨t, rfl, ht⟩
  exact cons hmet h

lemma token_inv {kind : TokenKind} (h : Meets next (.token kind :: gs) ts) :
    ∃ t us, ts = t :: us ∧ Fits kind t ∧ Meets next gs us := by
  obtain ⟨_, us, rfl, ⟨t, rfl, ht⟩, hus⟩ := h.cons_inv
  exact ⟨t, us, rfl, ht, hus⟩

lemma nil_inv (h : Meets next [] ts) : ts = [] := by
  cases h
  rfl

lemma singleton_inv (h : Meets next [g] ts) : g.MetBy next ts := by
  obtain ⟨us, vs, rfl, hg, hnil⟩ := h.cons_inv
  obtain rfl := hnil.nil_inv
  rwa [List.append_nil]

/-- A goal that is met by what a symbol stands for and the token that closes it. -/
lemma closed_inv {symbol : Symbol} {close : TokenKind} (h : Meets next (g :: gs) ts)
    (hg : ∀ next us, g.MetBy next us →
      ∃ vs c, us = vs ++ [c] ∧ Derives symbol vs ∧ c.kind = close) :
    ∃ us c vs, ts = us ++ c :: vs ∧ Derives symbol us ∧ c.kind = close ∧ Meets next gs vs := by
  obtain ⟨_, vs, rfl, hmet, hvs⟩ := h.cons_inv
  obtain ⟨us, c, rfl, hus, hc⟩ := hg _ _ hmet
  exact ⟨us, c, vs, List.append_assoc .., hus, hc, hvs⟩

lemma append_inv (h : Meets next (gs ++ hs) ts) :
    ∃ us vs, ts = us ++ vs ∧ Meets (firstKind vs next) gs us ∧ Meets next hs vs := by
  induction gs generalizing ts with
  | nil => exact ⟨[], ts, rfl, .nil, h⟩
  | cons g gs ih =>
    obtain ⟨us, vs, rfl, hg, hrest⟩ := h.cons_inv
    obtain ⟨us', vs', rfl, hgs, hhs⟩ := ih hrest
    refine ⟨us ++ us', vs', (List.append_assoc ..).symm, .cons ?_ hgs, hhs⟩
    rwa [← firstKind_append]

end Meets

section Sound

variable {next kind close : TokenKind} {g : Goal} {gs hs : List Goal} {t : Token} {ts us : List Token}

/-- A primary and what the expression goes on with behind it. -/
lemma Derives.expression_of_primary (h : Derives .primary ts)
    (htail : ∀ ws, Derives .applied ws → Derives .expression (ws ++ us)) :
    Derives .expression (ts ++ us) :=
  htail ts (.applied h)

/-- A prefix operator and an expression make an expression. -/
lemma Derives.expression_of_prefixed (ht : t.kind = .bang ∨ t.kind = .minus)
    (h : Derives .expression ts) : Derives .expression (t :: ts) := by
  cases h with
  | expression hl hops => exact .expression (.prefixed ht hl) hops

lemma Derives.operations_of_expression (ht : t.kind ∈ binaryOperators)
    (h : Derives .expression ts) : Derives .operations (t :: ts) := by
  cases h with
  | expression hl hops => exact .operations ht hl hops

namespace Goal

/-! ### Expressions -/

lemma derives_of_prefixed (hk : kind = .bang ∨ kind = .minus)
    (h : Meets next [token kind, expression] ts) : Derives .expression ts := by
  obtain ⟨o, us, rfl, ho, h⟩ := h.token_inv
  exact Derives.expression_of_prefixed (by rwa [ho.1]) h.singleton_inv

lemma derives_of_constant (hk : kind ∈ [.identifier, .string, .trueWord, .falseWord])
    (h : Meets next [token kind, tail] ts) : Derives .expression ts := by
  obtain ⟨t, us, rfl, ht, h⟩ := h.token_inv
  exact Derives.expression_of_primary (.constant (by rwa [ht.1])) h.singleton_inv

lemma derives_of_integer (h : Meets next [token .integer, tail] ts) : Derives .expression ts := by
  obtain ⟨t, us, rfl, ht, h⟩ := h.token_inv
  exact Derives.expression_of_primary (.integer ht.1 (ht.2 rfl)) h.singleton_inv

lemma derives_of_group (h : Meets next [token .leftParen, expression, token .rightParen, tail] ts) :
    Derives .expression ts := by
  obtain ⟨o, _, rfl, ho, h⟩ := h.token_inv
  obtain ⟨us, _, rfl, he, h⟩ := h.cons_inv
  obtain ⟨c, vs, rfl, hc, h⟩ := h.token_inv
  simpa using Derives.expression_of_primary (.group ho.1 he hc.1) h.singleton_inv

lemma derives_of_conditional (h : Meets next [token .ifWord, token .leftParen, expression,
    token .rightParen, token .leftBrace, body, alternative] ts) : Derives .expression ts := by
  obtain ⟨t, _, rfl, ht, h⟩ := h.token_inv
  obtain ⟨o, _, rfl, ho, h⟩ := h.token_inv
  obtain ⟨us, _, rfl, he, h⟩ := h.cons_inv
  obtain ⟨c, _, rfl, hc, h⟩ := h.token_inv
  obtain ⟨b, _, rfl, hb, h⟩ := h.token_inv
  obtain ⟨vs, d, _, rfl, hbody, hd, h⟩ := h.closed_inv fun _ _ => id
  obtain ⟨ws, xs, rfl, halt, htail⟩ := h.singleton_inv
  simpa using Derives.expression_of_primary
    (.conditional ht.1 ho.1 he hc.1 (.block hb.1 hbody hd) halt) htail

lemma derives_of_function (h : Meets next [token .fnWord, token .leftParen, names,
    token .leftBrace, body, tail] ts) : Derives .expression ts := by
  obtain ⟨t, _, rfl, ht, h⟩ := h.token_inv
  obtain ⟨o, _, rfl, ho, h⟩ := h.token_inv
  obtain ⟨us, c, _, rfl, hnames, hc, h⟩ := h.closed_inv fun _ _ => id
  obtain ⟨b, _, rfl, hb, h⟩ := h.token_inv
  obtain ⟨vs, d, _, rfl, hbody, hd, h⟩ := h.closed_inv fun _ _ => id
  simpa using Derives.expression_of_primary
    (.function ht.1 ho.1 hnames hc (.block hb.1 hbody hd)) h.singleton_inv

lemma derives_of_array (h : Meets next [token .leftBracket, items .rightBracket, tail] ts) :
    Derives .expression ts := by
  obtain ⟨o, _, rfl, ho, h⟩ := h.token_inv
  obtain ⟨us, c, _, rfl, hlist, hc, h⟩ := h.closed_inv fun _ _ => id
  simpa using Derives.expression_of_primary (.array ho.1 hlist hc) h.singleton_inv

/-- What meets the goals of an expression is an expression. -/
theorem derives_of_operand? (hp : operand? kind = some gs) (h : Meets next gs ts) :
    Derives .expression ts := by
  cases kind
  case bang | minus =>
    obtain rfl := Option.some.inj hp
    exact derives_of_prefixed (by simp) h
  case identifier | string | trueWord | falseWord =>
    obtain rfl := Option.some.inj hp
    exact derives_of_constant (by simp) h
  case integer =>
    obtain rfl := Option.some.inj hp
    exact derives_of_integer h
  case leftParen =>
    obtain rfl := Option.some.inj hp
    exact derives_of_group h
  case ifWord =>
    obtain rfl := Option.some.inj hp
    exact derives_of_conditional h
  case fnWord =>
    obtain rfl := Option.some.inj hp
    exact derives_of_function h
  case leftBracket =>
    obtain rfl := Option.some.inj hp
    exact derives_of_array h
  all_goals cases hp

lemma metBy_tail (hp : tail.predict (firstKind ts next) = some gs) (h : Meets next gs ts) :
    tail.MetBy next ts := by
  intro ws hws
  simp only [predict] at hp
  split at hp
  · rename_i hoperator
    obtain rfl := Option.some.inj hp
    obtain ⟨o, us, rfl, ho, h⟩ := h.token_inv
    exact .expression (.operand hws) (Derives.operations_of_expression hoperator h.singleton_inv)
  · split at hp
    · obtain rfl := Option.some.inj hp
      obtain ⟨o, _, rfl, ho, h⟩ := h.token_inv
      obtain ⟨us, c, _, rfl, hlist, hc, h⟩ := h.closed_inv fun _ _ => id
      simpa using h.singleton_inv _ (.call hws ho.1 hlist hc)
    · split at hp
      · obtain rfl := Option.some.inj hp
        obtain ⟨o, _, rfl, ho, h⟩ := h.token_inv
        obtain ⟨us, _, rfl, he, h⟩ := h.cons_inv
        obtain ⟨c, vs, rfl, hc, h⟩ := h.token_inv
        simpa using h.singleton_inv _ (.index hws ho.1 he hc.1)
      · obtain rfl := Option.some.inj hp
        obtain rfl := h.nil_inv
        exact .expression (.operand hws) .noOperation

lemma metBy_alternative (hp : alternative.predict (firstKind ts next) = some gs)
    (h : Meets next gs ts) : alternative.MetBy next ts := by
  simp only [predict] at hp
  split at hp <;> obtain rfl := Option.some.inj hp
  · obtain ⟨t, _, rfl, ht, h⟩ := h.token_inv
    obtain ⟨b, _, rfl, hb, h⟩ := h.token_inv
    obtain ⟨us, c, vs, rfl, hbody, hc, h⟩ := h.closed_inv fun _ _ => id
    exact ⟨t :: b :: (us ++ [c]), vs, by simp, .alternative ht.1 (.block hb.1 hbody hc),
      h.singleton_inv⟩
  · exact ⟨[], ts, rfl, .noAlternative, h.singleton_inv⟩

/-! ### Lists behind commas -/

lemma metBy_items (hp : (items close).predict (firstKind ts next) = some gs) (h : Meets next gs ts) :
    (items close).MetBy next ts := by
  simp only [predict] at hp
  split at hp <;> obtain rfl := Option.some.inj hp
  · obtain ⟨c, rfl, hc⟩ := h.singleton_inv
    exact ⟨[], c, rfl, .noElement, hc.1⟩
  · obtain ⟨us, _, rfl, he, h⟩ := h.cons_inv
    obtain ⟨vs, c, rfl, htail, hc⟩ := h.singleton_inv
    exact ⟨us ++ vs, c, (List.append_assoc ..).symm, .list he htail, hc⟩

lemma metBy_moreItems (hp : (moreItems close).predict (firstKind ts next) = some gs)
    (h : Meets next gs ts) : (moreItems close).MetBy next ts := by
  simp only [predict] at hp
  split at hp <;> obtain rfl := Option.some.inj hp
  · obtain ⟨x, _, rfl, hx, h⟩ := h.token_inv
    obtain ⟨us, _, rfl, he, h⟩ := h.cons_inv
    obtain ⟨vs, c, rfl, htail, hc⟩ := h.singleton_inv
    exact ⟨x :: (us ++ vs), c, by simp, .listTail hx.1 he htail, hc⟩
  · obtain ⟨c, rfl, hc⟩ := h.singleton_inv
    exact ⟨[], c, rfl, .listEnd, hc.1⟩

lemma metBy_names (hp : names.predict (firstKind ts next) = some gs) (h : Meets next gs ts) :
    names.MetBy next ts := by
  simp only [predict] at hp
  split at hp <;> obtain rfl := Option.some.inj hp
  · obtain ⟨c, rfl, hc⟩ := h.singleton_inv
    exact ⟨[], c, rfl, .noName, hc.1⟩
  · obtain ⟨x, _, rfl, hx, h⟩ := h.token_inv
    obtain ⟨us, c, rfl, htail, hc⟩ := h.singleton_inv
    exact ⟨x :: us, c, rfl, .names hx.1 htail, hc⟩

lemma metBy_moreNames (hp : moreNames.predict (firstKind ts next) = some gs) (h : Meets next gs ts) :
    moreNames.MetBy next ts := by
  simp only [predict] at hp
  split at hp <;> obtain rfl := Option.some.inj hp
  · obtain ⟨x, _, rfl, hx, h⟩ := h.token_inv
    obtain ⟨y, _, rfl, hy, h⟩ := h.token_inv
    obtain ⟨us, c, rfl, htail, hc⟩ := h.singleton_inv
    exact ⟨x :: y :: us, c, rfl, .namesTail hx.1 hy.1 htail, hc⟩
  · obtain ⟨c, rfl, hc⟩ := h.singleton_inv
    exact ⟨[], c, rfl, .namesEnd, hc.1⟩

/-! ### Statements -/

/-- What meets the goals of a statement is a statement. -/
lemma derives_of_statement (h : Meets next (statement kind) ts) : Derives (.statement next) ts := by
  unfold statement at h
  split at h
  · obtain ⟨t, _, rfl, ht, h⟩ := h.token_inv
    obtain ⟨x, _, rfl, hx, h⟩ := h.token_inv
    obtain ⟨o, _, rfl, ho, h⟩ := h.token_inv
    obtain ⟨us, vs, rfl, he, h⟩ := h.cons_inv
    exact .letBinding ht.1 hx.1 ho.1 he h.singleton_inv
  · obtain ⟨t, us, rfl, ht, h⟩ := h.token_inv
    exact h.singleton_inv t ht.1
  · obtain ⟨us, vs, rfl, he, h⟩ := h.cons_inv
    rcases h.singleton_inv with ⟨c, rfl, hc⟩ | ⟨rfl, hnext⟩
    · exact .closedExpression he hc
    · rw [List.append_nil]
      exact .openExpression he hnext

lemma metBy_ending (hp : ending.predict (firstKind ts next) = some gs) (h : Meets next gs ts) :
    ending.MetBy next ts := by
  simp only [predict] at hp
  split at hp
  · obtain rfl := Option.some.inj hp
    obtain ⟨c, rfl, hc⟩ := h.singleton_inv
    exact .semicolon hc.1
  · split at hp
    · rename_i hnext
      obtain rfl := Option.some.inj hp
      obtain rfl := h.nil_inv
      simp only [firstKind_nil, List.mem_cons, List.not_mem_nil, or_false] at hnext
      exact hnext.elim .brace .source
    · cases hp

lemma metBy_separator (hp : separator.predict (firstKind ts next) = some gs) (h : Meets next gs ts) :
    separator.MetBy next ts := by
  simp only [predict] at hp
  split at hp
  · obtain rfl := Option.some.inj hp
    obtain ⟨c, rfl, hc⟩ := h.singleton_inv
    exact .inl ⟨c, rfl, hc.1⟩
  · split at hp
    · cases hp
    · rename_i hnext
      obtain rfl := Option.some.inj hp
      obtain rfl := h.nil_inv
      exact .inr ⟨rfl, hnext⟩

lemma metBy_returned (hp : returned.predict (firstKind ts next) = some gs) (h : Meets next gs ts) :
    returned.MetBy next ts := by
  intro t ht
  simp only [predict] at hp
  split at hp <;> obtain rfl := Option.some.inj hp
  · exact .returnNothing ht h.singleton_inv
  · obtain ⟨us, vs, rfl, he, h⟩ := h.cons_inv
    exact .returnValue ht he h.singleton_inv

lemma metBy_body (hp : body.predict (firstKind ts next) = some gs) (h : Meets next gs ts) :
    body.MetBy next ts := by
  simp only [predict] at hp
  split at hp <;> obtain rfl := Option.some.inj hp
  · obtain ⟨c, rfl, hc⟩ := h.singleton_inv
    exact ⟨[], c, rfl, .noStatement, hc.1⟩
  · obtain ⟨us, _, rfl, hs, h⟩ := h.append_inv
    obtain ⟨vs, c, rfl, hbody, hc⟩ := h.singleton_inv
    refine ⟨us ++ vs, c, (List.append_assoc ..).symm, .statements ?_ hbody, hc⟩
    rw [firstKind_append, firstKind_cons, hc] at hs
    exact derives_of_statement hs

lemma metBy_program (hp : program.predict (firstKind ts next) = some gs) (h : Meets next gs ts) :
    program.MetBy next ts := by
  simp only [predict] at hp
  split at hp <;> obtain rfl := Option.some.inj hp
  · obtain rfl := h.nil_inv
    exact .noStatement
  · obtain ⟨us, vs, rfl, hs, h⟩ := h.append_inv
    exact .statements (derives_of_statement hs) h.singleton_inv

/-- What meets the goals that a goal comes down to meets the goal. -/
theorem metBy_of_predict (hp : g.predict (firstKind ts next) = some gs) (h : Meets next gs ts) :
    g.MetBy next ts := by
  cases g with
  | token _ => cases hp
  | expression => exact derives_of_operand? hp h
  | tail => exact metBy_tail hp h
  | alternative => exact metBy_alternative hp h
  | items close => exact metBy_items hp h
  | moreItems close => exact metBy_moreItems hp h
  | names => exact metBy_names hp h
  | moreNames => exact metBy_moreNames hp h
  | ending => exact metBy_ending hp h
  | separator => exact metBy_separator hp h
  | returned => exact metBy_returned hp h
  | body => exact metBy_body hp h
  | program => exact metBy_program hp h

end Goal

/-- What is read on the way to some goals belongs in front of whatever meets them. -/
theorem Run.meets (h : Run (firstKind us next) gs ts hs) (hus : Meets next hs us) :
    Meets next gs (ts ++ us) := by
  induction h with
  | refl => exact hus
  | predict hp _ ih =>
    obtain ⟨vs, ws, hts, hvs, hws⟩ := (ih hus).append_inv
    rw [← firstKind_append, hts, firstKind_append] at hp
    rw [hts]
    exact .cons (Goal.metBy_of_predict hp hvs) hws
  | token ht _ ih => exact .token ht (ih hus)

end Sound

/-! ## Programs begun -/

/-- Every goal can be met. -/
lemma Goal.exists_metBy (g : Goal) (next : TokenKind) : ∃ ts, g.MetBy next ts := by
  have hfits : ∀ kind, ∃ t, Fits kind t := fun kind =>
    ⟨⟨kind, "", default⟩, rfl, fun _ => Nat.two_pow_pos 63⟩
  have hclose : ∀ kind, ∃ t : Token, t.kind = kind := fun kind => (hfits kind).imp fun _ => And.left
  have htail : ∀ ws, Derives .applied ws → Derives .expression (ws ++ []) :=
    fun ws hws => .expression (.operand hws) .noOperation
  cases g with
  | token kind =>
    obtain ⟨t, ht⟩ := hfits kind
    exact ⟨[t], t, rfl, ht⟩
  | expression =>
    obtain ⟨t, ht⟩ := hclose .identifier
    exact ⟨[t] ++ [], htail _ (.applied (.constant (by simp [ht])))⟩
  | tail => exact ⟨[], htail⟩
  | alternative => exact ⟨[], [], [], rfl, .noAlternative, htail⟩
  | items close => exact (hclose close).elim fun c hc => ⟨[c], [], c, rfl, .noElement, hc⟩
  | moreItems close => exact (hclose close).elim fun c hc => ⟨[c], [], c, rfl, .listEnd, hc⟩
  | names => exact (hclose .rightParen).elim fun c hc => ⟨[c], [], c, rfl, .noName, hc⟩
  | moreNames => exact (hclose .rightParen).elim fun c hc => ⟨[c], [], c, rfl, .namesEnd, hc⟩
  | ending => exact (hclose .semicolon).elim fun c hc => ⟨[c], .semicolon hc⟩
  | separator => exact (hclose .semicolon).elim fun c hc => ⟨[c], .inl ⟨c, rfl, hc⟩⟩
  | returned =>
    exact (hclose .semicolon).elim fun c hc => ⟨[c], fun t ht => .returnNothing ht (.semicolon hc)⟩
  | body => exact (hclose .rightBrace).elim fun c hc => ⟨[c], [], c, rfl, .noStatement, hc⟩
  | program => exact ⟨[], .noStatement⟩

lemma exists_meets (gs : List Goal) (next : TokenKind) : ∃ ts, Meets next gs ts := by
  induction gs with
  | nil => exact ⟨[], .nil⟩
  | cons g gs ih =>
    obtain ⟨us, hus⟩ := ih
    obtain ⟨ts, hts⟩ := g.exists_metBy (firstKind us next)
    exact ⟨ts ++ us, .cons hts hus⟩

/-- The tokens that a reader of programs has passed begin a program. -/
theorem Run.exists_isProgram {next : TokenKind} {ts : List Token} {gs : List Goal}
    (h : Run next [.program] ts gs) : ∃ us, IsProgram (ts ++ us) := by
  obtain ⟨hs, hrun⟩ := h.exists_forall
  obtain ⟨us, hus⟩ := exists_meets hs .endOfInput
  exact ⟨us, ((hrun _).meets hus).singleton_inv⟩

end Grammar

end ScriptSyntax
