import ScriptSyntax.Proofs.Nesting
import ScriptSyntax.Proofs.Scanner.Tokenization
import ScriptSyntax.Proofs.Tree.Stored

/-!
# The order of the tokens in a tree

A tree holds the tokens it was read from, in their order and each once, but for punctuation: parentheses
around groups, conditions and parameters, closing delimiters, separators, and the words and signs that
stand for nothing by themselves.  So a tree that is read from tokens in the order of the source holds
them in this order, and what recovery dropped makes no difference, because dropping keeps the order of
what is left.

## Main statements

* `Grammar.Reads.stores`: a tree holds the tokens it was read from, but for punctuation.
* `Grammar.Reads.arranged`: the expression statements of a list stand at their own tokens.
* `parse_stored`: the tokens in the tree of a source.
-/

namespace ScriptSyntax

namespace Grammar

/-! ## Leaving out punctuation -/

/-- The tokens that a tree may leave out. -/
def punctuation : List TokenKind :=
  [.leftParen, .rightParen, .rightBracket, .rightBrace, .comma, .semicolon, .assign, .elseWord]

/-- The tokens `us` are what is left of `ts` when punctuation is left out. -/
structure Omits (ts us : List Token) : Prop where
  sublist : us.Sublist ts
  mem_or : ∀ t ∈ ts, t ∈ us ∨ t.kind ∈ punctuation

namespace Omits

variable {t : Token} {ts us ts' us' : List Token}

lemma nil : Omits [] [] := ⟨List.Sublist.slnil, fun _ h => absurd h List.not_mem_nil⟩

lemma append (h : Omits ts us) (h' : Omits ts' us') : Omits (ts ++ ts') (us ++ us') where
  sublist := h.sublist.append h'.sublist
  mem_or t ht := by
    rcases List.mem_append.1 ht with ht | ht
    · exact (h.mem_or t ht).imp_left (List.mem_append_left us')
    · exact (h'.mem_or t ht).imp_left (List.mem_append_right us)

lemma keep (t : Token) (h : Omits ts us) : Omits (t :: ts) (t :: us) where
  sublist := h.sublist.cons_cons t
  mem_or u hu := by
    rcases List.mem_cons.1 hu with rfl | hu
    · exact .inl List.mem_cons_self
    · exact (h.mem_or u hu).imp_left (List.mem_cons_of_mem t)

lemma drop (ht : t.kind ∈ punctuation) (h : Omits ts us) : Omits (t :: ts) us where
  sublist := h.sublist.cons t
  mem_or u hu := by
    rcases List.mem_cons.1 hu with rfl | hu
    · exact .inr ht
    · exact h.mem_or u hu

lemma drop_last (ht : t.kind ∈ punctuation) (h : Omits ts us) : Omits (ts ++ [t]) us := by
  have := h.append (nil.drop ht)
  rwa [List.append_nil] at this

end Omits

/-- What ends a statement is left out. -/
lemma Ending.omits {us : List Token} {next : TokenKind} (h : Ending next us) : Omits us [] := by
  cases h with
  | semicolon hs => exact Omits.nil.drop (by rw [hs]; decide)
  | brace | source => exact .nil

/-! ## What a tree holds -/

/-- The tokens `us` are those that a phrase puts into its tree. -/
def Phrase.Stores (us : List Token) : Phrase → Prop
  | .expression _ e | .operand e => us = e.stored
  | .operators _ l e => e.stored = l.stored ++ us
  | .items es | .itemsTail es => us = storedEach es
  | .names ids | .namesTail ids => us = ids.map Identifier.token
  | .alternative block? => us = storedElse block?
  | .block b => us = b.stored
  | .statement s => us = s.stored
  | .statements body => us = storedStmts body

/-- A tree holds the tokens it was read from, but for punctuation. -/
theorem Reads.stores {n : Nat} {phrase : Phrase} {ts : List Token} {next : TokenKind}
    (h : Reads n phrase ts next) : ∃ us, Omits ts us ∧ phrase.Stores us := by
  induction h with
  | expression _ _ ihl ihe =>
    obtain ⟨us, hus, rfl⟩ := ihl
    obtain ⟨vs, hvs, he⟩ := ihe
    exact ⟨_, hus.append hvs, he.symm⟩
  | @literal t e next ht =>
    refine ⟨[t], Omits.nil.keep t, ?_⟩
    rcases expr_of_ofToken_eq_ok ht with rfl | ⟨value, rfl⟩ | rfl | ⟨value, rfl⟩ <;> rfl
  | @prefixed n o r ts next _ _ ih =>
    obtain ⟨us, hus, rfl⟩ := ih
    exact ⟨_, hus.keep o, rfl⟩
  | group ho _ hc ih =>
    obtain ⟨us, hus, rfl⟩ := ih
    exact ⟨_, (hus.drop_last (by rw [hc]; decide)).drop (by rw [ho]; decide), rfl⟩
  | @conditional n m k t o c e b alt ts us vs next _ ho _ hc _ _ ih ihb ihalt =>
    obtain ⟨es, hes, rfl⟩ := ih
    obtain ⟨bs, hbs, rfl⟩ := ihb
    obtain ⟨as, has, rfl⟩ := ihalt
    have hbody := (hbs.append has).drop (t := c) (by rw [hc]; decide)
    exact ⟨_, ((hes.append hbody).drop (by rw [ho]; decide)).keep t, rfl⟩
  | @function n t o c ids b ts us next _ ho _ hc _ ihids ihb =>
    obtain ⟨is, his, rfl⟩ := ihids
    obtain ⟨bs, hbs, rfl⟩ := ihb
    have hbody := hbs.drop (t := c) (by rw [hc]; decide)
    exact ⟨_, ((his.append hbody).drop (by rw [ho]; decide)).keep t, rfl⟩
  | @array n o c es ts next _ _ hc ih =>
    obtain ⟨us, hus, rfl⟩ := ih
    exact ⟨_, (hus.drop_last (by rw [hc]; decide)).keep o, rfl⟩
  | operatorsEnd _ => exact ⟨[], .nil, (List.append_nil _).symm⟩
  | @infixed n m power o l r e ts us next _ _ _ _ ihr ihe =>
    obtain ⟨rs, hrs, rfl⟩ := ihr
    obtain ⟨vs, hvs, he⟩ := ihe
    refine ⟨_, (hrs.append hvs).keep o, Eq.trans he ?_⟩
    simp [Expr.stored]
  | @call n m power o c l e es ts us next _ _ _ hc _ ihes ihe =>
    obtain ⟨as, has, rfl⟩ := ihes
    obtain ⟨vs, hvs, he⟩ := ihe
    refine ⟨_, (has.append (hvs.drop (t := c) (by rw [hc]; decide))).keep o, Eq.trans he ?_⟩
    simp [Expr.stored]
  | @index n m power o c l r e ts us next _ _ _ hc _ ihr ihe =>
    obtain ⟨rs, hrs, rfl⟩ := ihr
    obtain ⟨vs, hvs, he⟩ := ihe
    refine ⟨_, (hrs.append (hvs.drop (t := c) (by rw [hc]; decide))).keep o, Eq.trans he ?_⟩
    simp [Expr.stored]
  | noItem | itemsEnd | noName | namesEnd | noAlternative | noStatement => exact ⟨[], .nil, rfl⟩
  | items _ _ ih ihes =>
    obtain ⟨us, hus, rfl⟩ := ih
    obtain ⟨vs, hvs, rfl⟩ := ihes
    exact ⟨_, hus.append hvs, rfl⟩
  | itemsTail hc _ _ ih ihes =>
    obtain ⟨us, hus, rfl⟩ := ih
    obtain ⟨vs, hvs, rfl⟩ := ihes
    exact ⟨_, (hus.append hvs).drop (by rw [hc]; decide), rfl⟩
  | @names x ids ts next _ _ ih =>
    obtain ⟨us, hus, rfl⟩ := ih
    exact ⟨_, hus.keep x, rfl⟩
  | @namesTail c x ids ts next hc _ _ ih =>
    obtain ⟨us, hus, rfl⟩ := ih
    exact ⟨_, (hus.keep x).drop (by rw [hc]; decide), rfl⟩
  | alternative ht _ ih =>
    obtain ⟨us, hus, rfl⟩ := ih
    exact ⟨_, hus.drop (by rw [ht]; decide), rfl⟩
  | @block n o c body ts next _ _ hc ih =>
    obtain ⟨us, hus, rfl⟩ := ih
    exact ⟨_, (hus.drop_last (by rw [hc]; decide)).keep o, rfl⟩
  | statements _ _ ih ihbody =>
    obtain ⟨us, hus, rfl⟩ := ih
    obtain ⟨vs, hvs, rfl⟩ := ihbody
    exact ⟨_, hus.append hvs, rfl⟩
  | @letBinding n t x o e ts us next _ _ ho _ hend ih =>
    obtain ⟨vs, hvs, rfl⟩ := ih
    have hvalue := hvs.append hend.omits
    rw [List.append_nil] at hvalue
    exact ⟨_, ((hvalue.drop (by rw [ho]; decide)).keep x).keep t, rfl⟩
  | @returnNothing t us next _ hend => exact ⟨_, hend.omits.keep t, rfl⟩
  | @returnValue n t e ts us next _ _ hend ih =>
    obtain ⟨vs, hvs, rfl⟩ := ih
    have hvalue := hvs.append hend.omits
    rw [List.append_nil] at hvalue
    exact ⟨_, hvalue.keep t, rfl⟩
  | closedExpression _ hc ih =>
    obtain ⟨us, hus, rfl⟩ := ih
    exact ⟨_, hus.drop_last (by rw [hc]; decide), rfl⟩
  | openExpression _ _ ih =>
    obtain ⟨us, hus, rfl⟩ := ih
    exact ⟨_, hus, rfl⟩

/-! ## Where expression statements stand -/

/-- The expression statements of a list stand at their own tokens: the expression has none before it,
and the statements in front have none behind it. -/
structure Arranged (body : List Stmt) : Prop where
  begins : ∀ t e, .expression t e ∈ body → ∃ u ∈ e.stored.head?, t.first ≤ u.first
  follows : body.Pairwise fun s s' => ∀ t e, s' = .expression t e → ∀ u ∈ s.stored, u.first < t.first

section Statements

variable {n : Nat} {t : Token} {e : Expr} {s : Stmt} {body : List Stmt} {ts : List Token}
  {next : TokenKind}

lemma Reads.stored_sublist (h : Reads n (.statement s) ts next) : s.stored.Sublist ts := by
  obtain ⟨us, hus, rfl⟩ := h.stores
  exact hus.sublist

/-- An expression statement is read from its own token on. -/
lemma Reads.exists_cons (h : Reads n (.statement (.expression t e)) ts next) :
    ∃ us, ts = t :: us := by
  cases h with
  | closedExpression _ _ | openExpression _ _ => exact ⟨_, rfl⟩

lemma Reads.token_mem (h : Reads n (.statements body) ts next) (hs : .expression t e ∈ body) :
    t ∈ ts := by
  generalize hphrase : Phrase.statements body = phrase at h
  induction h generalizing body with
  | noStatement =>
    obtain rfl := Phrase.statements.inj hphrase
    exact absurd hs List.not_mem_nil
  | statements hread _ _ ih =>
    obtain rfl := Phrase.statements.inj hphrase
    rcases List.mem_cons.1 hs with rfl | hs
    · obtain ⟨us, rfl⟩ := hread.exists_cons
      exact List.mem_cons_self
    · exact List.mem_append_right _ (ih hs rfl)
  | _ => cases hphrase

/-- Read from tokens in the order of the source, the expression of a statement does not begin before the
token of the statement. -/
lemma Reads.begins (h : Reads n (.statement (.expression t e)) ts next)
    (hts : ts.Pairwise fun t u => t.first < u.first) : ∃ u ∈ e.stored.head?, t.first ≤ u.first := by
  obtain ⟨us, rfl⟩ := h.exists_cons
  obtain ⟨u, hu⟩ := Option.ne_none_iff_exists'.1 (mt List.head?_eq_none_iff.1 e.stored_ne_nil)
  refine ⟨u, hu, ?_⟩
  rcases List.mem_cons.1 (h.stored_sublist.subset (List.mem_of_mem_head? hu)) with rfl | hmem
  · exact le_rfl
  · exact (List.rel_of_pairwise_cons hts hmem).le

/-- Read from tokens in the order of the source, expression statements stand at their own tokens. -/
theorem Reads.arranged (h : Reads n (.statements body) ts next)
    (hts : ts.Pairwise fun t u => t.first < u.first) : Arranged body := by
  generalize hphrase : Phrase.statements body = phrase at h
  induction h generalizing body with
  | noStatement =>
    obtain rfl := Phrase.statements.inj hphrase
    exact ⟨fun t e hs => absurd hs List.not_mem_nil, .nil⟩
  | statements hread hbody _ ih =>
    obtain rfl := Phrase.statements.inj hphrase
    obtain ⟨hfront, hback, hcross⟩ := List.pairwise_append.1 hts
    have hrest := ih hback rfl
    constructor
    · intro t e hs
      rcases List.mem_cons.1 hs with rfl | hs
      · exact hread.begins hfront
      · exact hrest.begins t e hs
    · refine List.pairwise_cons.2 ⟨fun s' hs' t e heq u hu => ?_, hrest.follows⟩
      exact hcross u (hread.stored_sublist.subset hu) t (hbody.token_mem (heq ▸ hs'))
  | _ => cases hphrase

end Statements

end Grammar

open Grammar

/-- The tree of a source holds tokens of the source in their order, each once, whether something is
wrong with it or not, and its expression statements stand at their own tokens, in blocks as well.  If
nothing is wrong the tree leaves out punctuation only. -/
theorem parse_stored (source : String) (label? : Option String) (hlen : source.length < 2 ^ 32) :
    ((parse source label?).program.stored.Pairwise fun t u => t.first < u.first) ∧
      (∀ t ∈ (parse source label?).program.stored, t ∈ tokenize source label?) ∧
      Arranged (parse source label?).program ∧
      (∀ s ∈ (parse source label?).program, ∀ count b, (Node.stmt s).Path count (.block b) →
        Arranged b.body) ∧
      ((parse source label?).diagnostics = [] →
        ∀ t ∈ tokenize source label?, t ∉ (parse source label?).program.stored →
          t.kind ∈ .endOfInput :: punctuation) := by
  obtain ⟨n, ts, -, hsub, hreads, hall⟩ := exists_reads_parse source label?
  have hsource : ts.Sublist (tokenize source label?) := hsub.trans (List.dropLast_sublist _)
  have hordered := (tokenize_pairwise_first hlen label?).sublist hsource
  obtain ⟨us, homits, hus⟩ := hreads.stores
  obtain rfl : us = (parse source label?).program.stored := hus.trans (storedStmts_eq_flatMap _)
  refine ⟨hordered.sublist homits.sublist, fun t ht => hsource.subset (homits.sublist.subset ht),
    hreads.arranged hordered, fun s hs count b hpath => ?_, fun hd t ht hnot => ?_⟩
  · obtain ⟨m, vs, hvs, hbody⟩ := (Phrase.below_of_reads hreads s hs).blockRead count b hpath
    exact hbody.arranged (hordered.sublist hvs.sublist)
  · rw [Parser.tokenize_eq_start, Parser.tokens_start, ← hall hd, List.mem_append] at ht
    rcases ht with ht | ht
    · exact List.mem_cons_of_mem _ ((homits.mem_or t ht).resolve_left hnot)
    · rw [List.mem_singleton.1 ht]
      exact List.mem_cons_self

/-- A block with a faulty statement in front of a group: of the statement nothing is held, of the group
only what is inside. -/
theorem parse_stored_faulty_block :
    "fn(x) \x7b let = 1; (x) \x7d".length < 2 ^ 32 ∧
      (parse "fn(x) \x7b let = 1; (x) \x7d" none).program.stored.map Token.first = [0, 3, 6, 18] ∧
      ((parse "fn(x) \x7b let = 1; (x) \x7d" none).program.stored.Pairwise
        fun t u => t.first < u.first) :=
  ⟨by decide, by decide +kernel, (parse_stored "fn(x) \x7b let = 1; (x) \x7d" none (by decide)).1⟩

end ScriptSyntax
