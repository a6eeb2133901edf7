import ScriptSyntax.Proofs.Parser.Invariant

/-!
# What a rule tells

A trail says that a rule moves the window and records diagnostics.  A course says more of the
diagnostics: each of them is about the current token or the lookahead at the time it is recorded, and
none is about a string without a closing quote, since those are told by the window alone when it
moves.  The same holds of the diagnostic that a rule fails with.

## Main statements

* `Parser.Course.exists_drop`: along a course the window moves by some number of tokens, and the
  unclosed strings that are told on the way are those of the tokens it moves onto.
* `Rule.Walks`, `Rule.statements_course`: what keeps every invariant follows a course, and so do lists of
  statements.
-/

namespace ScriptSyntax

/-- Whether the diagnostic is about a token by itself and not about where it stands. -/
def Diagnostic.isLexical (d : Diagnostic) : Bool :=
  match d.fault with
  | .unterminatedString _ => true
  | _ => false

/-- What is wrong with a token by itself is that it is a string without a closing quote. -/
lemma Lexeme.of_diagnostic? {l : Lexeme} {d : Diagnostic} (h : l.diagnostic? = some d) :
    l.closed = false ∧ d = ⟨.unterminatedString l.token.text, l.token.position⟩ := by
  unfold Lexeme.diagnostic? at h
  split at h
  · cases h
  · rename_i hopen
    exact ⟨by simpa using hopen, (Option.some.inj h).symm⟩

lemma Lexeme.isLexical_of_diagnostic? {l : Lexeme} {d : Diagnostic} (h : l.diagnostic? = some d) :
    d.isLexical = true := by
  rw [(of_diagnostic? h).2]
  rfl

/-- What is wrong with tokens by themselves is about tokens by themselves. -/
lemma filter_isLexical_filterMap (ls : List Lexeme) :
    (ls.filterMap Lexeme.diagnostic?).filter Diagnostic.isLexical =
      ls.filterMap Lexeme.diagnostic? := by
  refine List.filter_eq_self.2 fun d hd => ?_
  obtain ⟨l, -, hl⟩ := List.mem_filterMap.1 hd
  exact Lexeme.isLexical_of_diagnostic? hl

lemma filter_not_isLexical_filterMap (ls : List Lexeme) :
    ((ls.filterMap Lexeme.diagnostic?).filter fun d => !d.isLexical) = [] := by
  rw [List.filter_eq_nil_iff]
  intro d hd
  obtain ⟨l, -, hl⟩ := List.mem_filterMap.1 hd
  simp [Lexeme.isLexical_of_diagnostic? hl]

namespace Parser

/-- The diagnostics that a parser was told of, those about tokens by themselves left aside. -/
def grammatical (p : Parser) : List Diagnostic :=
  p.diagnostics.toList.filter fun d => !d.isLexical

/-- Moving the window tells of tokens by themselves only. -/
lemma grammatical_advance (p : Parser) : p.advance.grammatical = p.grammatical := by
  have happend : p.advance.diagnostics.toList =
      p.diagnostics.toList ++ p.lexemes[1]?.toList.filterMap Lexeme.diagnostic? := by
    simp [advance]
  rw [grammatical, happend, List.filter_append, filter_not_isLexical_filterMap, List.append_nil,
    grammatical]

lemma grammatical_record {p : Parser} {d : Diagnostic} (hd : d.isLexical = false) :
    (p.record d).grammatical = p.grammatical ++ [d] := by
  simp [grammatical, record, hd]

/-- The diagnostic is about the grammar, and about a token that `q` has in its window. -/
structure Reports (q : Parser) (d : Diagnostic) : Prop where
  isLexical_eq_false : d.isLexical = false
  position_eq : d.position = q.position ∨ d.position = q.lookahead.position

/-- The parser `q` comes from `p` by moving the window and recording diagnostics about the tokens in
it. -/
inductive Course (p : Parser) : Parser → Prop where
  | refl : Course p p
  | advance {q : Parser} : Course p q → Course p q.advance
  | record {q : Parser} {d : Diagnostic} : q.Reports d → Course p q → Course p (q.record d)

namespace Course

variable {p q : Parser}

lemma trail (h : p.Course q) : p.Trail q := by
  induction h with
  | refl => exact .refl
  | advance _ ih => exact ih.advance
  | record _ _ ih => exact ih.record _

lemma synchronize (h : p.Course q) (inBlock : Bool) : p.Course (q.synchronize inBlock) :=
  synchronize_induction (motive := fun r => p.Course r) (fun _ hr => hr.advance) h

/-- The window moves by some number of tokens, and tells on its way which of the tokens that become
current are strings without a closing quote. -/
theorem exists_drop (h : p.Course q) :
    ∃ m, q.lexemes = p.lexemes.drop m ∧
      q.diagnostics.toList.filter Diagnostic.isLexical =
        p.diagnostics.toList.filter Diagnostic.isLexical ++
          (p.lexemes.tail.take m).filterMap Lexeme.diagnostic? := by
  induction h with
  | refl => exact ⟨0, by simp⟩
  | @advance q _ ih =>
    obtain ⟨m, hlexemes, hdiagnostics⟩ := ih
    refine ⟨m + 1, by rw [Parser.lexemes_advance, hlexemes, List.tail_drop], ?_⟩
    have hnext : q.lexemes[1]? = p.lexemes.tail[m]? := by
      rw [hlexemes, List.getElem?_drop, List.getElem?_tail]
    rw [List.take_add_one, List.filterMap_append, ← List.append_assoc, ← hdiagnostics, ← hnext,
      ← filter_isLexical_filterMap]
    simp [Parser.advance]
  | @record q d hd _ ih =>
    obtain ⟨m, hlexemes, hdiagnostics⟩ := ih
    refine ⟨m, hlexemes, ?_⟩
    rw [← hdiagnostics]
    simp [Parser.record, hd.isLexical_eq_false]

end Course

/-- What a rule fails with is about the grammar, and about a token in the window. -/
lemma Raises.reports {Holds : Parser → Prop} {q : Parser} {d : Diagnostic} (h : q.Raises Holds d) :
    q.Reports d where
  isLexical_eq_false := by cases h <;> rfl
  position_eq := h.position_eq

lemma Course.record_of_raises {Holds : Parser → Prop} {p q : Parser} {d : Diagnostic} {depth : Nat}
    (h : p.Course { q with depth := depth }) (hd : q.Raises Holds d) :
    p.Course { q.record d with depth := depth } :=
  record (q := { q with depth := depth }) (hd.with_depth depth).reports h

/-- To come from `p` along a course is an invariant, the levels of nesting left aside. -/
def courseFrom (p : Parser) : Invariant where
  Holds q := p.Course { q with depth := p.depth }
  Entered q := p.Course { q with depth := p.depth }
  entered_of_holds h := h
  advance h := h.advance
  advance_of_entered h _ := h.advance
  enter h := h
  leave h := h
  recover _ h hd :=
    (synchronize_induction (motive := fun q => p.Course { q with depth := p.depth })
      (fun _ hq => hq.advance) (h.record_of_raises hd)).advance
  close h hd _ := h.record_of_raises hd

lemma holds_courseFrom (p : Parser) : p.courseFrom.Holds p := Course.refl

lemma course_of_holds {p q : Parser} (hdepth : q.depth = p.depth) (h : p.courseFrom.Holds q) :
    p.Course q := by
  have hback : { q with depth := p.depth } = q := by rw [← hdepth]
  rw [← hback]
  exact h

end Parser

namespace Rule

/-! ## Rules that keep a course -/

/-- How a rule ends that started on `p`: along a course, and if it failed with a diagnostic about a
token in its window. -/
inductive Ends (p : Parser) {α : Type} : EStateM.Result Diagnostic Parser α → Prop where
  | ok {a : α} {q : Parser} : p.Course q → Ends p (.ok a q)
  | error {d : Diagnostic} {q : Parser} : p.Course q → q.Reports d → Ends p (.error d q)

/-- A rule that follows a course on every parser. -/
class Walks {α : Type} (rule : ParseM α) : Prop where
  ends : ∀ p : Parser, Ends p (rule p)

lemma Walks.course {α : Type} (rule : ParseM α) [h : Walks rule] (p : Parser) :
    p.Course (final (rule p)) := by
  have hends := h.ends p
  generalize rule p = r at hends
  cases hends <;> assumption

/-- A rule that keeps every invariant follows a course. -/
instance {α : Type} (rule : ParseM α) [h : ∀ (I : Invariant) (depth : Nat), I.Keeps depth rule] :
    Walks rule where
  ends p := by
    have hends := (h p.courseFrom p.depth).ends p rfl p.holds_courseFrom
    generalize rule p = r at hends
    cases hends with
    | ok hdepth hq => exact .ok (Parser.course_of_holds hdepth hq)
    | error hdepth hq hd => exact .error (Parser.course_of_holds hdepth hq) hd.reports

/-- No token is an unclosed string for standing alone as an expression. -/
lemma isLexical_of_ofToken {t : Token} {fault : Fault} (h : Expr.ofToken t = .error fault)
    (place : Position) : Diagnostic.isLexical ⟨fault, place⟩ = false := by
  unfold Expr.ofToken at h
  split at h <;> try cases h
  · dsimp only at h
    split at h
    · cases h
    · cases h
      rfl
  · rfl

-- on tokens that start other operands this rule fails as no parse does, so that invariants say
-- nothing of it
instance : Walks literal where
  ends p := by
    simp only [literal, bind_apply, get_apply]
    cases h : Expr.ofToken p.current with
    | ok e => exact .ok .refl
    | error fault => exact .error .refl ⟨isLexical_of_ofToken h _, .inl rfl⟩

/-- A list of statements is read along a course. -/
theorem statements_course (sub : Subparser)
    [∀ (I : Invariant) (depth : Nat) (power : Power), I.Keeps depth (sub power)] (inBlock : Bool)
    (rounds : List Lexeme) (p : Parser) : p.Course (statements sub inBlock rounds p).2 := by
  obtain ⟨hdepth, hholds⟩ :=
    Invariant.holds_statements (I := p.courseFrom) sub inBlock rounds rfl p.holds_courseFrom
  exact Parser.course_of_holds hdepth hholds

end Rule

end ScriptSyntax
