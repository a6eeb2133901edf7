import ScriptSyntax.Proofs.Parser.Course
import ScriptSyntax.Proofs.Scanner.Scan

/-!
# Driving a parser by hand

A parser need not run by itself: everything it does can be asked of it from outside, in any order and
on any token.  Whatever is asked, the parser goes along the tokens that its scanner had still to
yield, and tells of each unclosed string once, when it becomes the current token.

## Main statements

* `Operation.course`: an operation moves the parser along a course, diagnostics recorded by hand left
  aside.
* `window_after`: after any operations the window shows two tokens in a row of those that the scanner
  had to yield, and the lexical diagnostics are those of the tokens up to the current one.
-/

namespace ScriptSyntax

/-! ## What a scanner has still to yield -/

namespace Scanner

variable (s : Scanner)

/-- The scanner after it has yielded `count` tokens. -/
def pulled (count : ℕ) : Scanner := (fun r => r.next.2)^[count] s

/-- The token that the scanner yields after `index` others; behind the last one that is the end
marker. -/
def yielded (index : ℕ) : Token := (s.pulled index).next.1

/-- What the scanner finds wrong with the token that it yields after `index` others. -/
def fault? (index : ℕ) : Option Diagnostic :=
  (s.pulled index).next?.bind fun found => found.1.diagnostic?

end Scanner

/-! ## Operations -/

/-- What can be asked of a parser. -/
inductive Operation where
  | advance
  | expect (kind : TokenKind)
  | expectEnd
  | unexpected (kind : TokenKind)
  | record (d : Diagnostic)
  | synchronize (inBlock : Bool)
  | enterNesting
  | leaveNesting
  | program
  | block
  | statement
  | letStatement
  | returnStatement
  | expressionStatement
  | expression (power : Power)
  | literal
  | prefixed
  | group
  | conditional
  | function
  | array
  | infixed (left : Expr) (power : Power)
  | call (left : Expr)
  | index (left : Expr)

namespace Operation

open Rule

/-- The parser after an operation, whether it failed or not. -/
def apply : Operation → Parser → Parser
  | advance, p => p.advance
  | expect kind, p => final (Rule.expect kind p)
  | expectEnd, p => final (Rule.expectEnd p)
  | unexpected _, p => p
  | record d, p => p.record d
  | synchronize inBlock, p => p.synchronize inBlock
  | enterNesting, p => final (p.enterNesting)
  | leaveNesting, p => p.leaveNesting
  | program, p => p.program.2
  | block, p => final (Rule.block Rule.expression p)
  | statement, p => final (Rule.statement Rule.expression p)
  | letStatement, p => final (Rule.letStatement Rule.expression p)
  | returnStatement, p => final (Rule.returnStatement Rule.expression p)
  | expressionStatement, p => final (Rule.expressionStatement Rule.expression p)
  | expression power, p => final (Rule.expression power p)
  | literal, p => final (Rule.literal p)
  | prefixed, p => final (Rule.prefixed Rule.expression p)
  | group, p => final (Rule.group Rule.expression p)
  | conditional, p => final (Rule.conditional Rule.expression p)
  | function, p => final (Rule.function Rule.expression p)
  | array, p => final (Rule.array Rule.expression p)
  | infixed left power, p => final (Rule.infixed Rule.expression left power p)
  | call left, p => final (Rule.call Rule.expression left p)
  | index left, p => final (Rule.index Rule.expression left p)

/-- Whether the operation records a diagnostic from outside. -/
def isRecord : Operation → Bool
  | record _ => true
  | _ => false

/-- The parser after some operations, one after the other. -/
def run (ops : List Operation) (p : Parser) : Parser := ops.foldl (fun q op => op.apply q) p

/-- The diagnostics that come up during some operations, each with whether it was recorded from
outside. -/
def ledger : List Operation → Parser → List (Diagnostic × Bool)
  | [], _ => []
  | op :: ops, p =>
    ((op.apply p).diagnostics.toList.drop p.diagnostics.toList.length).map (·, op.isRecord) ++
      ledger ops (op.apply p)

/-- The diagnostics of a ledger that the parser has found itself. -/
def own (entries : List (Diagnostic × Bool)) : List Diagnostic :=
  (entries.filter fun entry => !entry.2).map Prod.fst

end Operation

/-! ## One operation -/

namespace Parser

/-- From `p` to `q` the window moves by `count` tokens and the diagnostics `told` are added. -/
structure Turns (p q : Parser) (count : ℕ) (told : List Diagnostic) : Prop where
  lexemes_eq : q.lexemes = p.lexemes.drop count
  finish_eq : q.finish = p.finish
  diagnostics_eq : q.diagnostics.toList = p.diagnostics.toList ++ told

/-- What is wrong by itself with the `count` tokens behind the current one. -/
def faultsAhead (p : Parser) (count : ℕ) : List Diagnostic :=
  (p.lexemes.tail.take count).filterMap Lexeme.diagnostic?

namespace Turns

variable {p q r : Parser} {count count' : ℕ} {told told' : List Diagnostic}

lemma refl (p : Parser) : p.Turns p 0 [] := ⟨rfl, rfl, (List.append_nil _).symm⟩

lemma trans (h : p.Turns q count told) (h' : q.Turns r count' told') :
    p.Turns r (count + count') (told ++ told') where
  lexemes_eq := by rw [h'.lexemes_eq, h.lexemes_eq, List.drop_drop]
  finish_eq := h'.finish_eq.trans h.finish_eq
  diagnostics_eq := by rw [h'.diagnostics_eq, h.diagnostics_eq, List.append_assoc]

lemma faultsAhead_add (h : p.Turns q count told) (further : ℕ) :
    p.faultsAhead (count + further) = p.faultsAhead count ++ q.faultsAhead further := by
  have htail : q.lexemes.tail = p.lexemes.tail.drop count := by
    rw [h.lexemes_eq, List.tail_drop, ← List.drop_one, List.drop_drop, Nat.add_comm]
  rw [faultsAhead, faultsAhead, faultsAhead, htail, List.take_add, List.filterMap_append]

end Turns

/-- Along a course the lexical diagnostics are those of the tokens that become current. -/
lemma Course.turns {p q : Parser} (h : p.Course q) :
    ∃ count told, p.Turns q count told ∧ told.filter Diagnostic.isLexical = p.faultsAhead count := by
  obtain ⟨count, hlexemes, hlexical⟩ := h.exists_drop
  obtain ⟨told, htold⟩ := h.trail.diagnostics_isPrefix
  refine ⟨count, told, ⟨hlexemes, h.trail.finish_eq, htold.symm⟩, ?_⟩
  rw [← htold, List.filter_append] at hlexical
  exact List.append_cancel_left hlexical

end Parser

namespace Operation

open Rule

variable {p : Parser} {op : Operation}

/-- An operation other than recording from outside tells the lexical diagnostics of the tokens that
become current, and no others. -/
theorem turns_apply (h : op.isRecord = false) :
    ∃ count told, p.Turns (op.apply p) count told ∧
      told.filter Diagnostic.isLexical = p.faultsAhead count := by
  have hrule : ∀ {α : Type} (rule : ParseM α) [Walks rule],
      ∃ count told, p.Turns (final (rule p)) count told ∧
        told.filter Diagnostic.isLexical = p.faultsAhead count :=
    fun rule _ => (Walks.course rule p).turns
  have hidle : ∀ depth, ∃ count told, p.Turns { p with depth := depth } count told ∧
      told.filter Diagnostic.isLexical = p.faultsAhead count := fun depth =>
    ⟨0, [], ⟨rfl, rfl, (List.append_nil _).symm⟩, rfl⟩
  cases op with
  | advance => exact Parser.Course.refl.advance.turns
  | unexpected => exact Parser.Course.refl.turns
  | record => cases h
  | synchronize inBlock => exact (Parser.Course.refl.synchronize inBlock).turns
  | enterNesting =>
    simp only [apply, enterNesting_apply]
    split
    · exact hidle _
    · exact Parser.Course.refl.turns
  | leaveNesting => exact hidle _
  | program =>
    -- noting the beginning and the end changes the transcript only
    obtain ⟨count, told, hturns, hlexical⟩ :=
      (statements_course Rule.expression false p.lexemes (p.note (.began p.label))).turns
    exact ⟨count, told, ⟨hturns.lexemes_eq, hturns.finish_eq, hturns.diagnostics_eq⟩, hlexical⟩
  | expect | expectEnd | block | statement | letStatement | returnStatement | expressionStatement
  | expression | literal | prefixed | group | conditional | function | array | infixed | call
  | index => exact hrule _

/-! ## Any operations -/

@[simp] lemma run_cons (ops : List Operation) : run (op :: ops) p = run ops (op.apply p) := rfl

/-- What an operation enters in the ledger. -/
lemma ledger_cons {count : ℕ} {told : List Diagnostic} (h : p.Turns (op.apply p) count told)
    (ops : List Operation) :
    ledger (op :: ops) p = told.map (·, op.isRecord) ++ ledger ops (op.apply p) := by
  rw [ledger, h.diagnostics_eq, List.drop_left]

lemma own_append (entries entries' : List (Diagnostic × Bool)) :
    own (entries ++ entries') = own entries ++ own entries' := by
  rw [own, List.filter_append, List.map_append, own, own]

/-- An operation turns the window by some number of tokens, and the parser tells the lexical
diagnostics of the tokens that become current, and no others. -/
lemma exists_turns_apply (op : Operation) (p : Parser) :
    ∃ count told, p.Turns (op.apply p) count told ∧
      (own (told.map (·, op.isRecord))).filter Diagnostic.isLexical = p.faultsAhead count := by
  cases h : op.isRecord with
  | false =>
    obtain ⟨count, told, hturns, hlexical⟩ := turns_apply (p := p) h
    refine ⟨count, told, hturns, ?_⟩
    rw [← hlexical]
    simp [own, List.filter_map, Function.comp_def]
  | true =>
    cases op with
    | record d =>
      refine ⟨0, [d], ⟨rfl, rfl, ?_⟩, rfl⟩
      simp [apply, Parser.record]
    | _ => cases h

/-- Operations add to the diagnostics what they enter in the ledger, and the window turns by some
number of tokens on which the parser has told what is wrong by itself. -/
theorem exists_turns_run (ops : List Operation) (p : Parser) :
    ∃ count : ℕ → ℕ, count 0 = 0 ∧ Monotone count ∧ ∀ i,
      p.Turns (run (ops.take i) p) (count i) ((ledger (ops.take i) p).map Prod.fst) ∧
        (own (ledger (ops.take i) p)).filter Diagnostic.isLexical = p.faultsAhead (count i) := by
  induction ops generalizing p with
  | nil =>
    refine ⟨fun _ => 0, rfl, monotone_const, fun i => ?_⟩
    rw [List.take_nil]
    exact ⟨.refl p, rfl⟩
  | cons op ops ih =>
    obtain ⟨count, hzero, hmono, hrun⟩ := ih (op.apply p)
    obtain ⟨first, told, hturns, hlexical⟩ := exists_turns_apply op p
    refine ⟨fun i => i.casesOn 0 fun i => first + count i, rfl, ?_, fun i => ?_⟩
    · refine monotone_nat_of_le_succ fun i => ?_
      cases i with
      | zero => exact Nat.zero_le _
      | succ i => exact Nat.add_le_add_left (hmono (Nat.le_succ i)) first
    · cases i with
      | zero => exact ⟨.refl p, rfl⟩
      | succ i =>
        obtain ⟨hi, hown⟩ := hrun i
        rw [List.take_succ_cons, run_cons, ledger_cons hturns]
        constructor
        · have hfst : (told.map (·, op.isRecord)).map Prod.fst = told := by
            rw [List.map_map]
            exact List.map_id told
          rw [List.map_append, hfst]
          exact hturns.trans hi
        · rw [own_append, List.filter_append, hlexical, hown]
          exact (hturns.faultsAhead_add _).symm

end Operation

/-! ## The window -/

namespace Scanner

variable (s : Scanner)

lemma pulled_succ (count : ℕ) : s.pulled (count + 1) = s.next.2.pulled count := rfl

lemma skipSpaces_of_rest_eq_nil {s : Scanner} (h : s.rest = []) : s.skipSpaces = s := by
  obtain ⟨label, offset, rest, pending⟩ := s
  subst h
  rfl

/-- The tokens that a scanner yields one by one are those it has to come, and then the end marker. -/
lemma yielded_eq (index : ℕ) :
    s.yielded index =
        (s.lexemes.1[index]?.map Lexeme.token).getD (.endOfInput s.lexemes.2.position) ∧
      s.fault? index = s.lexemes.1[index]?.bind Lexeme.diagnostic? := by
  induction index generalizing s with
  | zero =>
    rw [lexemes_eq, yielded, fault?, next]
    cases hnext : s.next? with
    | none => simp [pulled, hnext]
    | some found => simp [pulled, hnext]
  | succ index ih =>
    have htail := ih s.next.2
    rw [yielded, fault?, pulled_succ, ← yielded, ← fault?, htail.1, htail.2, lexemes_eq s, next]
    cases hnext : s.next? with
    | none =>
      have hidle : s.skipSpaces.lexemes = ([], s.skipSpaces) := by
        have hrest := (next_of_next?_eq_none hnext).2
        rw [lexemes_eq, next?_eq, hrest, List.dropWhile_nil, skipSpaces_of_rest_eq_nil hrest]
      simp [hidle]
    | some found => simp

/-- Unclosed strings are all that a scanner finds. -/
lemma isLexical_of_mem_pending (source : String) (label? : Option String) (count : ℕ) :
    ∀ d ∈ ((ofSource source label?).pulled count).pending, d.isLexical = true := by
  have hnext : ∀ s : Scanner, (∀ d ∈ s.pending, d.isLexical = true) →
      ∀ d ∈ s.next.2.pending, d.isLexical = true := by
    intro s hs d hd
    rw [next] at hd
    cases hfound : s.next? with
    | none =>
      rw [hfound] at hd
      exact hs d hd
    | some found =>
      rw [hfound] at hd
      rw [next?_eq] at hfound
      split at hfound
      · cases hfound
      · rename_i c rest _
        rw [← Option.some.inj hfound] at hd
        rcases List.mem_append.1 hd with hd | hd
        · exact hs d hd
        · exact Lexeme.isLexical_of_diagnostic? (Option.mem_toList.1 hd)
  induction count with
  | zero =>
    intro d hd
    cases hd
  | succ count ih =>
    rw [pulled, Function.iterate_succ_apply']
    exact hnext _ ih

/-- The faults of the first tokens. -/
lemma filterMap_fault? (count : ℕ) :
    (List.range count).filterMap s.fault? =
      (s.lexemes.1.take count).filterMap Lexeme.diagnostic? := by
  induction count with
  | zero => rfl
  | succ count ih =>
    rw [List.range_succ, List.filterMap_append, ih, List.take_add_one, List.filterMap_append]
    congr 1
    have hfault := (s.yielded_eq count).2
    cases hl : s.lexemes.1[count]? <;> simp [hl, hfault, List.filterMap_cons]

end Scanner

namespace Operation

/-- After some operations on a parser that a scanner `s` was handed to, the window is on the token
that `s` had to yield after `k` others, and what the parser has told of tokens by themselves is what
`s` had found already and then the faults of the tokens up to the current one. -/
structure Shows (s : Scanner) (ops : List Operation) (k : ℕ) : Prop where
  current_eq : (run ops (.ofScanner s)).current = s.yielded k
  lookahead_eq : (run ops (.ofScanner s)).lookahead = s.yielded (k + 1)
  diagnostics_eq : (run ops (.ofScanner s)).diagnostics.toList =
    (Parser.ofScanner s).diagnostics.toList ++ (ledger ops (.ofScanner s)).map Prod.fst
  lexical_eq : ((Parser.ofScanner s).diagnostics.toList ++
      own (ledger ops (.ofScanner s))).filter Diagnostic.isLexical =
    s.pending ++ (List.range (k + 1)).filterMap s.fault?
  /-- What is wrong with the lookahead is with the parser and not told yet. -/
  heldBack : (run ops (.ofScanner s)).lexemes[1]?.bind Lexeme.diagnostic? = s.fault? (k + 1)

variable {s : Scanner} {ops : List Operation}

lemma shows_of_turns (hs : ∀ d ∈ s.pending, d.isLexical = true) {k : ℕ}
    (h : (Parser.ofScanner s).Turns (run ops (.ofScanner s)) k
      ((ledger ops (.ofScanner s)).map Prod.fst))
    (hown : (own (ledger ops (.ofScanner s))).filter Diagnostic.isLexical =
      (Parser.ofScanner s).faultsAhead k) : Shows s ops k := by
  have hlexemes : (run ops (.ofScanner s)).lexemes = s.lexemes.1.drop k := h.lexemes_eq
  have htoken : ∀ index, (run ops (.ofScanner s)).tokenAt index = s.yielded (k + index) := by
    intro index
    rw [(s.yielded_eq _).1, Parser.tokenAt, h.finish_eq, hlexemes, List.getElem?_drop]
    rfl
  refine ⟨htoken 0, htoken 1, h.diagnostics_eq, ?_, ?_⟩
  · have hstart : (Parser.ofScanner s).diagnostics.toList.filter Diagnostic.isLexical =
        s.pending ++ s.lexemes.1.head?.toList.filterMap Lexeme.diagnostic? := by
      refine List.filter_eq_self.2 fun d hd => ?_
      rcases List.mem_append.1 hd with hd | hd
      · exact hs d hd
      · obtain ⟨l, -, hl⟩ := List.mem_filterMap.1 hd
        exact Lexeme.isLexical_of_diagnostic? hl
    have htake : s.lexemes.1.take (k + 1) = s.lexemes.1.head?.toList ++ s.lexemes.1.tail.take k := by
      cases s.lexemes.1 <;> simp
    rw [List.filter_append, hstart, hown, Scanner.filterMap_fault?, htake, List.filterMap_append,
      List.append_assoc]
    rfl
  · rw [(s.yielded_eq _).2, hlexemes, List.getElem?_drop]

lemma ledger_append (ops ops' : List Operation) (p : Parser) :
    ledger (ops ++ ops') p = ledger ops p ++ ledger ops' (run ops p) := by
  induction ops generalizing p with
  | nil => rfl
  | cons op ops ih => rw [List.cons_append, ledger, ledger, ih, List.append_assoc, run_cons]

/-- Whatever operations are asked of a parser, its window only moves forward along the tokens that
its scanner had to yield, its diagnostics only grow at their end, and it tells of each unclosed string
once, when it becomes the current token. -/
theorem window_after (source : String) (label? : Option String) (count : ℕ) (ops : List Operation) :
    ∃ k : ℕ → ℕ, k 0 = 0 ∧ Monotone k ∧
      (∀ i, Shows ((Scanner.ofSource source label?).pulled count) (ops.take i) (k i)) ∧
      ∀ i j, i ≤ j →
        (run (ops.take i)
            (.ofScanner ((Scanner.ofSource source label?).pulled count))).diagnostics.toList <+:
          (run (ops.take j)
            (.ofScanner ((Scanner.ofSource source label?).pulled count))).diagnostics.toList := by
  generalize hs : (Scanner.ofSource source label?).pulled count = s
  have hpending : ∀ d ∈ s.pending, d.isLexical = true := by
    rw [← hs]
    exact Scanner.isLexical_of_mem_pending source label? count
  obtain ⟨k, hzero, hmono, hrun⟩ := exists_turns_run ops (.ofScanner s)
  refine ⟨k, hzero, hmono, fun i => shows_of_turns hpending (hrun i).1 (hrun i).2, ?_⟩
  intro i j hij
  obtain ⟨further, hfurther⟩ := (List.take_prefix_take_left hij : ops.take i <+: ops.take j)
  rw [(hrun i).1.diagnostics_eq, (hrun j).1.diagnostics_eq, ← hfurther, ledger_append,
    List.map_append, ← List.append_assoc]
  exact List.prefix_append _ _

end Operation

end ScriptSyntax
