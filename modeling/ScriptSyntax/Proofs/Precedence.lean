import ScriptSyntax.Proofs.Acceptance
import ScriptSyntax.Proofs.Parser.Relocation
import ScriptSyntax.Proofs.Scanner.Spelling
import ScriptSyntax.Proofs.Tree.WellFormed

/-!
# Operator precedence

Operands that are parsed alone, joined by binary operators, are parsed as one expression: a chain with
these operands and operators in their order, in which operators are grouped by their powers.  How many
there are is of no matter to the levels of nesting, since an operator takes one level more than the
operand that it is in only if it holds tighter.

## Main statements

* `Grammar.Derives.relocate`: the language does not look at places.
* `parse_chainText`: what a chain of operators is parsed as.
-/

namespace ScriptSyntax

open Grammar Rule

/-! ## Places in the grammar -/

namespace Grammar

variable {f : Position → Position} {ts us : List Token} {next : TokenKind}

@[simp] lemma firstKind_relocate (ts : List Token) (next : TokenKind) :
    firstKind (ts.map (Token.relocate f)) next = firstKind ts next := by
  cases ts <;> rfl

lemma Ending.relocate (h : Ending next us) : Ending next (us.map (Token.relocate f)) := by
  cases h with
  | semicolon hs => exact .semicolon hs
  | brace hnext => exact .brace hnext
  | source hnext => exact .source hnext

/-- The language does not look at places. -/
theorem Derives.relocate {symbol : Symbol} (h : Derives symbol ts) :
    Derives symbol (ts.map (Token.relocate f)) := by
  induction h with
  | noStatement => exact .noStatement
  | statements _ _ ihs ihbody =>
    rw [List.map_append]
    exact .statements (by rwa [firstKind_relocate]) ihbody
  | letBinding ht hx ho _ hend ih =>
    simp only [List.map_cons, List.map_append]
    exact .letBinding ht hx ho ih hend.relocate
  | returnNothing ht hend => exact .returnNothing ht hend.relocate
  | returnValue ht _ hend ih =>
    simp only [List.map_cons, List.map_append]
    exact .returnValue ht ih hend.relocate
  | closedExpression _ hc ih =>
    simp only [List.map_cons, List.map_append, List.map_nil]
    exact .closedExpression ih hc
  | openExpression _ hno ih => exact .openExpression ih hno
  | expression _ _ ihx ihops =>
    rw [List.map_append]
    exact .expression ihx ihops
  | noOperation => exact .noOperation
  | operations ho _ _ ihx ihops =>
    simp only [List.map_cons, List.map_append]
    exact .operations ho ihx ihops
  | prefixed ho _ ih => exact .prefixed ho ih
  | operand _ ih => exact .operand ih
  | applied _ ih => exact .applied ih
  | call _ ho _ hc ih ihes =>
    simp only [List.map_cons, List.map_append, List.map_nil]
    exact .call ih ho ihes hc
  | index _ ho _ hc ih ihe =>
    simp only [List.map_cons, List.map_append, List.map_nil]
    exact .index ih ho ihe hc
  | constant ht => exact .constant ht
  | integer ht hvalue => exact .integer ht hvalue
  | group ho _ hc ih =>
    simp only [List.map_cons, List.map_append, List.map_nil]
    exact .group ho ih hc
  | conditional ht ho _ hc _ _ ihe ihb ihalt =>
    simp only [List.map_cons, List.map_append]
    exact .conditional ht ho ihe hc ihb ihalt
  | function ht ho _ hc _ ihids ihb =>
    simp only [List.map_cons, List.map_append]
    exact .function ht ho ihids hc ihb
  | array ho _ hc ih =>
    simp only [List.map_cons, List.map_append, List.map_nil]
    exact .array ho ih hc
  | noElement => exact .noElement
  | list _ _ ihe ihes =>
    rw [List.map_append]
    exact .list ihe ihes
  | listEnd => exact .listEnd
  | listTail hc _ _ ihe ihes =>
    simp only [List.map_cons, List.map_append]
    exact .listTail hc ihe ihes
  | noName => exact .noName
  | names hx _ ih => exact .names hx ih
  | namesEnd => exact .namesEnd
  | namesTail hc hx _ ih => exact .namesTail hc hx ih
  | noAlternative => exact .noAlternative
  | alternative ht _ ih => exact .alternative ht ih
  | block ho _ hc ih =>
    simp only [List.map_cons, List.map_append, List.map_nil]
    exact .block ho ih hc

end Grammar

/-! ## Operands by themselves -/

/-- The text `x` is an operand: prefix operators, a primary, calls and indices.  By itself it is parsed as
`e`, with no diagnostic and within 90 levels of nesting; its first token is `t`. -/
structure IsOperandText (label? : Option String) (x : String) (t : Token) (e : Expr) : Prop where
  derives : Derives .operand (tokenize x label?).dropLast
  parsed : parseWithin x label? 90 = ([.expression t e], [])

namespace IsOperandText

variable {label? : Option String} {x : String} {t : Token} {e : Expr}

lemma even_count (h : IsOperandText label? x t e) : Even (x.toList.count '"') :=
  (reads_of_parseWithin h.parsed).1

/-- The operand keeps its tree where its tokens stand at other places, and it takes no more than the
levels that it takes by itself. -/
theorem isOperand (h : IsOperandText label? x t e) (f : Position → Position) :
    ∃ levels ≤ 90,
      IsOperand levels (e.relocate f) ((tokenize x label?).dropLast.map (Token.relocate f)) ∧
      ((tokenize x label?).dropLast.map (Token.relocate f)).head? = some (t.relocate f) := by
  obtain ⟨levels, l, hl⟩ := (h.derives.relocate (f := f)).read
  generalize hts : (tokenize x label?).dropLast.map (Token.relocate f) = ts at hl ⊢
  have hreads : Reads (max levels 1) (.expression .lowest l) ts .endOfInput := by
    have hempty := @hl.reads .lowest [] .endOfInput 0 l (by decide) (by decide) (by decide)
      (.operatorsEnd (by decide))
    rwa [List.append_nil] at hempty
  obtain ⟨u, us, rfl, -⟩ := hreads.startsWith
  have hbody : Reads (max (max levels 1) 0) (.statements [.expression u l]) (u :: us)
      .endOfInput := by
    have hstatement := Reads.openExpression hreads (by decide)
    simpa using Reads.statements hstatement .noStatement
  -- the parse of `x` with its tokens at their other places
  let p := Parser.start x label?
  let p' : Parser :=
    { p with lexemes := p.lexemes.map (Lexeme.relocate f), finish := f p.finish }
  have hclean : p.diagnostics.toList = [] := Parser.diagnostics_start_eq_nil x label? h.even_count
  have hmoved : p.Moved f [] p' := ⟨rfl, rfl, by simp [p', hclean], rfl⟩
  have hclosed : ∀ m ∈ p'.lexemes, m.closed = true := by
    intro m hm
    obtain ⟨m', hm', rfl⟩ := List.mem_map.1 hm
    exact (Parser.forall_closed_start_iff x label?).2 h.even_count m' hm'
  have htokens : p'.tokens = u :: us := by
    rw [← hts, ← Parser.tokens_start, Parser.tokens, Parser.tokens, List.map_map, List.map_map]
    rfl
  rw [← htokens] at hbody
  have hdepth : p'.depth + 90 ≤ maxNesting := by
    change 0 + 90 ≤ maxNesting
    decide
  obtain ⟨hfits, hdeep⟩ := statementList_of_reads hdepth hclosed hclean hbody
  obtain ⟨hprogram, hafter⟩ := statementList_moved hmoved 90 false
  obtain ⟨hstatement, hdiagnostics⟩ := Prod.mk.inj h.parsed
  have hnone : (statementList (expressionAt 90) false p').2.diagnostics.toList = [] := by
    rw [hafter.diagnostics_eq, hdiagnostics]
    rfl
  by_cases hlevels : max (max levels 1) 0 ≤ 90
  · rw [(hfits hlevels).1, hstatement, List.map_singleton, List.cons.injEq] at hprogram
    obtain ⟨rfl, rfl⟩ := Stmt.expression.inj hprogram.1
    exact ⟨levels, by omega, hl, rfl⟩
  · have := hdeep hlevels
    rw [hnone] at this
    cases this

/-- The operand where it stands by itself. -/
lemma isOperand_self (h : IsOperandText label? x t e) :
    ∃ levels ≤ 90, IsOperand levels e (tokenize x label?).dropLast ∧
      (tokenize x label?).dropLast.head? = some t := by
  have hid : ∀ ts : List Token, ts.map (Token.relocate id) = ts := List.map_id
  have hself := h.isOperand id
  rwa [e.relocate_id, hid] at hself

end IsOperandText

/-! ## Chains as texts -/

/-- An operator and the text of the operand behind it, with the tree of the operand by itself. -/
structure TextLink where
  operator : TokenKind × String
  text : String
  tree : Expr

/-- The text of the operand `x` and of the links behind it, with spaces around the operators. -/
def chainText (x : String) : List TextLink → String
  | [] => x
  | link :: links => chainText (x ++ " " ++ link.operator.2 ++ " " ++ link.text) links

namespace TextLink

/-- The number of characters of a link. -/
def length (link : TextLink) : ℕ := link.operator.2.length + 2 + link.text.length

/-- The operator of a link whose text starts behind `offset` characters. -/
def operatorAt (label : String) (offset : ℕ) (link : TextLink) : Token where
  kind := link.operator.1
  text := link.operator.2
  span := ⟨⟨.ofNat (offset + 1), label⟩, ⟨.ofNat (offset + 1 + link.operator.2.length), label⟩⟩

/-- What the places of the operand by itself are in a link that starts behind `offset` characters. -/
def place (offset : ℕ) (link : TextLink) : Position → Position :=
  Position.shift (offset + (link.operator.2.length + 2))

/-- The operators and operands of links that start behind `offset` characters. -/
def items (label : String) : (offset : ℕ) → List TextLink → List (Expr ⊕ Token)
  | _, [] => []
  | offset, link :: links =>
    .inr (link.operatorAt label offset) :: .inl (link.tree.relocate (link.place offset)) ::
      items label (offset + link.length) links

/-- The link has a binary operator and an operand. -/
structure Valid (label? : Option String) (link : TextLink) : Prop where
  operator_mem : link.operator ∈ infixOperators
  isOperandText : ∃ t, IsOperandText label? link.text t link.tree

/-- The characters of links. -/
def chars (links : List TextLink) : List Char :=
  links.flatMap fun link =>
    ' ' :: (link.operator.2.toList ++ ' ' :: link.text.toList)

lemma toList_chainText (x : String) (links : List TextLink) :
    (chainText x links).toList = x.toList ++ chars links := by
  induction links generalizing x with
  | nil => exact (List.append_nil _).symm
  | cons link links ih =>
    rw [chainText, ih]
    simp [chars]

/-- A binary operator is a token by itself. -/
lemma scan_operator {operator : TokenKind × String} (h : operator ∈ infixOperators)
    (label : String) (offset : ℕ) :
    scan label offset operator.2.toList =
      [⟨⟨operator.1, operator.2, ⟨⟨.ofNat offset, label⟩,
        ⟨.ofNat (offset + operator.2.length), label⟩⟩⟩, true⟩] := by
  simp only [infixOperators, List.mem_cons, List.not_mem_nil, or_false] at h
  rcases h with rfl | rfl | rfl | rfl | rfl | rfl | rfl | rfl <;> rfl

variable {label? : Option String} {link : TextLink} {links : List TextLink}

lemma chars_cons (link : TextLink) (links : List TextLink) :
    chars (link :: links) =
      ' ' :: (link.operator.2.toList ++ ' ' :: (link.text.toList ++ chars links)) := by
  simp [chars]

lemma quote_not_mem_operator {operator : TokenKind × String} (h : operator ∈ infixOperators) :
    '"' ∉ operator.2.toList := by
  have htable : ∀ operator ∈ infixOperators, '"' ∉ operator.2.toList := by decide
  exact htable _ h

lemma even_count_chars (h : ∀ link ∈ links, link.Valid label?) :
    Even ((chars links).count '"') := by
  induction links with
  | nil => decide
  | cons link links ih =>
    obtain ⟨hlink, hlinks⟩ := List.forall_mem_cons.1 h
    obtain ⟨t, htext⟩ := hlink.isOperandText
    have hquote := quote_not_mem_operator hlink.operator_mem
    rw [chars_cons]
    simp [List.count_append, List.count_eq_zero_of_not_mem hquote, Nat.even_add, ih hlinks,
      htext.even_count]

/-- No token of a complete text reaches into the links behind it. -/
lemma seam_chars {text : List Char} (h : Even (text.count '"')) (links : List TextLink) :
    Seam text (chars links) := by
  refine ⟨h, fun c _ d hd => ?_⟩
  cases links with
  | nil => cases hd
  | cons =>
    cases hd
    exact joins_of_isBreak_right (by decide) c

/-- The tokens of a link are its operator and those of its operand by itself, at their places. -/
lemma scan_chars_cons (h : link.Valid label?) (links : List TextLink) (label : String)
    (offset : ℕ) :
    scan label offset (chars (link :: links)) =
      ⟨link.operatorAt label offset, true⟩ ::
        ((scan label 0 link.text.toList).map (Lexeme.relocate (link.place offset)) ++
          scan label (offset + link.length) (chars links)) := by
  obtain ⟨t, htext⟩ := h.isOperandText
  have hoperator : Seam link.operator.2.toList (' ' :: (link.text.toList ++ chars links)) := by
    refine ⟨?_, fun c _ d hd => ?_⟩
    · rw [List.count_eq_zero_of_not_mem (quote_not_mem_operator h.operator_mem)]
      exact Even.zero
    · cases hd
      exact joins_of_isBreak_right (by decide) c
  have hshift : offset + 1 + link.operator.2.length + 1 =
      0 + (offset + (link.operator.2.length + 2)) := by omega
  have hrest : 0 + (offset + (link.operator.2.length + 2)) + link.text.length =
      offset + link.length := by
    rw [length]
    omega
  rw [chars_cons, scan_space (by decide), scan_append _ _ hoperator,
    scan_operator h.operator_mem, scan_space (by decide),
    scan_append _ _ (seam_chars htext.even_count links), String.length_toList,
    String.length_toList, hshift, scan_shift, hrest]
  rfl

/-- Links as texts are links of a chain: their operators and operands at their places, which take no
more than the levels that the operands take by themselves. -/
lemma exists_links (h : ∀ link ∈ links, link.Valid label?) (offset : ℕ) :
    ∃ placed : List Link, (∀ link ∈ placed, link.Valid ∧ link.levels ≤ 90) ∧
      (scan (label?.getD defaultLabel) offset (chars links)).map Lexeme.token = linked placed ∧
      placed.flatMap Link.items = items (label?.getD defaultLabel) offset links := by
  induction links generalizing offset with
  | nil => exact ⟨[], by simp, rfl, rfl⟩
  | cons link links ih =>
    obtain ⟨hlink, hlinks⟩ := List.forall_mem_cons.1 h
    obtain ⟨t, htext⟩ := hlink.isOperandText
    obtain ⟨placed, hvalid, htokens, hitems⟩ := ih hlinks (offset + link.length)
    obtain ⟨levels, hlevels, hoperand, -⟩ := htext.isOperand (link.place offset)
    have htable : ∀ operator ∈ infixOperators, operator.1 ∈ binaryOperators := by decide
    refine ⟨⟨link.operatorAt (label?.getD defaultLabel) offset, _, levels, _⟩ :: placed,
      List.forall_mem_cons.2 ⟨⟨⟨htable _ hlink.operator_mem, hoperand⟩, hlevels⟩, hvalid⟩, ?_, ?_⟩
    · rw [scan_chars_cons hlink, List.map_cons, List.map_append, htokens, Parser.tokenize_dropLast,
        List.map_map, List.map_map]
      rfl
    · rw [List.flatMap_cons, hitems]
      rfl

end TextLink

/-! ## Chains as they are parsed -/

section Chains

variable {label? : Option String} {x : String} {t : Token} {e : Expr} {links : List TextLink}

lemma even_count_chainText (hx : IsOperandText label? x t e)
    (hlinks : ∀ link ∈ links, link.Valid label?) :
    Even ((chainText x links).toList.count '"') := by
  rw [TextLink.toList_chainText, List.count_append]
  exact hx.even_count.add (TextLink.even_count_chars hlinks)

/-- The tokens of a chain are those of its first operand by itself and those of the links behind it. -/
lemma tokenize_chainText (hx : IsOperandText label? x t e) (links : List TextLink) :
    (tokenize (chainText x links) label?).dropLast =
      (tokenize x label?).dropLast ++
        (scan (label?.getD defaultLabel) x.length (TextLink.chars links)).map Lexeme.token := by
  rw [Parser.tokenize_dropLast, TextLink.toList_chainText,
    scan_append _ _ (TextLink.seam_chars hx.even_count links), List.map_append,
    ← Parser.tokenize_dropLast, Nat.zero_add, String.length_toList]

/-- Operands that are parsed alone, joined by binary operators, are read within the levels of nesting
as one chain, whose operators are grouped by their powers. -/
lemma exists_reads_chainText (hx : IsOperandText label? x t e)
    (hlinks : ∀ link ∈ links, link.Valid label?) :
    ∃ levels ≤ maxNesting, ∃ c : Chain,
      Reads levels (.expression .lowest c.expr) (tokenize (chainText x links) label?).dropLast
        .endOfInput ∧
      c.inOrder = .inl e :: TextLink.items (label?.getD defaultLabel) x.length links ∧
      c.Ordered := by
  obtain ⟨levels, hlevels, hoperand, -⟩ := hx.isOperand_self
  obtain ⟨placed, hvalid, htokens, hitems⟩ := TextLink.exists_links hlinks x.length
  have hend : Follows .endOfInput := follows_of_mem (by simp)
  obtain ⟨taken, left, n, d, rfl, hd⟩ := exists_climbs placed (fun link h => (hvalid link h).1)
    hend .lowest (.operand e) .operand fun _ ho => by cases ho
  -- every operator holds tighter than the lowest power, so the whole chain is taken
  obtain rfl : left = [] := by
    cases left with
    | nil => rfl
    | cons link left =>
      have ho := (hvalid link (List.mem_append_right _ List.mem_cons_self)).1.operator_mem
      exact absurd (power_of_mem_binaryOperators ho).1 hd.reads.not_lt
  rw [List.append_nil] at hvalid htokens hitems
  have hafter := firstKind_linked (fun link h => (hvalid link h).1) hend
  have hbound := hd.levels_le 90 (by decide) (fun link h => (hvalid link h).2) (by decide)
  have hmax : maxNesting = 100 := rfl
  refine ⟨max levels (n + 1), by omega, d, ?_, ?_, hd.ordered⟩
  · rw [tokenize_chainText hx, htokens]
    exact hoperand.reads (by decide) hafter.1 hafter.2 hd.reads
  · rw [hd.inOrder_eq, hitems]
    rfl

end Chains

/-- Operands that are parsed alone, joined by binary operators, are parsed without a diagnostic as one
expression.  It is the only chain of these operands and operators in their order whose operators are
grouped by their powers.  Each operand has the tree that it has by itself: prefix operators apply to
all of it, calls and indices to no more than the primary in front of them. -/
theorem parse_chainText {label? : Option String} {x : String} {t : Token} {e : Expr}
    {links : List TextLink} (hx : IsOperandText label? x t e)
    (hlinks : ∀ link ∈ links, link.Valid label?) :
    (parse (chainText x links) label?).diagnostics = [] ∧
    (∃ c : Chain, (parse (chainText x links) label?).program = [.expression t c.expr] ∧
      c.inOrder = .inl e :: TextLink.items (label?.getD defaultLabel) x.length links ∧
      c.Ordered ∧ ∀ c' : Chain, c'.inOrder = c.inOrder → c'.Ordered → c' = c) ∧
    OperandTree (tokenize x label?).dropLast e ∧
    ∀ link ∈ links, OperandTree (tokenize link.text label?).dropLast link.tree := by
  obtain ⟨_, -, hoperand, hhead⟩ := hx.isOperand_self
  obtain ⟨levels, hlevels, c, hreads, horder, hordered⟩ := exists_reads_chainText hx hlinks
  -- the statement starts with the first token of the first operand
  obtain ⟨u, us, hus, -⟩ := hreads.startsWith
  obtain rfl : u = t := by
    have hfirst : (tokenize (chainText x links) label?).dropLast.head? = some t := by
      rw [tokenize_chainText hx, List.head?_append, hhead]
      rfl
    rw [hus] at hfirst
    exact Option.some.inj hfirst
  rw [hus] at hreads
  have hbody := Reads.statements (Reads.openExpression hreads (by decide)) .noStatement
  rw [List.append_nil, ← hus] at hbody
  obtain ⟨hprogram, hdiagnostics⟩ :=
    (parse_of_reads (even_count_chainText hx hlinks) hbody).1 (by omega)
  refine ⟨hdiagnostics, ⟨c, hprogram, horder, hordered, fun c' hc' hordered' => ?_⟩,
    hoperand.tree, fun link hlink => ?_⟩
  · exact hordered'.eq_of_inOrder_eq hordered hc'
  · obtain ⟨v, htext⟩ := (hlinks link hlink).isOperandText
    obtain ⟨_, -, hlink', -⟩ := htext.isOperand_self
    exact hlink'.tree

/-- The name at the start of a source that is this name. -/
def nameAlone (name : String) : Token :=
  ⟨.identifier, name, ⟨⟨0, "shell"⟩, ⟨.ofNat name.length, "shell"⟩⟩⟩

/-- The links of `x - y * z` behind `x`. -/
def differenceLinks : List TextLink :=
  [⟨(.minus, "-"), "y", .identifier ⟨nameAlone "y", "y"⟩⟩,
    ⟨(.asterisk, "*"), "z", .identifier ⟨nameAlone "z", "z"⟩⟩]

/-- The operands of `x - y * z` are operands by themselves, so that the difference is parsed as one
expression. -/
theorem parse_chainText_difference :
    IsOperandText none "x" (nameAlone "x") (.identifier ⟨nameAlone "x", "x"⟩) ∧
    (∀ link ∈ differenceLinks, link.Valid none) ∧
    (parse "x - y * z" none).diagnostics = [] ∧
    ∃ c : Chain, (parse "x - y * z" none).program = [.expression (nameAlone "x") c.expr] ∧
      c.Ordered := by
  have hname : ∀ name ∈ ["x", "y", "z"],
      IsOperandText none name (nameAlone name) (.identifier ⟨nameAlone name, name⟩) := by
    intro name hname
    simp only [List.mem_cons, List.not_mem_nil, or_false] at hname
    rcases hname with rfl | rfl | rfl <;>
      exact ⟨.operand (.applied (.constant (t := nameAlone _) (by decide))), rfl⟩
  have hx := hname "x" (by decide)
  have hlinks : ∀ link ∈ differenceLinks, link.Valid none := by
    intro link hlink
    simp only [differenceLinks, List.mem_cons, List.not_mem_nil, or_false] at hlink
    rcases hlink with rfl | rfl <;> exact ⟨by decide, _, hname _ (by decide)⟩
  obtain ⟨hdiagnostics, ⟨c, hprogram, -, hordered, -⟩, -⟩ := parse_chainText hx hlinks
  exact ⟨hx, hlinks, hdiagnostics, c, hprogram, hordered⟩

end ScriptSyntax
