import Mathlib.Tactic
import ScriptSyntax.Scanner.Basic
import ScriptSyntax.Tree.Basic

/-!
# Moving places

A function on positions moves every place that a token, a diagnostic or a tree holds, and leaves the
rest of it alone.  `Position.shift` moves places to the right, which is what a text in front of a
source does to them; a constant function forgets where a tree came from.
-/

namespace ScriptSyntax

/-- The place `count` characters to the right. -/
def Position.shift (count : Nat) (p : Position) : Position := ⟨p.offset + .ofNat count, p.label⟩

variable (f : Position → Position)

def Span.relocate (s : Span) : Span := ⟨f s.start, f s.stop⟩

def Token.relocate (t : Token) : Token := { t with span := t.span.relocate f }

def Lexeme.relocate (l : Lexeme) : Lexeme := { l with token := l.token.relocate f }

def Diagnostic.relocate (d : Diagnostic) : Diagnostic := { d with position := f d.position }

def Identifier.relocate (id : Identifier) : Identifier := { id with token := id.token.relocate f }

mutual

/-- The expression with every place in it moved by `f`. -/
def Expr.relocate : Expr → Expr
  | .identifier id => .identifier (id.relocate f)
  | .integer token value => .integer (token.relocate f) value
  | .string token value => .string (token.relocate f) value
  | .boolean token value => .boolean (token.relocate f) value
  | .prefixOp token operator right => .prefixOp (token.relocate f) operator right.relocate
  | .infixOp token operator left right =>
    .infixOp (token.relocate f) operator left.relocate right.relocate
  | .conditional token condition consequence alternative =>
    .conditional (token.relocate f) condition.relocate consequence.relocate
      (relocateElse alternative)
  | .function token parameters body =>
    .function (token.relocate f) (parameters.map (Identifier.relocate f)) body.relocate
  | .call token callee arguments =>
    .call (token.relocate f) callee.relocate (relocateEach arguments)
  | .array token elements => .array (token.relocate f) (relocateEach elements)
  | .index token left index => .index (token.relocate f) left.relocate index.relocate

def relocateEach : List Expr → List Expr
  | [] => []
  | e :: es => e.relocate :: relocateEach es

def relocateElse : Option Block → Option Block
  | none => none
  | some block => some block.relocate

/-- The statement with every place in it moved by `f`. -/
def Stmt.relocate : Stmt → Stmt
  | .letBinding token id value =>
    .letBinding (token.relocate f) (id.relocate f) value.relocate
  | .return token value => .return (token.relocate f) (relocateValue value)
  | .expression token expr => .expression (token.relocate f) expr.relocate

def relocateValue : Option Expr → Option Expr
  | none => none
  | some value => some value.relocate

/-- The block with every place in it moved by `f`. -/
def Block.relocate : Block → Block
  | .mk token body => .mk (token.relocate f) (relocateStmts body)

def relocateStmts : List Stmt → List Stmt
  | [] => []
  | s :: rest => s.relocate :: relocateStmts rest

end

/-- The program with every place in it moved by `f`. -/
def Program.relocate (p : Program) : Program := p.map (Stmt.relocate f)

@[simp] lemma relocateEach_eq_map (es : List Expr) : relocateEach f es = es.map (Expr.relocate f) := by
  induction es with
  | nil => rfl
  | cons e es ih => rw [relocateEach, ih, List.map_cons]

@[simp] lemma relocateElse_eq_map (alternative : Option Block) :
    relocateElse f alternative = alternative.map (Block.relocate f) := by
  cases alternative <;> rfl

@[simp] lemma relocateValue_eq_map (value : Option Expr) :
    relocateValue f value = value.map (Expr.relocate f) := by
  cases value <;> rfl

@[simp] lemma relocateStmts_eq_map (body : List Stmt) :
    relocateStmts f body = body.map (Stmt.relocate f) := by
  induction body with
  | nil => rfl
  | cons s body ih => rw [relocateStmts, ih, List.map_cons]

@[simp] lemma Token.kind_relocate (t : Token) : (t.relocate f).kind = t.kind := rfl

@[simp] lemma Token.text_relocate (t : Token) : (t.relocate f).text = t.text := rfl

@[simp] lemma Token.position_relocate (t : Token) : (t.relocate f).position = f t.position := rfl

@[simp] lemma Diagnostic.fault_relocate (d : Diagnostic) : (d.relocate f).fault = d.fault := rfl

/-- What is wrong with a token by itself moves with it. -/
lemma Lexeme.diagnostic?_relocate (l : Lexeme) :
    (l.relocate f).diagnostic? = l.diagnostic?.map (Diagnostic.relocate f) := by
  unfold Lexeme.diagnostic?
  by_cases h : l.closed = true
  · rw [if_pos h, if_pos (show (l.relocate f).closed = true from h)]
    rfl
  · rw [if_neg h, if_neg (show ¬(l.relocate f).closed = true from h)]
    rfl

/-! ## Leaving places alone -/

@[simp] lemma Token.relocate_id (t : Token) : t.relocate id = t := rfl

@[simp] lemma Identifier.relocate_id (x : Identifier) : x.relocate id = x := rfl

mutual

lemma Expr.relocate_id : ∀ e : Expr, e.relocate id = e
  | .identifier _ | .integer _ _ | .string _ _ | .boolean _ _ => rfl
  | .prefixOp _ _ right => by
    rw [Expr.relocate, Expr.relocate_id right, Token.relocate_id]
  | .infixOp _ _ left right => by
    rw [Expr.relocate, Expr.relocate_id left, Expr.relocate_id right, Token.relocate_id]
  | .conditional _ condition consequence alternative => by
    rw [Expr.relocate, Expr.relocate_id condition, Block.relocate_id consequence,
      relocateElse_id alternative, Token.relocate_id]
  | .function _ parameters body => by
    have hids : parameters.map (Identifier.relocate id) = parameters := List.map_id _
    rw [Expr.relocate, Block.relocate_id body, hids, Token.relocate_id]
  | .call _ callee arguments => by
    rw [Expr.relocate, Expr.relocate_id callee, relocateEach_id arguments, Token.relocate_id]
  | .array _ elements => by
    rw [Expr.relocate, relocateEach_id elements, Token.relocate_id]
  | .index _ left index => by
    rw [Expr.relocate, Expr.relocate_id left, Expr.relocate_id index, Token.relocate_id]

lemma relocateEach_id : ∀ es : List Expr, relocateEach id es = es
  | [] => rfl
  | e :: es => by rw [relocateEach, Expr.relocate_id e, relocateEach_id es]

lemma relocateElse_id : ∀ alternative : Option Block, relocateElse id alternative = alternative
  | none => rfl
  | some block => by rw [relocateElse, Block.relocate_id block]

lemma Stmt.relocate_id : ∀ s : Stmt, s.relocate id = s
  | .letBinding _ _ value => by
    rw [Stmt.relocate, Expr.relocate_id value, Token.relocate_id, Identifier.relocate_id]
  | .return _ value => by rw [Stmt.relocate, relocateValue_id value, Token.relocate_id]
  | .expression _ expr => by rw [Stmt.relocate, Expr.relocate_id expr, Token.relocate_id]

lemma relocateValue_id : ∀ value : Option Expr, relocateValue id value = value
  | none => rfl
  | some value => by rw [relocateValue, Expr.relocate_id value]

lemma Block.relocate_id : ∀ b : Block, b.relocate id = b
  | .mk _ body => by rw [Block.relocate, relocateStmts_id body, Token.relocate_id]

lemma relocateStmts_id : ∀ body : List Stmt, relocateStmts id body = body
  | [] => rfl
  | s :: rest => by rw [relocateStmts, Stmt.relocate_id s, relocateStmts_id rest]

end

/-! ## Forgetting places -/

/-- The token without its place. -/
def Token.unplaced (t : Token) : Token := t.relocate fun _ => default

/-- The expression without its places. -/
def Expr.unplaced (e : Expr) : Expr := e.relocate fun _ => default

/-- The statement without its places. -/
def Stmt.unplaced (s : Stmt) : Stmt := s.relocate fun _ => default

/-- The program without its places. -/
def Program.unplaced (p : Program) : Program := p.relocate fun _ => default

/-- A token of a kind and a text, at no place. -/
def Token.bare (kind : TokenKind) (text : String) : Token := ⟨kind, text, default⟩

lemma Token.unplaced_eq (t : Token) : t.unplaced = .bare t.kind t.text := rfl

lemma Token.kind_of_unplaced {t : Token} {kind : TokenKind} {text : String}
    (h : t.unplaced = .bare kind text) : t.kind = kind := (Token.mk.inj h).1

lemma Token.text_of_unplaced {t : Token} {kind : TokenKind} {text : String}
    (h : t.unplaced = .bare kind text) : t.text = text := (Token.mk.inj h).2.1

lemma Expr.unplaced_call (o : Token) (f : Expr) (es : List Expr) :
    (Expr.call o f es).unplaced = .call o.unplaced f.unplaced (es.map Expr.unplaced) := by
  rw [unplaced, relocate, relocateEach_eq_map]
  rfl

lemma Expr.unplaced_array (o : Token) (es : List Expr) :
    (Expr.array o es).unplaced = .array o.unplaced (es.map Expr.unplaced) := by
  rw [unplaced, relocate, relocateEach_eq_map]
  rfl

end ScriptSyntax
