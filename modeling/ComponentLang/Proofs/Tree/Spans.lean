import ComponentLang.Proofs.Scan.Positions
import ComponentLang.Proofs.Tree.WellFormed

/-!
# The places of parts

Every part but the program itself has a place in the source. A part nests if what stands directly in
it is written between its ends, and the items of a list come one after the other. Only a loop that
counts has parts that are not written: its three clauses have the place of the loop variable, and
what is in them stands elsewhere.
-/
namespace ComponentLang

/-! ## Spans of a source -/

namespace Span

/-- The span is one of the source: it does not end before it begins or behind the source, and it has
the line and the column of its first unit. -/
structure On (source : Source) (span : Span) : Prop where
  start_le : span.start ≤ span.stop
  stop_le : span.stop ≤ source.length
  placed : span.Placed source

def Covers (outer inner : Span) : Prop := outer.start ≤ inner.start ∧ inner.stop ≤ outer.stop

variable {source : Source} {a b : Span}

theorem On.through (ha : a.On source) (hb : b.On source) : (a.through b).On source where
  start_le := ha.start_le.trans (le_through_left a b)
  stop_le := Nat.max_le.2 ⟨hb.stop_le, ha.stop_le⟩
  placed := ha.placed

theorem On.start_le_length (h : a.On source) : a.start ≤ source.length :=
  h.start_le.trans h.stop_le

/-- The empty span at the start. -/
theorem On.collapse (h : a.On source) : On source ⟨a.start, a.start, a.line, a.column⟩ where
  start_le := Nat.le_refl a.start
  stop_le := h.start_le_length
  placed := h.placed

end Span

/-- All places in the type expression are spans of the source. -/
abbrev TypeExpr.On (source : Source) (a : TypeExpr) : Prop := a.Everywhere fun b => b.span.On source

/-! ## The places that parts keep -/

/-- The clauses of a loop, of which it may have none. -/
def Stmt.clauses : Stmt → List TreePart
  | .forLoop _ init test update _ =>
    init.toList.map .stmt ++ (test.toList.map .expr ++ update.toList.map .stmt)
  | _ => []

theorem Stmt.children_forLoop (span : Span) (init : Option Stmt) (test : Option Expr)
    (update : Option Stmt) (body : Block) : (forLoop span init test update body).children =
      (forLoop span init test update body).clauses ++ [.block body] := by
  simp [children, clauses]

/-- The loop counts a variable from one bound to the other, with clauses that are all at `place`. -/
inductive Stmt.CountsAt (place : Span) : Stmt → Prop
  | mk {span : Span} {name : String} {first last : Expr} {body : Block} {i j k l : Nat} :
      CountsAt place (.forLoop span (some (.variableDecl place ⟨.letVar, name, none, some first⟩))
        (some (.binary ⟨j, place⟩ (.identifier ⟨i, place⟩ name) .lt last))
        (some (.assignment place (.identifier ⟨k, place⟩ name) .add
          (.literal ⟨l, place⟩ (.number "1" .int)))) body)

namespace TreePart

/-- The place of a part. A program has none. -/
def span? : TreePart → Option Span
  | .program _ => none
  | .importDecl item => some item.span
  | .exportDecl item => some item.span
  | .component c => some c.span
  | .function f => some f.span
  | .block b => some b.span
  | .stmt s => some s.span
  | .expr e => some e.span
  | .identifier node _ | .valueBinding node _ => some node.span
  | .markup m => some m.span
  | .tag t => some t.span
  | .attribute item => some item.span
  | .text _ span => some span

def params : TreePart → List Param
  | .function f => f.params
  | _ => []

/-- The span is kept in the part itself: as its own place, or as that of a parameter or of a type
expression. -/
def Keeps (part : TreePart) (span : Span) : Prop :=
  span ∈ part.span? ∨ (∃ p ∈ part.params, p.span = span) ∨
    ∃ a ∈ part.annotations, ∃ b : TypeExpr, b.Within a ∧ b.span = span

/-- Whatever stands directly in the part is written between its ends. -/
def Nests (part : TreePart) : Prop :=
  ∀ outer ∈ part.span?, ∀ child ∈ part.children, ∀ inner ∈ child.span?, outer.Covers inner

/-- The lists of parts that are written one after the other. -/
def rows : TreePart → List (List TreePart)
  | .program p =>
    [p.imports.map .importDecl, p.exports.map .exportDecl, p.functions.map .function,
      p.components.map .component, p.statements.map .stmt]
  | .component c => [c.statements.map .stmt, c.body.map .markup]
  | .block b => [b.statements.map .stmt]
  | .tag t => [t.attributes.map .attribute, t.children.map .markup]
  | _ => []

/-- One part ends where the other begins or in front of that. -/
def Before (a b : TreePart) : Prop := ∀ x ∈ a.span?, ∀ y ∈ b.span?, x.stop ≤ y.start

def Ordered (part : TreePart) : Prop := ∀ row ∈ part.rows, row.Pairwise Before

/-- The part is a clause of a loop that counts, which is not written. -/
def Implied (whole part : TreePart) : Prop :=
  ∃ loop place, whole = .stmt loop ∧ loop.CountsAt place ∧ part ∈ loop.clauses

end TreePart

end ComponentLang
