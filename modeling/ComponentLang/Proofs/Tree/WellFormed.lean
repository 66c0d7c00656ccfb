import ComponentLang.Proofs.Tree.Walk

/-!
# Well-formed trees

The types of the tree allow more than the grammar: any expression may stand on the left of an
assignment, any statement behind `else`. A program is well formed if nothing like that stands in it
at any depth. `TreePart.Everywhere` takes such a property of single parts to all that stands in a
part.
-/
namespace ComponentLang

/-! ## Type expressions in a program -/

namespace TypeExpr

/-- The type expressions directly in a type expression. -/
def children : TypeExpr → List TypeExpr
  | .named .. => []
  | .array _ element => [element]
  | .optional _ inner => [inner]
  | .union _ members => members

/-- One type expression stands in another, at any depth, or is that type expression. -/
def Within (inner whole : TypeExpr) : Prop :=
  Relation.ReflTransGen (fun whole child => child ∈ whole.children) whole inner

theorem within_cases {inner whole : TypeExpr} :
    inner.Within whole ↔ whole = inner ∨ ∃ child ∈ whole.children, inner.Within child :=
  Relation.ReflTransGen.cases_head_iff

/-- The type expression and all in it are good. -/
def Everywhere (good : TypeExpr → Prop) (whole : TypeExpr) : Prop :=
  ∀ inner : TypeExpr, inner.Within whole → good inner

theorem everywhere_iff {good : TypeExpr → Prop} {whole : TypeExpr} :
    whole.Everywhere good ↔ good whole ∧ ∀ child ∈ whole.children, child.Everywhere good := by
  constructor
  · intro h
    exact ⟨h whole .refl, fun child hchild inner hinner =>
      h inner (within_cases.2 (.inr ⟨child, hchild, hinner⟩))⟩
  · rintro ⟨hgood, h⟩ inner hinner
    obtain rfl | ⟨child, hchild, hwithin⟩ := within_cases.1 hinner
    · exact hgood
    · exact h child hchild inner hwithin

end TypeExpr

def Function.annotations (f : Function) : List TypeExpr :=
  f.params.filterMap Param.typeExpr ++ f.returnType.toList

namespace TreePart

/-- The type expressions that are written in a part, and not in a part of it. -/
def annotations : TreePart → List TypeExpr
  | .stmt (.variableDecl _ decl) => decl.typeExpr.toList
  | .function f => f.annotations
  | _ => []

/-! ## What holds of all parts -/

variable {good : TreePart → Prop} {part : TreePart}

/-- Within a part is the part itself and what is within the parts directly in it. -/
theorem within_cases {inner part : TreePart} :
    inner.Within part ↔ part = inner ∨ ∃ child ∈ part.children, inner.Within child :=
  Relation.ReflTransGen.cases_head_iff

/-- The part and all in it are good. -/
def Everywhere (good : TreePart → Prop) (part : TreePart) : Prop :=
  ∀ inner : TreePart, inner.Within part → good inner

theorem everywhere_iff :
    part.Everywhere good ↔ good part ∧ ∀ child ∈ part.children, child.Everywhere good := by
  constructor
  · intro h
    exact ⟨h part .refl, fun child hchild inner hinner =>
      h inner (within_cases.2 (.inr ⟨child, hchild, hinner⟩))⟩
  · rintro ⟨hgood, h⟩ inner hinner
    obtain rfl | ⟨child, hchild, hwithin⟩ := within_cases.1 hinner
    · exact hgood
    · exact h child hchild inner hwithin

end TreePart

/-- A type expression is written in the program, as a whole. -/
def Program.Annotates (p : Program) (a : TypeExpr) : Prop :=
  ∃ part, p.Contains part ∧ a ∈ part.annotations

/-! ## What the grammar allows -/

namespace Stmt

/-- The statement may stand behind `else`. -/
def IsAlternate : Stmt → Prop
  | .ifElse .. | .block _ => True
  | _ => False

/-- The statement may stand last in the head of a loop. -/
def IsSimple : Stmt → Prop
  | .expression .. | .assignment .. => True
  | _ => False

/-- The statement may stand first in the head of a loop. -/
def IsInit : Stmt → Prop
  | .variableDecl .. | .expression .. | .assignment .. => True
  | _ => False

theorem IsSimple.isInit {s : Stmt} (h : s.IsSimple) : s.IsInit := by
  cases s <;> trivial

/-- The statements and expressions directly in the statement are such as may stand there. -/
def WellFormed : Stmt → Prop
  | .assignment _ target _ _ => target.isAssignable = true
  | .ifElse _ _ _ alternate => ∀ s ∈ alternate, s.IsAlternate
  | .forLoop _ init _ update _ => (∀ s ∈ init, s.IsInit) ∧ ∀ s ∈ update, s.IsSimple
  | .tryStmt _ _ handler cleanup => handler.isSome ∨ cleanup.isSome
  | _ => True

end Stmt

/-- The part by itself is such as the grammar allows. -/
def TreePart.WellFormed : TreePart → Prop
  | .stmt s => s.WellFormed
  | .function f => "async" ∈ f.modifiers → f.isAsync = true
  | .importDecl item => item.default.isSome → item.names = []
  | .tag t => t.selfClosing = true → t.children = []
  | _ => True

/-- The type expression by itself is such as the grammar allows. -/
def TypeExpr.WellFormed : TypeExpr → Prop
  | .union _ members => 2 ≤ members.length
  | _ => True

/-- Everything in the program is such as the grammar allows. -/
structure Program.WellFormed (p : Program) : Prop where
  target : ∀ span target op value, p.Contains (.stmt (.assignment span target op value)) →
    target.isAssignable = true
  alternate : ∀ span test consequent alternate,
    p.Contains (.stmt (.ifElse span test consequent (some alternate))) → alternate.IsAlternate
  handled : ∀ span block handler cleanup,
    p.Contains (.stmt (.tryStmt span block handler cleanup)) → handler.isSome ∨ cleanup.isSome
  init : ∀ span init test update body,
    p.Contains (.stmt (.forLoop span (some init) test update body)) → init.IsInit
  update : ∀ span init test update body,
    p.Contains (.stmt (.forLoop span init test (some update) body)) → update.IsSimple
  union : ∀ a span members, p.Annotates a → (TypeExpr.union span members).Within a →
    2 ≤ members.length
  selfClosing : ∀ t : Tag, p.Contains (.tag t) → t.selfClosing = true → t.children = []
  default : ∀ item : Import, p.Contains (.importDecl item) → item.default.isSome → item.names = []
  async : ∀ f : Function, p.Contains (.function f) → "async" ∈ f.modifiers → f.isAsync = true

/-- It is enough that every part and every type expression is well formed by itself. -/
theorem Program.wellFormed_of_parts {p : Program}
    (hparts : ∀ part, p.Contains part → part.WellFormed)
    (hannotations : ∀ a, p.Annotates a → a.Everywhere TypeExpr.WellFormed) : p.WellFormed where
  target _ _ _ _ h := hparts _ h
  alternate _ _ _ alternate h := hparts _ h alternate rfl
  handled _ _ _ _ h := hparts _ h
  init _ init _ _ _ h := (hparts _ h).1 init rfl
  update _ _ _ update _ h := (hparts _ h).2 update rfl
  union a _ _ ha h := hannotations a ha _ h
  selfClosing _ h := hparts _ h
  default _ h := hparts _ h
  async _ h := hparts _ h

end ComponentLang
