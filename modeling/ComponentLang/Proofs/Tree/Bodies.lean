import ComponentLang.Proofs.Tree.Walk
import Mathlib.Tactic.Tauto

/-!
# Bodies of statements

The blocks under branches, loops and handlers may be written in braces or in square brackets. They
are the bodies of their statements. The block of a function and a block that is a statement itself
are none.
-/
namespace ComponentLang

/-- The block that a statement is. -/
def Stmt.block? : Stmt → Option Block
  | .block b => some b
  | _ => none

/-- The bodies of a statement, without those of the statements in it. -/
def Stmt.bodies : Stmt → List Block
  | .ifElse _ _ consequent alternate => consequent :: (alternate.bind Stmt.block?).toList
  | .whileLoop _ _ body | .forLoop _ _ _ _ body | .forIn _ _ _ body => [body]
  | .tryStmt _ b handler cleanup => b :: (handler.map CatchClause.body).toList ++ cleanup.toList
  | .asyncBlock _ _ handler cleanup => (handler.map CatchClause.body).toList ++ cleanup.toList
  | _ => []

namespace TreePart

def ownBodies : TreePart → List Block
  | .stmt s => s.bodies
  | _ => []

/-- The places of all bodies that stand in a part. -/
def bodies (part : TreePart) : List Span :=
  part.walk.flatMap fun inner => inner.ownBodies.map Block.span

theorem bodies_eq (part : TreePart) :
    part.bodies = part.ownBodies.map Block.span ++ part.children.flatMap bodies := by
  unfold bodies
  rw [walk_eq, List.flatMap_cons, List.flatMap_assoc]

/-! ## The bodies of the forms of parts -/

/-- Whether a part stands in expressions or markup. -/
def IsInline : TreePart → Prop
  | .expr _ | .identifier .. | .valueBinding .. | .markup _ | .tag _ | .attribute _ | .text .. =>
    True
  | _ => False

theorem IsInline.children {part : TreePart} (h : part.IsInline) :
    ∀ child ∈ part.children, child.IsInline := by
  have hexprs : ∀ es : List Expr, ∀ child ∈ es.map expr, child.IsInline :=
    fun es => List.forall_mem_map.2 fun _ _ => trivial
  match part, h with
  | .expr e, _ =>
    cases e with
    | object node properties => exact hexprs _
    | _ => simp [TreePart.children, Expr.children, IsInline]
  | .markup m, _ => cases m <;> simp [TreePart.children, Markup.children, IsInline]
  | .tag t, _ => simp [TreePart.children, IsInline, or_imp, forall_and]
  | .attribute item, _ => exact hexprs _
  | .identifier .., _ | .valueBinding .., _ | .text .., _ => exact List.forall_mem_nil _

/-- No body stands in an expression or in markup. -/
theorem IsInline.bodies_eq_nil {part : TreePart} (h : part.IsInline) : part.bodies = [] := by
  have hown : part.ownBodies = [] := by
    cases part with
    | stmt s => cases h
    | _ => rfl
  rw [bodies_eq, hown, List.map_nil, List.nil_append, List.flatMap_eq_nil_iff]
  exact fun child hchild => (h.children child hchild).bodies_eq_nil
termination_by part.walk.length
decreasing_by exact length_walk_lt hchild

@[simp] theorem bodies_expr (e : Expr) : (expr e).bodies = [] :=
  IsInline.bodies_eq_nil (show (expr e).IsInline from trivial)

@[simp] theorem bodies_markup (m : Markup) : (markup m).bodies = [] :=
  IsInline.bodies_eq_nil (show (markup m).IsInline from trivial)

@[simp] theorem bodies_importDecl (item : Import) : (importDecl item).bodies = [] := bodies_eq _

theorem bodies_stmt (s : Stmt) :
    (stmt s).bodies = s.bodies.map Block.span ++ s.children.flatMap bodies := bodies_eq _

theorem bodies_forLoop (span : Span) (init : Option Stmt) (test : Option Expr)
    (update : Option Stmt) (body : Block) :
    (stmt (.forLoop span init test update body)).bodies = body.span ::
      (init.elim [] (fun s => (stmt s).bodies) ++
        (update.elim [] (fun s => (stmt s).bodies) ++ (block body).bodies)) := by
  rw [bodies_stmt]
  cases init <;> cases test <;> cases update <;> simp [Stmt.bodies, Stmt.children]

/-- The places of the bodies that a statement is, as the alternate of a branch, or has. -/
def branchBodies (s : Stmt) : List Span := s.block?.toList.map Block.span ++ (stmt s).bodies

theorem mem_bodies_ifElse {span : Span} {test : Expr} {consequent : Block}
    {alternate : Option Stmt} {place : Span} :
    place ∈ (stmt (.ifElse span test consequent alternate)).bodies ↔
      place ∈ consequent.span ::
        ((block consequent).bodies ++ alternate.elim [] branchBodies) := by
  rw [bodies_stmt]
  cases alternate with
  | none => simp [Stmt.bodies, Stmt.children]
  | some s =>
    simp only [Stmt.bodies, Stmt.children, branchBodies, Option.bind_some, Option.toList_some,
      Option.elim_some, List.map_cons, List.map_nil, List.flatMap_cons, List.flatMap_nil,
      List.append_nil, bodies_expr, List.nil_append, List.cons_append, List.mem_cons,
      List.mem_append]
    tauto

/-- The places of the bodies of a handler and of a cleanup, and of the bodies in them. -/
def guardBodies (handler : Option CatchClause) (cleanup : Option Block) : List Span :=
  (handler.elim [] fun clause => clause.body.span :: (block clause.body).bodies) ++
    cleanup.elim [] fun b => b.span :: (block b).bodies

theorem mem_bodies_asyncBlock {span : Span} {b : Block} {handler : Option CatchClause}
    {cleanup : Option Block} {place : Span} :
    place ∈ (stmt (.asyncBlock span b handler cleanup)).bodies ↔
      place ∈ (block b).bodies ++ guardBodies handler cleanup := by
  rw [bodies_stmt]
  cases handler <;> cases cleanup <;>
    simp [Stmt.bodies, Stmt.children, guardBodies] <;> tauto

theorem mem_bodies_tryStmt {span : Span} {b : Block} {handler : Option CatchClause}
    {cleanup : Option Block} {place : Span} :
    place ∈ (stmt (.tryStmt span b handler cleanup)).bodies ↔
      place ∈ b.span :: ((block b).bodies ++ guardBodies handler cleanup) := by
  rw [bodies_stmt]
  cases handler <;> cases cleanup <;>
    simp [Stmt.bodies, Stmt.children, guardBodies] <;> tauto

@[simp] theorem bodies_block (b : Block) :
    (block b).bodies = b.statements.flatMap fun s => (stmt s).bodies := by
  rw [bodies_eq]
  exact List.flatMap_map stmt bodies b.statements

@[simp] theorem bodies_function (f : Function) : (function f).bodies = (block f.body).bodies := by
  rw [bodies_eq]
  exact List.append_nil _

@[simp] theorem bodies_component (c : Component) :
    (component c).bodies = c.statements.flatMap fun s => (stmt s).bodies := by
  rw [bodies_eq]
  simp [children, ownBodies, List.flatMap_map]

@[simp] theorem bodies_exportDecl (item : Export) :
    (exportDecl item).bodies = item.item.part.bodies := by
  rw [bodies_eq]
  exact List.append_nil _

end TreePart

end ComponentLang
