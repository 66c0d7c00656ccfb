import ComponentLang.Tree.Walk
import Mathlib.Data.List.Flatten
import Mathlib.Logic.Relation

/-!
# What a walk reaches

A walk that leaves nothing out reaches exactly the parts that stand somewhere in a program. What is
directly in a part is said here once for each form of a part, and `Program.Contains` is any number
of such steps.
-/
namespace ComponentLang

/-- Where items that come again are dropped, each is left once. -/
theorem nodup_eraseDups {α : Type} [BEq α] [LawfulBEq α] (items : List α) :
    items.eraseDups.Nodup := by
  cases items with
  | nil => exact List.nodup_nil
  | cons item rest =>
      rw [List.eraseDups_cons, List.nodup_cons]
      exact ⟨by simp, nodup_eraseDups _⟩
termination_by items.length
decreasing_by exact Nat.lt_succ_of_le (List.length_filter_le _ _)

namespace Walk

/-- Every part is gone into. -/
abbrev everywhere : TreePart → Bool := fun _ => true

variable (descend : TreePart → Bool)

/-! ## Walks of lists -/

theorem exprs_eq_flatMap (es : List Expr) : exprs descend es = es.flatMap (expr descend) := by
  induction es with
  | nil => rfl
  | cons e rest ih => rw [exprs, ih, List.flatMap_cons]

theorem propertyList_eq_flatMap (ps : List Property) :
    propertyList descend ps = ps.flatMap fun p => propertyList descend [p] := by
  induction ps with
  | nil => rfl
  | cons p rest ih =>
      rw [List.flatMap_cons, ← ih]
      cases p <;> simp [propertyList]

theorem attributeList_eq_flatMap (as : List Attribute) :
    attributeList descend as = as.flatMap fun a => attributeList descend [a] := by
  induction as with
  | nil => rfl
  | cons a rest ih =>
      rw [List.flatMap_cons, ← ih]
      obtain ⟨name, value, event, span⟩ := a
      cases value <;> simp [attributeList]

theorem markups_eq_flatMap (ms : List Markup) :
    markups descend ms = ms.flatMap (markup descend) := by
  induction ms with
  | nil => rfl
  | cons m rest ih => rw [markups, ih, List.flatMap_cons]

theorem stmts_eq_flatMap (ss : List Stmt) : stmts descend ss = ss.flatMap (stmt descend) := by
  induction ss with
  | nil => rfl
  | cons s rest ih => rw [stmts, ih, List.flatMap_cons]

end Walk

/-! ## What stands in what -/

def Property.exprs : Property → List Expr
  | .named _ value => [value]
  | .computed key value => [key, value]

/-- The parts directly in an expression. -/
def Expr.children : Expr → List TreePart
  | .literal .. => []
  | .identifier node name => [.identifier node name]
  | .valueBinding node name => [.valueBinding node name]
  | .binary _ left _ right => [.expr left, .expr right]
  | .unary _ _ operand => [.expr operand]
  | .await _ operand => [.expr operand]
  | .call _ callee arguments => .expr callee :: arguments.map .expr
  | .member _ inner _ => [.expr inner]
  | .index _ inner key => [.expr inner, .expr key]
  | .array _ items => items.map .expr
  | .object _ properties => (properties.flatMap Property.exprs).map .expr
  | .conditional _ test consequent alternate => [.expr test, .expr consequent, .expr alternate]
  | .tag _ t => [.tag t]

def Markup.children : Markup → List TreePart
  | .tag t => [.tag t]
  | .text content span => [.text content span]
  | .expr e => [.expr e]

/-- The parts directly in a statement. -/
def Stmt.children : Stmt → List TreePart
  | .expression _ e => [.expr e]
  | .block b => [.block b]
  | .variableDecl _ decl => decl.init.toList.map .expr
  | .assignment _ target _ value => [.expr target, .expr value]
  | .ifElse _ test consequent alternate =>
    .expr test :: .block consequent :: alternate.toList.map .stmt
  | .whileLoop _ test body => [.expr test, .block body]
  | .forLoop _ init test update body =>
    init.toList.map .stmt ++ (test.toList.map .expr ++
      (update.toList.map .stmt ++ [.block body]))
  | .forIn _ _ iterable body => [.expr iterable, .block body]
  | .returnStmt _ value => value.toList.map .expr
  | .breakStmt _ => []
  | .continueStmt _ => []
  | .tryStmt _ b handler cleanup | .asyncBlock _ b handler cleanup =>
    .block b :: (handler.toList.map fun clause => .block clause.body) ++
      cleanup.toList.map .block
  | .throwStmt _ value => [.expr value]
  | .functionDecl _ f => [.function f]
  | .importDecl _ item => [.importDecl item]
  | .exportDecl _ item => [.exportDecl item]
  | .error .. => []

def ExportItem.part : ExportItem → TreePart
  | .function f => .function f
  | .component c => .component c
  | .statement s => .stmt s

namespace TreePart

/-- The parts directly in a part. -/
def children : TreePart → List TreePart
  | .program p =>
    p.imports.map .importDecl ++ (p.exports.map .exportDecl ++ (p.functions.map .function ++
      (p.components.map .component ++ p.statements.map .stmt)))
  | .exportDecl item => [item.item.part]
  | .component c => c.statements.map .stmt ++ c.body.map .markup
  | .function f => [.block f.body]
  | .block b => b.statements.map .stmt
  | .stmt s => s.children
  | .expr e => e.children
  | .markup m => m.children
  | .tag t => t.attributes.map .attribute ++ t.children.map .markup
  | .attribute item => item.value.toList.map .expr
  | .importDecl .. | .identifier .. | .valueBinding .. | .text .. => []

/-- A walk that begins at a part. -/
def walk : TreePart → List TreePart
  | .program p => Walk.program Walk.everywhere p
  | .exportDecl item => Walk.exportDecl Walk.everywhere item
  | .component c => Walk.component Walk.everywhere c
  | .function f => Walk.function Walk.everywhere f
  | .block b => Walk.block Walk.everywhere b
  | .stmt s => Walk.stmt Walk.everywhere s
  | .expr e => Walk.expr Walk.everywhere e
  | .markup m => Walk.markup Walk.everywhere m
  | .tag t => Walk.tag Walk.everywhere t
  | .attribute item => Walk.attributeList Walk.everywhere [item]
  | .importDecl item => [.importDecl item]
  | .identifier node name => [.identifier node name]
  | .valueBinding node name => [.valueBinding node name]
  | .text content span => [.text content span]

/-- A walk that begins at a part and goes into the parts that `descend` says. -/
def walkBy (descend : TreePart → Bool) : TreePart → List TreePart
  | .program p => Walk.program descend p
  | .exportDecl item => Walk.exportDecl descend item
  | .component c => Walk.component descend c
  | .function f => Walk.function descend f
  | .block b => Walk.block descend b
  | .stmt s => Walk.stmt descend s
  | .expr e => Walk.expr descend e
  | .markup m => Walk.markup descend m
  | .tag t => Walk.tag descend t
  | .attribute item => Walk.attributeList descend [item]
  | .importDecl item => [.importDecl item]
  | .identifier node name => [.identifier node name]
  | .valueBinding node name => [.valueBinding node name]
  | .text content span => [.text content span]

theorem walk_eq_walkBy : walk = walkBy Walk.everywhere := by
  funext part
  cases part <;> rfl

section WalkBy

variable (descend : TreePart → Bool)

theorem flatMap_walkBy_exprs (es : List Expr) :
    (es.map expr).flatMap (walkBy descend) = Walk.exprs descend es := by
  rw [List.flatMap_map, Walk.exprs_eq_flatMap]
  rfl

theorem flatMap_walkBy_stmts (ss : List Stmt) :
    (ss.map stmt).flatMap (walkBy descend) = Walk.stmts descend ss := by
  rw [List.flatMap_map, Walk.stmts_eq_flatMap]
  rfl

theorem flatMap_walkBy_markups (ms : List Markup) :
    (ms.map markup).flatMap (walkBy descend) = Walk.markups descend ms := by
  rw [List.flatMap_map, Walk.markups_eq_flatMap]
  rfl

theorem flatMap_walkBy_attributes (as : List Attribute) :
    (as.map TreePart.attribute).flatMap (walkBy descend) = Walk.attributeList descend as := by
  rw [List.flatMap_map, Walk.attributeList_eq_flatMap]
  rfl

theorem flatMap_walkBy_properties (ps : List Property) :
    ((ps.flatMap Property.exprs).map expr).flatMap (walkBy descend) =
      Walk.propertyList descend ps := by
  rw [Walk.propertyList_eq_flatMap, flatMap_walkBy_exprs]
  induction ps with
  | nil => rfl
  | cons p rest ih =>
      rw [List.flatMap_cons, List.flatMap_cons, ← ih]
      cases p <;> simp [Property.exprs, Walk.exprs, Walk.propertyList]

theorem walkBy_expr (e : Expr) : (expr e).walkBy descend =
    Walk.enter descend (.expr e) (e.children.flatMap (walkBy descend)) := by
  cases e with
  | call node callee arguments =>
      simp only [Expr.children, List.flatMap_cons, flatMap_walkBy_exprs]
      rfl
  | array node items =>
      simp only [Expr.children, flatMap_walkBy_exprs]
      rfl
  | object node properties =>
      simp only [Expr.children, flatMap_walkBy_properties]
      rfl
  | _ => simp [walkBy, Walk.expr, Expr.children]

theorem walkBy_stmt (s : Stmt) : (stmt s).walkBy descend =
    Walk.enter descend (.stmt s) (s.children.flatMap (walkBy descend)) := by
  cases s with
  | variableDecl span decl =>
    obtain ⟨kind, name, typeExpr, init⟩ := decl
    cases init <;> simp [walkBy, Walk.stmt, Stmt.children, Walk.expr?]
  | ifElse span test consequent alternate =>
    cases alternate <;> simp [walkBy, Walk.stmt, Stmt.children, Walk.stmt?]
  | forLoop span init test update body =>
    cases init <;> cases test <;> cases update <;>
      simp [walkBy, Walk.stmt, Stmt.children, Walk.stmt?, Walk.expr?]
  | returnStmt span value =>
    cases value <;> simp [walkBy, Walk.stmt, Stmt.children, Walk.expr?]
  | tryStmt span b handler cleanup | asyncBlock span b handler cleanup =>
    obtain _ | ⟨param, body⟩ := handler <;> cases cleanup <;>
      simp [walkBy, Walk.stmt, Stmt.children, Walk.handler?, Walk.block?]
  | _ => simp [walkBy, Walk.stmt, Stmt.children]

/-- A walk takes a part before what is in it. -/
theorem walkBy_eq (part : TreePart) : part.walkBy descend =
    Walk.enter descend part (part.children.flatMap (walkBy descend)) := by
  match part with
  | .program p =>
    simp only [children, List.flatMap_append, flatMap_walkBy_stmts, Walk.stmts_eq_flatMap]
    rw [List.flatMap_map, List.flatMap_map, List.flatMap_map, List.flatMap_map]
    simp only [walkBy, Walk.program, ← List.map_eq_flatMap]
  | .exportDecl ⟨isDefault, item, span⟩ =>
    cases item <;> simp [walkBy, Walk.exportDecl, children, ExportItem.part]
  | .component ⟨name, modifiers, statements, body, span⟩ =>
    simp only [children, List.flatMap_append, flatMap_walkBy_stmts, flatMap_walkBy_markups]
    rfl
  | .function ⟨name, params, returnType, body, isAsync, modifiers, span⟩ =>
    simp [walkBy, Walk.function, children]
  | .block ⟨statements, span⟩ =>
    simp only [children, flatMap_walkBy_stmts]
    rfl
  | .stmt s => exact walkBy_stmt descend s
  | .expr e => exact walkBy_expr descend e
  | .markup m => cases m <;> simp [walkBy, Walk.markup, children, Markup.children]
  | .tag ⟨name, attributes, styles, tagChildren, selfClosing, span⟩ =>
    simp only [children, List.flatMap_append, flatMap_walkBy_attributes, flatMap_walkBy_markups]
    rfl
  | .attribute ⟨name, value, event, span⟩ =>
    cases value <;> simp [walkBy, Walk.attributeList, children]
  | .importDecl .. | .identifier .. | .valueBinding .. | .text .. =>
    simp [walkBy, Walk.enter, children]

end WalkBy

theorem flatMap_walk_stmts (ss : List Stmt) :
    (ss.map stmt).flatMap walk = Walk.stmts Walk.everywhere ss := by
  rw [walk_eq_walkBy, flatMap_walkBy_stmts]

theorem flatMap_walk_markups (ms : List Markup) :
    (ms.map markup).flatMap walk = Walk.markups Walk.everywhere ms := by
  rw [walk_eq_walkBy, flatMap_walkBy_markups]

/-- A walk that leaves nothing out goes into all of a part. -/
theorem walk_eq (part : TreePart) : part.walk = part :: part.children.flatMap walk := by
  rw [walk_eq_walkBy, walkBy_eq]
  rfl

theorem self_mem_walk (part : TreePart) : part ∈ part.walk := by
  rw [walk_eq]
  exact List.mem_cons_self

theorem mem_walk {part inner : TreePart} :
    inner ∈ part.walk ↔ inner = part ∨ ∃ child ∈ part.children, inner ∈ child.walk := by
  rw [walk_eq, List.mem_cons, List.mem_flatMap]

theorem length_walk_lt {part child : TreePart} (h : child ∈ part.children) :
    child.walk.length < part.walk.length := by
  have hsub := (List.singleton_sublist.2 h).flatMap walk
  rw [List.flatMap_singleton] at hsub
  rw [walk_eq part, List.length_cons]
  exact Nat.lt_succ_of_le hsub.length_le

/-- One part stands in another, at any depth, or is that part. -/
def Within (inner part : TreePart) : Prop :=
  Relation.ReflTransGen (fun whole child => child ∈ whole.children) part inner

theorem within_iff_mem_walk {inner part : TreePart} : inner.Within part ↔ inner ∈ part.walk := by
  constructor
  · intro h
    induction h using Relation.ReflTransGen.head_induction_on with
    | refl => exact self_mem_walk inner
    | head hchild _ ih => exact mem_walk.2 (.inr ⟨_, hchild, ih⟩)
  · -- A child has a shorter walk than the part that it is in.
    induction hlength : part.walk.length using Nat.strongRecOn generalizing part with
    | _ length ih =>
        intro h
        obtain rfl | ⟨child, hchild, hinner⟩ := mem_walk.1 h
        · exact .refl
        · have hless := hlength ▸ length_walk_lt hchild
          exact .head hchild (ih _ hless rfl hinner)

end TreePart

/-- The program has `part` in it, at any depth. -/
def Program.Contains (p : Program) (part : TreePart) : Prop := part.Within (.program p)

theorem Program.contains_iff_mem_parts {p : Program} {part : TreePart} :
    p.Contains part ↔ part ∈ p.parts :=
  TreePart.within_iff_mem_walk

/-! ## What is found on the way -/

/-- The number of an expression. -/
def TreePart.number? : TreePart → Option Nat
  | .expr e => some e.id
  | _ => none

/-- The place and the message of a placeholder. -/
def TreePart.placeholder? : TreePart → Option (Span × String)
  | .stmt (.error span message) => some (span, message)
  | _ => none

/-- The numbers of the expressions to which a walk comes, in order. -/
def Program.visited (p : Program) : List Nat := p.parts.filterMap TreePart.number?

/-- The placeholders of a program, in order. -/
def Program.placeholders (p : Program) : List (Span × String) :=
  p.parts.filterMap TreePart.placeholder?

theorem Program.mem_visited {p : Program} {id : Nat} :
    id ∈ p.visited ↔ ∃ e, p.Contains (.expr e) ∧ e.id = id := by
  simp only [visited, List.mem_filterMap, contains_iff_mem_parts]
  constructor
  · rintro ⟨part, hpart, hid⟩
    cases part with
    | expr e => exact ⟨e, hpart, Option.some.inj hid⟩
    | _ => cases hid
  · rintro ⟨e, he, rfl⟩
    exact ⟨.expr e, he, rfl⟩

theorem Program.mem_placeholders {p : Program} {span : Span} {message : String} :
    (span, message) ∈ p.placeholders ↔ p.Contains (.stmt (.error span message)) := by
  simp only [placeholders, List.mem_filterMap, contains_iff_mem_parts]
  constructor
  · rintro ⟨part, hpart, hplaceholder⟩
    unfold TreePart.placeholder? at hplaceholder
    split at hplaceholder
    · cases hplaceholder
      exact hpart
    · cases hplaceholder
  · intro h
    exact ⟨_, h, rfl⟩

end ComponentLang
