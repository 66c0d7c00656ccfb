import ComponentLang.Proofs.Tree.Names
import ComponentLang.Proofs.Tree.WellFormed

/-!
# What types are spelled with

The types of a program, and what is reported about them, are spelled with some of the names in it:
those of its variables where they are used, of members, components, tags and types, and with the
keys of its properties. Keys may be any texts, so they are told from the other names. That all of
them are of some kind is said of a part from the parts in it, once for each form.
-/
namespace ComponentLang

namespace TreePart

/-- The names in a part, apart from those in the parts and type expressions in it. -/
def labels : TreePart → List String
  | .expr (.identifier _ name) => [name]
  | .expr (.member _ _ property) => [property]
  | .component k => [k.name]
  | .tag t => [t.name]
  | _ => []

/-- The keys of the properties in an object literal. -/
def keys : TreePart → List String
  | .expr (.object _ properties) => properties.filterMap Property.key?
  | _ => []

/-- What is known of the names in a part, apart from those in the parts in it. -/
structure Spelt (N K : String → Prop) (part : TreePart) : Prop where
  labels : ∀ name ∈ part.labels, N name
  types : ∀ a ∈ part.annotations, ∀ name ∈ a.names, N name
  keys : ∀ key ∈ part.keys, K key

/-- The names in a part are such as `N` says, and the keys such as `K` says. -/
abbrev Spelled (N K : String → Prop) (part : TreePart) : Prop := part.Everywhere (Spelt N K)

end TreePart

/-- The keys of the properties in a program. -/
def Program.keys (p : Program) : List String := p.parts.flatMap TreePart.keys

open TreePart

variable {N K : String → Prop} {part : TreePart}

theorem spelled_iff :
    part.Spelled N K ↔ part.Spelt N K ∧ ∀ child ∈ part.children, child.Spelled N K :=
  everywhere_iff

theorem TreePart.Spelt.mono {N' K' : String → Prop} (h : part.Spelt N K) (hN : ∀ name, N name → N' name)
    (hK : ∀ key ∈ part.keys, K key → K' key) : part.Spelt N' K' where
  labels name hname := hN name (h.labels name hname)
  types a ha name hname := hN name (h.types a ha name hname)
  keys key hkey := hK key hkey (h.keys key hkey)

/-- Nothing needs to be asked where all names and keys will do. -/
theorem TreePart.spelled_of_all (hN : ∀ name, N name) (hK : ∀ key, K key) (part : TreePart) :
    part.Spelled N K :=
  fun _ _ => ⟨fun name _ => hN name, fun _ _ name _ => hN name, fun key _ => hK key⟩

/-! ## Type expressions -/

section TypeExpr

variable {span : Span} {a : TypeExpr}

theorem forall_names_union {members : List TypeExpr} :
    (∀ name ∈ (TypeExpr.union span members).names, N name) ↔
      ∀ a ∈ members, ∀ name ∈ a.names, N name := by
  rw [TypeExpr.names, TypeExpr.namesAll_eq_flatMap, List.forall_mem_flatMap]

end TypeExpr

/-! ## Expressions -/

section Expr

variable {node : Node} {e e₁ e₂ : Expr}

theorem spelled_expr (hlabels : labels (.expr e) = []) (hkeys : keys (.expr e) = []) :
    Spelled N K (.expr e) ↔ ∀ child ∈ e.children, child.Spelled N K := by
  rw [spelled_iff, and_iff_right]
  · rfl
  · exact ⟨by simp [hlabels], List.forall_mem_nil _, by simp [hkeys]⟩

@[simp] theorem spelled_literal {value : Literal} : Spelled N K (.expr (.literal node value)) :=
  (spelled_expr rfl rfl).2 (List.forall_mem_nil _)

@[simp] theorem spelled_identifier {name : String} :
    Spelled N K (.expr (.identifier node name)) ↔ N name := by
  have hleaf : Spelled N K (.identifier node name) :=
    spelled_iff.2 ⟨⟨List.forall_mem_nil _, List.forall_mem_nil _, List.forall_mem_nil _⟩,
      List.forall_mem_nil _⟩
  rw [spelled_iff]
  constructor
  · exact fun h => List.forall_mem_singleton.1 h.1.labels
  · exact fun h => ⟨⟨List.forall_mem_singleton.2 h, List.forall_mem_nil _, List.forall_mem_nil _⟩,
      List.forall_mem_singleton.2 hleaf⟩

@[simp] theorem spelled_valueBinding {name : String} :
    Spelled N K (.expr (.valueBinding node name)) := by
  refine (spelled_expr rfl rfl).2 (List.forall_mem_singleton.2 (spelled_iff.2 ⟨?_, ?_⟩))
  · exact ⟨List.forall_mem_nil _, List.forall_mem_nil _, List.forall_mem_nil _⟩
  · exact List.forall_mem_nil _

@[simp] theorem spelled_binary {op : BinaryOp} :
    Spelled N K (.expr (.binary node e op e₁)) ↔ Spelled N K (.expr e) ∧ Spelled N K (.expr e₁) :=
  (spelled_expr rfl rfl).trans (by simp [Expr.children])

@[simp] theorem spelled_unary {op : UnaryOp} :
    Spelled N K (.expr (.unary node op e)) ↔ Spelled N K (.expr e) :=
  (spelled_expr rfl rfl).trans List.forall_mem_singleton

@[simp] theorem spelled_await : Spelled N K (.expr (.await node e)) ↔ Spelled N K (.expr e) :=
  (spelled_expr rfl rfl).trans List.forall_mem_singleton

@[simp] theorem spelled_call {arguments : List Expr} :
    Spelled N K (.expr (.call node e arguments)) ↔
      Spelled N K (.expr e) ∧ ∀ a ∈ arguments, Spelled N K (.expr a) :=
  (spelled_expr rfl rfl).trans (by simp only [Expr.children, List.forall_mem_cons,
    List.forall_mem_map])

@[simp] theorem spelled_member {property : String} :
    Spelled N K (.expr (.member node e property)) ↔ N property ∧ Spelled N K (.expr e) := by
  rw [spelled_iff]
  constructor
  · exact fun h => ⟨List.forall_mem_singleton.1 h.1.labels, List.forall_mem_singleton.1 h.2⟩
  · exact fun h => ⟨⟨List.forall_mem_singleton.2 h.1, List.forall_mem_nil _,
      List.forall_mem_nil _⟩, List.forall_mem_singleton.2 h.2⟩

@[simp] theorem spelled_index :
    Spelled N K (.expr (.index node e e₁)) ↔ Spelled N K (.expr e) ∧ Spelled N K (.expr e₁) :=
  (spelled_expr rfl rfl).trans (by simp [Expr.children])

@[simp] theorem spelled_array {items : List Expr} :
    Spelled N K (.expr (.array node items)) ↔ ∀ item ∈ items, Spelled N K (.expr item) :=
  (spelled_expr rfl rfl).trans List.forall_mem_map

/-- What is known of a property. -/
def SpelledProperty (N K : String → Prop) (p : Property) : Prop :=
  (∀ key ∈ p.key?, K key) ∧ ∀ e ∈ p.exprs, Spelled N K (.expr e)

@[simp] theorem spelled_object {properties : List Property} :
    Spelled N K (.expr (.object node properties)) ↔ ∀ p ∈ properties, SpelledProperty N K p := by
  have hspelt : Spelt N K (.expr (.object node properties)) ↔
      ∀ p ∈ properties, ∀ key ∈ p.key?, K key := by
    constructor
    · exact fun h p hp key hkey => h.keys key (List.mem_filterMap.2 ⟨p, hp, hkey⟩)
    · intro h
      refine ⟨List.forall_mem_nil _, List.forall_mem_nil _, fun key hkey => ?_⟩
      obtain ⟨p, hp, hkey⟩ := List.mem_filterMap.1 hkey
      exact h p hp key hkey
  have hchildren : (∀ child ∈ TreePart.children (.expr (.object node properties)),
      child.Spelled N K) ↔ ∀ p ∈ properties, ∀ e ∈ p.exprs, Spelled N K (.expr e) := by
    simp only [TreePart.children, Expr.children, List.forall_mem_map, List.forall_mem_flatMap]
  rw [spelled_iff, hspelt, hchildren]
  exact ⟨fun h p hp => ⟨h.1 p hp, h.2 p hp⟩, fun h => ⟨fun p hp => (h p hp).1,
    fun p hp => (h p hp).2⟩⟩

@[simp] theorem spelled_conditional :
    Spelled N K (.expr (.conditional node e e₁ e₂)) ↔
      Spelled N K (.expr e) ∧ Spelled N K (.expr e₁) ∧ Spelled N K (.expr e₂) :=
  (spelled_expr rfl rfl).trans (by simp [Expr.children])

@[simp] theorem spelled_tagExpr {t : Tag} :
    Spelled N K (.expr (.tag node t)) ↔ Spelled N K (.tag t) :=
  (spelled_expr rfl rfl).trans List.forall_mem_singleton

end Expr

/-! ## Markup -/

theorem spelled_tag {t : Tag} :
    Spelled N K (.tag t) ↔ N t.name ∧ (∀ item ∈ t.attributes, Spelled N K (.attribute item)) ∧
      ∀ child ∈ t.children, Spelled N K (.markup child) := by
  have hspelt : Spelt N K (.tag t) ↔ N t.name :=
    ⟨fun h => List.forall_mem_singleton.1 h.labels, fun h => ⟨List.forall_mem_singleton.2 h,
      List.forall_mem_nil _, List.forall_mem_nil _⟩⟩
  rw [spelled_iff, hspelt]
  simp only [TreePart.children, List.forall_mem_append, List.forall_mem_map]

/-- A part without names of its own, in which the names are those of the parts in it. -/
theorem spelled_plain (hlabels : part.labels = []) (htypes : part.annotations = [])
    (hkeys : part.keys = []) :
    part.Spelled N K ↔ ∀ child ∈ part.children, child.Spelled N K := by
  rw [spelled_iff, and_iff_right]
  exact ⟨by simp [hlabels], by simp [htypes], by simp [hkeys]⟩

@[simp] theorem spelled_attribute {item : Attribute} :
    Spelled N K (.attribute item) ↔ ∀ value ∈ item.value, Spelled N K (.expr value) := by
  rw [spelled_plain rfl rfl rfl]
  simp [TreePart.children]

@[simp] theorem spelled_text {content : String} {span : Span} :
    Spelled N K (.markup (.text content span)) :=
  (spelled_plain rfl rfl rfl).2 (List.forall_mem_singleton.2
    ((spelled_plain rfl rfl rfl).2 (List.forall_mem_nil _)))

@[simp] theorem spelled_markupTag {t : Tag} :
    Spelled N K (.markup (.tag t)) ↔ Spelled N K (.tag t) :=
  (spelled_plain rfl rfl rfl).trans List.forall_mem_singleton

@[simp] theorem spelled_markupExpr {e : Expr} :
    Spelled N K (.markup (.expr e)) ↔ Spelled N K (.expr e) :=
  (spelled_plain rfl rfl rfl).trans List.forall_mem_singleton

/-! ## Statements -/

/-- The type expressions and parts in a statement. -/
theorem spelled_stmt {s : Stmt} :
    Spelled N K (.stmt s) ↔
      (∀ a ∈ (TreePart.stmt s).annotations, ∀ name ∈ a.names, N name) ∧
        ∀ child ∈ s.children, child.Spelled N K := by
  have hspelt : Spelt N K (.stmt s) ↔
      ∀ a ∈ (TreePart.stmt s).annotations, ∀ name ∈ a.names, N name :=
    ⟨fun h => h.types, fun h => ⟨List.forall_mem_nil _, h, List.forall_mem_nil _⟩⟩
  exact spelled_iff.trans (and_congr_left' hspelt)

/-- A statement in which no type is written. -/
theorem spelled_untyped {s : Stmt} (h : (TreePart.stmt s).annotations = []) :
    Spelled N K (.stmt s) ↔ ∀ child ∈ s.children, child.Spelled N K := by
  rw [spelled_stmt, h]
  exact and_iff_right (List.forall_mem_nil _)

section Stmt

variable {span : Span} {e e₁ : Expr} {b : Block}

@[simp] theorem spelled_block :
    Spelled N K (.block b) ↔ ∀ s ∈ b.statements, Spelled N K (.stmt s) :=
  (spelled_plain rfl rfl rfl).trans List.forall_mem_map

@[simp] theorem spelled_expression :
    Spelled N K (.stmt (.expression span e)) ↔ Spelled N K (.expr e) :=
  (spelled_untyped rfl).trans List.forall_mem_singleton

@[simp] theorem spelled_blockStmt :
    Spelled N K (.stmt (.block b)) ↔ Spelled N K (.block b) :=
  (spelled_untyped rfl).trans List.forall_mem_singleton

theorem spelled_variableDecl {decl : VariableDecl} :
    Spelled N K (.stmt (.variableDecl span decl)) ↔
      (∀ a ∈ decl.typeExpr, ∀ name ∈ a.names, N name) ∧
        ∀ init ∈ decl.init, Spelled N K (.expr init) := by
  rw [spelled_stmt]
  simp [annotations, Stmt.children]

@[simp] theorem spelled_assignment {op : AssignOp} :
    Spelled N K (.stmt (.assignment span e op e₁)) ↔
      Spelled N K (.expr e) ∧ Spelled N K (.expr e₁) :=
  (spelled_untyped rfl).trans (by simp [Stmt.children])

@[simp] theorem spelled_ifElse {alternate : Option Stmt} :
    Spelled N K (.stmt (.ifElse span e b alternate)) ↔
      Spelled N K (.expr e) ∧ Spelled N K (.block b) ∧ ∀ s ∈ alternate, Spelled N K (.stmt s) :=
  (spelled_untyped rfl).trans (by simp [Stmt.children])

@[simp] theorem spelled_whileLoop :
    Spelled N K (.stmt (.whileLoop span e b)) ↔ Spelled N K (.expr e) ∧ Spelled N K (.block b) :=
  (spelled_untyped rfl).trans (by simp [Stmt.children])

@[simp] theorem spelled_forLoop {init update : Option Stmt} {test : Option Expr} :
    Spelled N K (.stmt (.forLoop span init test update b)) ↔
      (∀ s ∈ init, Spelled N K (.stmt s)) ∧ (∀ e ∈ test, Spelled N K (.expr e)) ∧
        (∀ s ∈ update, Spelled N K (.stmt s)) ∧ Spelled N K (.block b) := by
  rw [spelled_untyped rfl]
  simp only [Stmt.children, List.forall_mem_append, List.forall_mem_map, Option.mem_toList,
    Option.mem_def, List.forall_mem_singleton]

@[simp] theorem spelled_forIn {name : String} :
    Spelled N K (.stmt (.forIn span name e b)) ↔ Spelled N K (.expr e) ∧ Spelled N K (.block b) :=
  (spelled_untyped rfl).trans (by simp [Stmt.children])

@[simp] theorem spelled_returnStmt {value : Option Expr} :
    Spelled N K (.stmt (.returnStmt span value)) ↔ ∀ e ∈ value, Spelled N K (.expr e) :=
  (spelled_untyped rfl).trans (by simp [Stmt.children])

@[simp] theorem spelled_breakStmt : Spelled N K (.stmt (.breakStmt span)) :=
  (spelled_untyped rfl).2 (List.forall_mem_nil _)

@[simp] theorem spelled_continueStmt : Spelled N K (.stmt (.continueStmt span)) :=
  (spelled_untyped rfl).2 (List.forall_mem_nil _)

/-- The parts of a statement that guards a block. -/
theorem forall_guarded (span : Span) {handler : Option CatchClause} {cleanup : Option Block} :
    (∀ child ∈ (Stmt.tryStmt span b handler cleanup).children, child.Spelled N K) ↔
      Spelled N K (.block b) ∧ (∀ c ∈ handler, Spelled N K (.block c.body)) ∧
        ∀ c ∈ cleanup, Spelled N K (.block c) := by
  simp only [Stmt.children, List.forall_mem_append, List.forall_mem_cons, List.forall_mem_map,
    Option.mem_toList, Option.mem_def, and_assoc]

@[simp] theorem spelled_tryStmt {handler : Option CatchClause} {cleanup : Option Block} :
    Spelled N K (.stmt (.tryStmt span b handler cleanup)) ↔
      Spelled N K (.block b) ∧ (∀ c ∈ handler, Spelled N K (.block c.body)) ∧
        ∀ c ∈ cleanup, Spelled N K (.block c) :=
  (spelled_untyped rfl).trans (forall_guarded span)

@[simp] theorem spelled_asyncBlock {handler : Option CatchClause} {cleanup : Option Block} :
    Spelled N K (.stmt (.asyncBlock span b handler cleanup)) ↔
      Spelled N K (.block b) ∧ (∀ c ∈ handler, Spelled N K (.block c.body)) ∧
        ∀ c ∈ cleanup, Spelled N K (.block c) :=
  (spelled_untyped rfl).trans (forall_guarded span)

@[simp] theorem spelled_throwStmt :
    Spelled N K (.stmt (.throwStmt span e)) ↔ Spelled N K (.expr e) :=
  (spelled_untyped rfl).trans List.forall_mem_singleton

@[simp] theorem spelled_functionDecl {f : Function} :
    Spelled N K (.stmt (.functionDecl span f)) ↔ Spelled N K (.function f) :=
  (spelled_untyped rfl).trans List.forall_mem_singleton

@[simp] theorem spelled_importStmt {item : Import} :
    Spelled N K (.stmt (.importDecl span item)) :=
  (spelled_untyped rfl).2 (List.forall_mem_singleton.2
    ((spelled_plain rfl rfl rfl).2 (List.forall_mem_nil _)))

@[simp] theorem spelled_exportStmt {item : Export} :
    Spelled N K (.stmt (.exportDecl span item)) ↔ Spelled N K (.exportDecl item) :=
  (spelled_untyped rfl).trans List.forall_mem_singleton

@[simp] theorem spelled_error {message : String} : Spelled N K (.stmt (.error span message)) :=
  (spelled_untyped rfl).2 (List.forall_mem_nil _)

end Stmt

/-! ## Declarations -/

theorem spelled_function {f : Function} :
    Spelled N K (.function f) ↔
      (∀ a ∈ f.annotations, ∀ name ∈ a.names, N name) ∧ Spelled N K (.block f.body) := by
  have hspelt : Spelt N K (.function f) ↔ ∀ a ∈ f.annotations, ∀ name ∈ a.names, N name :=
    ⟨fun h => h.types, fun h => ⟨List.forall_mem_nil _, h, List.forall_mem_nil _⟩⟩
  rw [spelled_iff, hspelt]
  exact and_congr_right' List.forall_mem_singleton

theorem spelled_component {k : Component} :
    Spelled N K (.component k) ↔ N k.name ∧ (∀ s ∈ k.statements, Spelled N K (.stmt s)) ∧
      ∀ m ∈ k.body, Spelled N K (.markup m) := by
  have hspelt : Spelt N K (.component k) ↔ N k.name :=
    ⟨fun h => List.forall_mem_singleton.1 h.labels, fun h => ⟨List.forall_mem_singleton.2 h,
      List.forall_mem_nil _, List.forall_mem_nil _⟩⟩
  rw [spelled_iff, hspelt]
  simp only [TreePart.children, List.forall_mem_append, List.forall_mem_map]

@[simp] theorem spelled_importDecl {item : Import} : Spelled N K (.importDecl item) :=
  (spelled_plain rfl rfl rfl).2 (List.forall_mem_nil _)

@[simp] theorem spelled_exportDecl {item : Export} :
    Spelled N K (.exportDecl item) ↔ Spelled N K item.item.part :=
  (spelled_plain rfl rfl rfl).trans List.forall_mem_singleton

theorem spelled_program {p : Program} :
    Spelled N K (.program p) ↔ (∀ item ∈ p.exports, Spelled N K (.exportDecl item)) ∧
      (∀ f ∈ p.functions, Spelled N K (.function f)) ∧
      (∀ k ∈ p.components, Spelled N K (.component k)) ∧
      ∀ s ∈ p.statements, Spelled N K (.stmt s) := by
  rw [spelled_plain rfl rfl rfl]
  simp only [TreePart.children, List.forall_mem_append, List.forall_mem_map]
  exact and_iff_right fun _ _ => spelled_importDecl

/-- What is known of the names in a program says more of them, and so does what is known of its
keys. -/
theorem TreePart.Spelled.mono {p : Program} {N' K' : String → Prop}
    (h : Spelled N K (.program p)) (hN : ∀ name, N name → N' name)
    (hK : ∀ key ∈ p.keys, K key → K' key) : Spelled N' K' (.program p) := by
  intro part hpart
  refine (h part hpart).mono hN fun key hkey => hK key ?_
  exact List.mem_flatMap.2 ⟨part, Program.contains_iff_mem_parts.1 hpart, hkey⟩

end ComponentLang
