import ComponentLang.Proofs.Tree.Walk
import Mathlib.Data.List.Forall2
import Mathlib.Data.Option.Basic

/-!
# Names that words may be

A member, the key of a property and a type may be called by a word of the language. These names are
the only texts of such words that a tree keeps. Two trees agree if they are the same unless a name
of the first is one of some given texts. Even then they have the same places, and both may stand on
the left of an assignment or neither may.
-/
namespace ComponentLang

mutual

/-- The names in a type expression. -/
def TypeExpr.names : TypeExpr → List String
  | .named _ name => [name]
  | .array _ element => TypeExpr.names element
  | .optional _ inner => TypeExpr.names inner
  | .union _ members => TypeExpr.namesAll members

def TypeExpr.namesAll : List TypeExpr → List String
  | [] => []
  | a :: rest => TypeExpr.names a ++ TypeExpr.namesAll rest

end

def Property.key? : Property → Option String
  | .named key _ => some key
  | .computed .. => none

/-- The names in a part, apart from those in the parts in it. -/
def TreePart.names : TreePart → List String
  | .expr (.member _ _ property) => [property]
  | .expr (.object _ properties) => properties.filterMap Property.key?
  | .stmt (.variableDecl _ decl) => decl.typeExpr.toList.flatMap TypeExpr.names
  | .function f =>
    f.params.flatMap (fun p => p.typeExpr.toList.flatMap TypeExpr.names) ++
      f.returnType.toList.flatMap TypeExpr.names
  | _ => []

/-- The names of the members, properties and types in a program. -/
def Program.names (p : Program) : List String := p.parts.flatMap TreePart.names

theorem TypeExpr.namesAll_eq_flatMap (as : List TypeExpr) :
    TypeExpr.namesAll as = as.flatMap TypeExpr.names := by
  induction as with
  | nil => rfl
  | cons a rest ih => rw [TypeExpr.namesAll, ih, List.flatMap_cons]

variable {word : String → Prop}

/-! ## Parts without the words -/

namespace TreePart

/-- No name in the part is one of the words. -/
def Avoids (word : String → Prop) (part : TreePart) : Prop :=
  ∀ inner ∈ part.walk, ∀ name ∈ inner.names, ¬ word name

theorem avoids_iff {part : TreePart} : part.Avoids word ↔
    (∀ name ∈ part.names, ¬ word name) ∧ ∀ child ∈ part.children, child.Avoids word := by
  unfold Avoids
  rw [walk_eq part]
  simp only [List.forall_mem_cons, List.mem_flatMap]
  refine and_congr_right fun _ => ⟨?_, ?_⟩
  · exact fun h child hchild inner hinner => h inner ⟨child, hchild, hinner⟩
  · exact fun h inner ⟨child, hchild, hinner⟩ => h child hchild inner hinner

theorem Avoids.child {part child : TreePart} (h : part.Avoids word)
    (hchild : child ∈ part.children) : child.Avoids word :=
  (avoids_iff.1 h).2 child hchild

theorem Avoids.name {part : TreePart} {name : String} (h : part.Avoids word)
    (hname : name ∈ part.names) : ¬ word name :=
  (avoids_iff.1 h).1 name hname

theorem avoids_text (content : String) (span : Span) :
    (TreePart.markup (.text content span)).Avoids word := by
  intro inner hinner name hname
  simp only [walk, Walk.markup, Walk.enter, if_true, List.mem_cons, List.not_mem_nil,
    or_false] at hinner
  rcases hinner with rfl | rfl
  · cases hname
  · cases hname

end TreePart

/-- The names of the program are those of its walk. -/
theorem Program.avoids_of_names {p : Program} (h : ∀ name ∈ p.names, ¬ word name) :
    (TreePart.program p).Avoids word :=
  fun part hpart name hname => h name (List.mem_flatMap.2 ⟨part, hpart, hname⟩)

/-! ## Trees that agree -/

/-- The trees are the same unless a name in the first is one of the words. -/
def Agrees {α : Type} (word : String → Prop) (part : α → TreePart) (a a' : α) : Prop :=
  (part a).Avoids word → a' = a

/-- The lists are the same unless a name in the first is one of the words. -/
def AgreesAll {α : Type} (word : String → Prop) (part : α → TreePart) (as as' : List α) : Prop :=
  (∀ a ∈ as, (part a).Avoids word) → as' = as

theorem AgreesAll.concat {α : Type} {part : α → TreePart} {as as' : List α} {a a' : α}
    (h : AgreesAll word part as as') (ha : Agrees word part a a') :
    AgreesAll word part (as ++ [a]) (as' ++ [a']) := by
  intro hclear
  rw [List.forall_mem_append, List.forall_mem_singleton] at hclear
  rw [h hclear.1, ha hclear.2]

theorem AgreesAll.append {α : Type} {part : α → TreePart} {as as' bs bs' : List α}
    (h : AgreesAll word part as as') (hb : AgreesAll word part bs bs') :
    AgreesAll word part (as ++ bs) (as' ++ bs') := by
  intro hclear
  rw [List.forall_mem_append] at hclear
  rw [h hclear.1, hb hclear.2]

/-- The type expressions agree, and stand at the same place. -/
structure TypeExpr.Agrees (word : String → Prop) (a a' : TypeExpr) : Prop where
  span : a'.span = a.span
  eq : (∀ name ∈ a.names, ¬ word name) → a' = a

/-- The expressions agree, stand at the same place, and may both be assigned to or neither. -/
structure Expr.Agrees (word : String → Prop) (e e' : Expr) : Prop where
  span : e'.span = e.span
  isAssignable : e'.isAssignable = e.isAssignable
  eq : ComponentLang.Agrees word .expr e e'

structure Tag.Agrees (word : String → Prop) (t t' : Tag) : Prop where
  span : t'.span = t.span
  eq : ComponentLang.Agrees word .tag t t'

/-- The properties are the same unless a name in the first is one of the words. -/
def Property.Agrees (word : String → Prop) (p p' : Property) : Prop :=
  (∀ key ∈ p.key?, ¬ word key) → (∀ e ∈ p.exprs, (TreePart.expr e).Avoids word) → p' = p

/-- Lists of trees of which each is the same as its counterpart, unless something is in the way,
are the same when nothing is. -/
theorem eq_of_forall₂ {α : Type} {R : α → α → Prop} (clear : α → Prop) {as as' : List α}
    (h : List.Forall₂ R as as') (hR : ∀ {a a' : α}, R a a' → clear a → a' = a)
    (hclear : ∀ a ∈ as, clear a) : as' = as := by
  induction h with
  | nil => rfl
  | cons ha _ ih =>
      rw [List.forall_mem_cons] at hclear
      rw [hR ha hclear.1, ih hclear.2]

theorem forall₂_concat {α β : Type} {R : α → β → Prop} {as : List α} {bs : List β} {a : α} {b : β}
    (h : List.Forall₂ R as bs) (hab : R a b) : List.Forall₂ R (as ++ [a]) (bs ++ [b]) :=
  List.rel_append h (.cons hab .nil)

/-- What may be missing is missing in both or agrees. -/
theorem eq_of_optionRel {α : Type} {R : α → α → Prop} (clear : α → Prop) {o o' : Option α}
    (h : Option.Rel R o o') (hR : ∀ {a a' : α}, R a a' → clear a → a' = a)
    (hclear : ∀ a ∈ o.toList, clear a) : o' = o := by
  cases h with
  | none => rfl
  | some ha => rw [hR ha (hclear _ (by simp))]

/-! ### Type expressions -/

namespace TypeExpr.Agrees

variable {a a' : TypeExpr}

theorem named {name name' : String} (span : Span) (h : ¬ word name → name' = name) :
    (TypeExpr.named span name).Agrees word (.named span name') where
  span := rfl
  eq hnames := by rw [h (hnames name (by simp [names]))]

theorem array (span : Span) (h : a.Agrees word a') :
    (TypeExpr.array span a).Agrees word (.array span a') :=
  ⟨rfl, fun hnames => by rw [h.eq (by simpa [names] using hnames)]⟩

theorem optional (span : Span) (h : a.Agrees word a') :
    (TypeExpr.optional span a).Agrees word (.optional span a') :=
  ⟨rfl, fun hnames => by rw [h.eq (by simpa [names] using hnames)]⟩

theorem union (span : Span) {members members' : List TypeExpr}
    (h : List.Forall₂ (TypeExpr.Agrees word) members members') :
    (TypeExpr.union span members).Agrees word (.union span members') where
  span := rfl
  eq hnames := by
    simp only [names, namesAll_eq_flatMap, List.mem_flatMap] at hnames
    have hmembers : members' = members := by
      refine eq_of_forall₂ (fun a => ∀ name ∈ a.names, ¬ word name) h (·.eq) ?_
      exact fun a ha name hname => hnames name ⟨a, ha, hname⟩
    rw [hmembers]

/-- An annotation is missing in both or agrees. -/
theorem eq_annotation {o o' : Option TypeExpr} (h : Option.Rel (TypeExpr.Agrees word) o o')
    (hnames : ∀ name ∈ o.toList.flatMap TypeExpr.names, ¬ word name) : o' = o := by
  refine eq_of_optionRel (fun a => ∀ name ∈ a.names, ¬ word name) h (·.eq) ?_
  exact fun a ha name hname => hnames name (List.mem_flatMap.2 ⟨a, ha, hname⟩)

end TypeExpr.Agrees

/-! ### Expressions and markup -/

/-- Expressions in a list are the same if the first of each pair has none of the words in it. -/
theorem Expr.Agrees.eq_list {es es' : List Expr} (h : List.Forall₂ (Expr.Agrees word) es es')
    (hclear : ∀ e ∈ es, (TreePart.expr e).Avoids word) : es' = es :=
  eq_of_forall₂ (fun e => (TreePart.expr e).Avoids word) h (fun ha => ha.eq) hclear

theorem Expr.Agrees.eq_option {e e' : Option Expr} (h : Option.Rel (Expr.Agrees word) e e')
    (hclear : ∀ a ∈ e.toList, (TreePart.expr a).Avoids word) : e' = e :=
  eq_of_optionRel (fun e => (TreePart.expr e).Avoids word) h (fun ha => ha.eq) hclear

theorem Agrees.eq_option {α : Type} {part : α → TreePart} {o o' : Option α}
    (h : Option.Rel (Agrees word part) o o') (hclear : ∀ a ∈ o.toList, (part a).Avoids word) :
    o' = o :=
  eq_of_optionRel (fun a => (part a).Avoids word) h (fun ha => ha) hclear

namespace Expr.Agrees

variable {node : Node} {e e' e₁ e₁' e₂ e₂' : Expr}

theorem refl (e : Expr) : e.Agrees word e := ⟨rfl, rfl, fun _ => rfl⟩

theorem unary {op : UnaryOp} (h : e.Agrees word e') :
    (Expr.unary node op e).Agrees word (.unary node op e') where
  span := rfl
  isAssignable := rfl
  eq hclear := by rw [h.eq (hclear.child (by simp [TreePart.children, Expr.children]))]

theorem await (h : e.Agrees word e') : (Expr.await node e).Agrees word (.await node e') where
  span := rfl
  isAssignable := rfl
  eq hclear := by rw [h.eq (hclear.child (by simp [TreePart.children, Expr.children]))]

theorem binary {op : BinaryOp} (h : e.Agrees word e') (h₁ : e₁.Agrees word e₁') :
    (Expr.binary node e op e₁).Agrees word (.binary node e' op e₁') where
  span := rfl
  isAssignable := rfl
  eq hclear := by
    rw [h.eq (hclear.child (by simp [TreePart.children, Expr.children])),
      h₁.eq (hclear.child (by simp [TreePart.children, Expr.children]))]

theorem index (h : e.Agrees word e') (h₁ : e₁.Agrees word e₁') :
    (Expr.index node e e₁).Agrees word (.index node e' e₁') where
  span := rfl
  isAssignable := rfl
  eq hclear := by
    rw [h.eq (hclear.child (by simp [TreePart.children, Expr.children])),
      h₁.eq (hclear.child (by simp [TreePart.children, Expr.children]))]

theorem conditional (h : e.Agrees word e') (h₁ : e₁.Agrees word e₁') (h₂ : e₂.Agrees word e₂') :
    (Expr.conditional node e e₁ e₂).Agrees word (.conditional node e' e₁' e₂') where
  span := rfl
  isAssignable := rfl
  eq hclear := by
    rw [h.eq (hclear.child (by simp [TreePart.children, Expr.children])),
      h₁.eq (hclear.child (by simp [TreePart.children, Expr.children])),
      h₂.eq (hclear.child (by simp [TreePart.children, Expr.children]))]

theorem member {name name' : String} (h : e.Agrees word e') (hname : ¬ word name → name' = name) :
    (Expr.member node e name).Agrees word (.member node e' name') where
  span := rfl
  isAssignable := rfl
  eq hclear := by
    rw [h.eq (hclear.child (by simp [TreePart.children, Expr.children])),
      hname (hclear.name (by simp [TreePart.names]))]

theorem call {arguments arguments' : List Expr} (h : e.Agrees word e')
    (harguments : List.Forall₂ (Expr.Agrees word) arguments arguments') :
    (Expr.call node e arguments).Agrees word (.call node e' arguments') where
  span := rfl
  isAssignable := rfl
  eq hclear := by
    have hsame := eq_list harguments fun a ha =>
      hclear.child (by simp [TreePart.children, Expr.children, ha])
    rw [h.eq (hclear.child (by simp [TreePart.children, Expr.children])), hsame]

theorem array {items items' : List Expr} (h : List.Forall₂ (Expr.Agrees word) items items') :
    (Expr.array node items).Agrees word (.array node items') where
  span := rfl
  isAssignable := rfl
  eq hclear := by
    have hsame := eq_list h fun a ha =>
      hclear.child (by simp [TreePart.children, Expr.children, ha])
    rw [hsame]

theorem object {properties properties' : List Property}
    (h : List.Forall₂ (Property.Agrees word) properties properties') :
    (Expr.object node properties).Agrees word (.object node properties') where
  span := rfl
  isAssignable := rfl
  eq hclear := by
    have hsame : properties' = properties := by
      refine eq_of_forall₂ (fun p => (∀ key ∈ p.key?, ¬ word key) ∧
        ∀ e ∈ p.exprs, (TreePart.expr e).Avoids word) h (fun ha hp => ha hp.1 hp.2) ?_
      intro p hp
      constructor
      · intro key hkey
        exact hclear.name (by simpa [TreePart.names] using ⟨p, hp, hkey⟩)
      · intro e he
        refine hclear.child ?_
        simp only [TreePart.children, Expr.children, List.mem_map, List.mem_flatMap]
        exact ⟨e, ⟨p, hp, he⟩, rfl⟩
    rw [hsame]

theorem tag {t t' : Tag} (h : t.Agrees word t') : (Expr.tag node t).Agrees word (.tag node t') where
  span := rfl
  isAssignable := rfl
  eq hclear := by rw [h.eq (hclear.child (by simp [TreePart.children, Expr.children]))]

theorem markup (h : e.Agrees word e') : ComponentLang.Agrees word .markup (.expr e) (.expr e') :=
  fun hclear => by rw [h.eq (hclear.child (by simp [TreePart.children, Markup.children]))]

end Expr.Agrees

theorem Property.Agrees.named {key key' : String} {value value' : Expr}
    (hkey : ¬ word key → key' = key) (h : value.Agrees word value') :
    (Property.named key value).Agrees word (.named key' value') := by
  intro hkeys hclear
  rw [hkey (hkeys key rfl), h.eq (hclear value (by simp [Property.exprs]))]

theorem Property.Agrees.computed {key key' value value' : Expr} (hkey : key.Agrees word key')
    (h : value.Agrees word value') :
    (Property.computed key value).Agrees word (.computed key' value') := by
  intro _ hclear
  rw [hkey.eq (hclear key (by simp [Property.exprs])),
    h.eq (hclear value (by simp [Property.exprs]))]

theorem Tag.Agrees.markup {t t' : Tag} (h : t.Agrees word t') :
    ComponentLang.Agrees word .markup (.tag t) (.tag t') :=
  fun hclear => by rw [h.eq (hclear.child (by simp [TreePart.children, Markup.children]))]

theorem agrees_attribute {name : String} {value value' : Option Expr} {event : Bool} {span : Span}
    (h : Option.Rel (Expr.Agrees word) value value') :
    Agrees word .attribute ⟨name, value, event, span⟩ ⟨name, value', event, span⟩ := by
  intro hclear
  have hsame := Expr.Agrees.eq_option h fun e he =>
    hclear.child (by simpa [TreePart.children] using he)
  rw [hsame]

theorem Tag.Agrees.of_parts {name : String} {attributes attributes' : List Attribute}
    {styles : List StyleDecl} {children children' : List Markup} {selfClosing : Bool} {span : Span}
    (h : AgreesAll word .attribute attributes attributes')
    (hchildren : AgreesAll word .markup children children') :
    Tag.Agrees word ⟨name, attributes, styles, children, selfClosing, span⟩
      ⟨name, attributes', styles, children', selfClosing, span⟩ where
  span := rfl
  eq hclear := by
    have hattributes := h fun a ha => hclear.child (by simp [TreePart.children, ha])
    have hsame := hchildren fun m hm => hclear.child (by simp [TreePart.children, hm])
    rw [hattributes, hsame]

/-! ### Statements and declarations -/

section Statements

variable {span : Span} {e e' target target' : Expr} {value value' test test' : Option Expr}
  {b b' : Block} {s s' : Stmt} {init init' update update' : Option Stmt}

theorem agrees_expression (h : e.Agrees word e') :
    Agrees word .stmt (.expression span e) (.expression span e') :=
  fun hclear => by rw [h.eq (hclear.child (by simp [TreePart.children, Stmt.children]))]

theorem agrees_throwStmt (h : e.Agrees word e') :
    Agrees word .stmt (.throwStmt span e) (.throwStmt span e') :=
  fun hclear => by rw [h.eq (hclear.child (by simp [TreePart.children, Stmt.children]))]

theorem agrees_assignment {op : AssignOp} (ht : target.Agrees word target')
    (h : e.Agrees word e') :
    Agrees word .stmt (.assignment span target op e) (.assignment span target' op e') :=
  fun hclear => by
    rw [ht.eq (hclear.child (by simp [TreePart.children, Stmt.children])),
      h.eq (hclear.child (by simp [TreePart.children, Stmt.children]))]

theorem agrees_returnStmt (h : Option.Rel (Expr.Agrees word) value value') :
    Agrees word .stmt (.returnStmt span value) (.returnStmt span value') := by
  intro hclear
  rw [Expr.Agrees.eq_option h fun a ha =>
    hclear.child (by simpa [TreePart.children, Stmt.children] using ha)]

theorem agrees_variableDecl {kind : VariableKind} {name : String}
    {typeExpr typeExpr' : Option TypeExpr}
    (htype : Option.Rel (TypeExpr.Agrees word) typeExpr typeExpr')
    (h : Option.Rel (Expr.Agrees word) value value') :
    Agrees word .stmt (.variableDecl span ⟨kind, name, typeExpr, value⟩)
      (.variableDecl span ⟨kind, name, typeExpr', value'⟩) := by
  intro hclear
  rw [TypeExpr.Agrees.eq_annotation htype fun a ha => hclear.name ha,
    Expr.Agrees.eq_option h fun a ha =>
      hclear.child (by simpa [TreePart.children, Stmt.children] using ha)]

theorem agrees_block (h : Agrees word .block b b') : Agrees word .stmt (.block b) (.block b') :=
  fun hclear => by rw [h (hclear.child (by simp [TreePart.children, Stmt.children]))]

theorem agrees_ifElse (he : e.Agrees word e') (h : Agrees word .block b b')
    (ha : Option.Rel (Agrees word .stmt) init init') :
    Agrees word .stmt (.ifElse span e b init) (.ifElse span e' b' init') := by
  intro hclear
  rw [he.eq (hclear.child (by simp [TreePart.children, Stmt.children])),
    h (hclear.child (by simp [TreePart.children, Stmt.children])),
    Agrees.eq_option ha fun a ha => hclear.child (by
      simp only [TreePart.children, Stmt.children, List.mem_cons, List.mem_map]
      exact .inr (.inr ⟨a, ha, rfl⟩))]

theorem agrees_whileLoop (he : e.Agrees word e') (h : Agrees word .block b b') :
    Agrees word .stmt (.whileLoop span e b) (.whileLoop span e' b') :=
  fun hclear => by
    rw [he.eq (hclear.child (by simp [TreePart.children, Stmt.children])),
      h (hclear.child (by simp [TreePart.children, Stmt.children]))]

theorem agrees_forIn {name : String} (he : e.Agrees word e') (h : Agrees word .block b b') :
    Agrees word .stmt (.forIn span name e b) (.forIn span name e' b') :=
  fun hclear => by
    rw [he.eq (hclear.child (by simp [TreePart.children, Stmt.children])),
      h (hclear.child (by simp [TreePart.children, Stmt.children]))]

theorem agrees_forLoop (hi : Option.Rel (Agrees word .stmt) init init')
    (ht : Option.Rel (Expr.Agrees word) test test')
    (hu : Option.Rel (Agrees word .stmt) update update') (h : Agrees word .block b b') :
    Agrees word .stmt (.forLoop span init test update b)
      (.forLoop span init' test' update' b') := by
  intro hclear
  have hchild : ∀ child : TreePart, (∃ a ∈ init.toList, .stmt a = child) ∨
      (∃ a ∈ test.toList, .expr a = child) ∨ (∃ a ∈ update.toList, .stmt a = child) ∨
      child = .block b → child.Avoids word := by
    intro child h
    exact hclear.child (by
      simpa only [TreePart.children, Stmt.children, List.mem_append, List.mem_map,
        List.mem_singleton] using h)
  rw [Agrees.eq_option hi fun a ha => hchild _ (.inl ⟨a, ha, rfl⟩),
    Expr.Agrees.eq_option ht fun a ha => hchild _ (.inr (.inl ⟨a, ha, rfl⟩)),
    Agrees.eq_option hu fun a ha => hchild _ (.inr (.inr (.inl ⟨a, ha, rfl⟩))),
    h (hchild _ (.inr (.inr (.inr rfl))))]

/-- The handlers catch the same name, and what they do agrees. -/
def CatchClause.Agrees (word : String → Prop) (handler handler' : CatchClause) : Prop :=
  handler'.param = handler.param ∧
    ComponentLang.Agrees word .block handler.body handler'.body

theorem CatchClause.Agrees.eq_option {handler handler' : Option CatchClause}
    (h : Option.Rel (CatchClause.Agrees word) handler handler')
    (hclear : ∀ clause ∈ handler.toList, (TreePart.block clause.body).Avoids word) :
    handler' = handler := by
  refine eq_of_optionRel (fun clause => (TreePart.block clause.body).Avoids word) h ?_
    hclear
  rintro ⟨param, body⟩ ⟨param', body'⟩ ⟨hparam, hbody⟩ hclear
  cases hparam
  cases hbody hclear
  rfl

theorem avoids_handling {handler : Option CatchClause} {cleanup : Option Block}
    (hclear : ∀ part ∈ (.block b :: (handler.toList.map fun clause => .block clause.body)) ++
      cleanup.toList.map .block, TreePart.Avoids word part) :
    (TreePart.block b).Avoids word ∧
      (∀ clause ∈ handler.toList, (TreePart.block clause.body).Avoids word) ∧
      ∀ c ∈ cleanup.toList, (TreePart.block c).Avoids word := by
  rw [List.forall_mem_append, List.forall_mem_cons, List.forall_mem_map, List.forall_mem_map]
    at hclear
  exact ⟨hclear.1.1, hclear.1.2, hclear.2⟩

theorem agrees_tryStmt {handler handler' : Option CatchClause} {cleanup cleanup' : Option Block}
    (h : Agrees word .block b b') (hh : Option.Rel (CatchClause.Agrees word) handler handler')
    (hc : Option.Rel (Agrees word .block) cleanup cleanup') :
    Agrees word .stmt (.tryStmt span b handler cleanup)
      (.tryStmt span b' handler' cleanup') := by
  intro hclear
  obtain ⟨hb, hhandler, hcleanup⟩ := avoids_handling fun _ hpart => hclear.child hpart
  rw [h hb, CatchClause.Agrees.eq_option hh hhandler, Agrees.eq_option hc hcleanup]

theorem agrees_asyncBlock {handler handler' : Option CatchClause} {cleanup cleanup' : Option Block}
    (h : Agrees word .block b b') (hh : Option.Rel (CatchClause.Agrees word) handler handler')
    (hc : Option.Rel (Agrees word .block) cleanup cleanup') :
    Agrees word .stmt (.asyncBlock span b handler cleanup)
      (.asyncBlock span b' handler' cleanup') := by
  intro hclear
  obtain ⟨hb, hhandler, hcleanup⟩ := avoids_handling fun _ hpart => hclear.child hpart
  rw [h hb, CatchClause.Agrees.eq_option hh hhandler, Agrees.eq_option hc hcleanup]

theorem agrees_functionDecl {f f' : Function} (h : Agrees word .function f f') :
    Agrees word .stmt (.functionDecl span f) (.functionDecl span f') :=
  fun hclear => by rw [h (hclear.child (by simp [TreePart.children, Stmt.children]))]

theorem agrees_exportDecl {item item' : Export} (h : Agrees word .exportDecl item item') :
    Agrees word .stmt (.exportDecl span item) (.exportDecl span item') :=
  fun hclear => by rw [h (hclear.child (by simp [TreePart.children, Stmt.children]))]

theorem agrees_refl {α : Type} (part : α → TreePart) (a : α) : Agrees word part a a := fun _ => rfl

theorem agrees_statements {stmts stmts' : List Stmt} (h : AgreesAll word .stmt stmts stmts') :
    Agrees word .block ⟨stmts, span⟩ ⟨stmts', span⟩ :=
  fun hclear => by rw [h fun s hs => hclear.child (by simp [TreePart.children, hs])]

/-- The parameters have the same name and place, and their annotations agree. -/
def Param.Agrees (word : String → Prop) (p p' : Param) : Prop :=
  p'.name = p.name ∧ p'.span = p.span ∧
    Option.Rel (TypeExpr.Agrees word) p.typeExpr p'.typeExpr

theorem agrees_function {name : String} {params params' : List Param}
    {returnType returnType' : Option TypeExpr} {isAsync : Bool} {modifiers : List String}
    (hp : List.Forall₂ (Param.Agrees word) params params')
    (hr : Option.Rel (TypeExpr.Agrees word) returnType returnType')
    (h : Agrees word .block b b') :
    Agrees word .function ⟨name, params, returnType, b, isAsync, modifiers, span⟩
      ⟨name, params', returnType', b', isAsync, modifiers, span⟩ := by
  intro hclear
  have hnames : ∀ name ∈ params.flatMap (fun p => p.typeExpr.toList.flatMap TypeExpr.names) ++
      returnType.toList.flatMap TypeExpr.names, ¬ word name := fun _ hname => hclear.name hname
  rw [List.forall_mem_append] at hnames
  have hparams : params' = params := by
    refine eq_of_forall₂ (fun p : Param =>
      ∀ name ∈ p.typeExpr.toList.flatMap TypeExpr.names, ¬ word name) hp ?_ ?_
    · rintro ⟨name, typeExpr, span⟩ ⟨name', typeExpr', span'⟩ ⟨hname, hspan, htype⟩ hclear
      cases hname
      cases hspan
      obtain rfl : typeExpr' = typeExpr := TypeExpr.Agrees.eq_annotation htype hclear
      rfl
    · exact fun p hp name hname => hnames.1 name (List.mem_flatMap.2 ⟨p, hp, hname⟩)
  rw [hparams, TypeExpr.Agrees.eq_annotation hr hnames.2,
    h (hclear.child (by simp [TreePart.children]))]

theorem agrees_component {name : String} {modifiers : List String} {stmts stmts' : List Stmt}
    {body body' : List Markup} (h : AgreesAll word .stmt stmts stmts')
    (hbody : AgreesAll word .markup body body') :
    Agrees word .component ⟨name, modifiers, stmts, body, span⟩
      ⟨name, modifiers, stmts', body', span⟩ := by
  intro hclear
  rw [h fun s hs => hclear.child (by simp [TreePart.children, hs]),
    hbody fun m hm => hclear.child (by simp [TreePart.children, hm])]

theorem agrees_export {isDefault : Bool} {item item' : ExportItem}
    (h : Agrees word ExportItem.part item item') :
    Agrees word .exportDecl ⟨isDefault, item, span⟩ ⟨isDefault, item', span⟩ :=
  fun hclear => by rw [h (hclear.child (by simp [TreePart.children]))]

end Statements

/-- The programs agree, list by list. -/
structure Program.Agrees (word : String → Prop) (p p' : Program) : Prop where
  imports : p'.imports = p.imports
  exports : AgreesAll word .exportDecl p.exports p'.exports
  functions : AgreesAll word .function p.functions p'.functions
  components : AgreesAll word .component p.components p'.components
  statements : AgreesAll word .stmt p.statements p'.statements

theorem Program.Agrees.refl (p : Program) : p.Agrees word p :=
  ⟨rfl, fun _ => rfl, fun _ => rfl, fun _ => rfl, fun _ => rfl⟩

/-- Programs that agree are the same if none of the words is a name in the first. -/
theorem Program.Agrees.eq {p p' : Program} (h : p.Agrees word p')
    (hclear : ∀ name ∈ p.names, ¬ word name) : p' = p := by
  have hwhole := avoids_of_names hclear
  have hexports := h.exports fun a ha => hwhole.child (by simp [TreePart.children, ha])
  have hfunctions := h.functions fun a ha => hwhole.child (by simp [TreePart.children, ha])
  have hcomponents := h.components fun a ha => hwhole.child (by simp [TreePart.children, ha])
  have hstatements := h.statements fun a ha => hwhole.child (by simp [TreePart.children, ha])
  cases p
  cases p'
  cases h.imports
  cases hexports
  cases hfunctions
  cases hcomponents
  cases hstatements
  rfl

end ComponentLang
