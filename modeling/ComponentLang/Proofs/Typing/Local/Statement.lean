import ComponentLang.Proofs.Typing.Local
import ComponentLang.Proofs.Typing.Settled.Program

/-!
# Trees depend on what is in sight

What checking a tree finds out depends on the variables and the tags in it and on what they mean,
and what it settles are the names that the tree defines.
-/

/-! ## Expressions depend on what is in sight

What is found out about an expression depends on the variables and the tags in it, on the components
and on the values from outside, and on nothing else. -/

namespace ComponentLang

/-- The name that a part looks up, if it does: that of a variable or of a tag. -/
def TreePart.mention? : TreePart → Option String
  | .identifier _ name => some name
  | .tag t => some t.name
  | _ => none

/-- All names that the parts look up are in view. -/
def View.Sees (V : View) (parts : List TreePart) : Prop :=
  ∀ part ∈ parts, ∀ y ∈ part.mention?, V.seen y

namespace View

variable {V : View} {part : TreePart} {parts others : List TreePart}

theorem sees_cons :
    V.Sees (part :: parts) ↔ (∀ y ∈ part.mention?, V.seen y) ∧ V.Sees parts :=
  List.forall_mem_cons

theorem sees_append : V.Sees (parts ++ others) ↔ V.Sees parts ∧ V.Sees others :=
  List.forall_mem_append

/-- Nothing needs to be asked where every name is in view. -/
theorem sees_of_all (h : ∀ y, V.seen y) (parts : List TreePart) : V.Sees parts :=
  fun _ _ y _ => h y

end View

open Checking

namespace Check

variable {V : View} {D : Set String}

open Walk View

theorem local_externalType (name : String) : Local V D (externalType name) := by
  refine local_read_bind (fun c => (TypedName.lookup? name c.external).getD .any) ?_ local_pure
  intro c d hm _
  rw [hm.external]

theorem noteTag_run (name : String) (looksLikeComponent : Bool) (span : Span) (c : Checking) :
    (noteTag name looksLikeComponent span).run c =
      (if looksLikeComponent && !(c.components.contains name || (c.scopes.lookup? name).isSome) then
        report (.unknownComponent name) span else pure () : Check Unit).run c :=
  rfl

/-- A variable that is lacking does not hide that a tag is no component. -/
theorem local_noteTag {name : String} (h : V.seen name) (looksLikeComponent : Bool)
    (span : Span) : Local V D (noteTag name looksLikeComponent span) where
  frames c := by
    rw [noteTag_run]
    exact (local_ite (V := V) (local_report _ span) (local_pure ())).frames c
  alike c d hm hadmits := by
    have hcomponents : d.components.contains name = c.components.contains name := by
      rw [Bool.eq_iff_iff, List.contains_iff_mem, List.contains_iff_mem]
      exact hm.components name
    have hboth : ∀ known, Alike V (if looksLikeComponent && !known then
        report (.unknownComponent name) span else pure () : Check Unit) c d :=
      fun known => (local_ite (local_report _ span) (local_pure ())).alike c d hm hadmits
    have hc := noteTag_run name looksLikeComponent span c
    have hd := noteTag_run name looksLikeComponent span d
    rcases hm.lookup? h with hsame | ⟨hgap, hnone⟩
    · rw [hsame, hcomponents] at hd
      exact (hboth _).of_run hc hd
    · by_cases hreported : looksLikeComponent && !c.components.contains name
      · left
        rw [hnone, hcomponents, Option.isSome_none, Bool.or_false, if_pos hreported] at hd
        rw [hd]
        exact ⟨name, span, hgap, .inr (mem_addDiagnostic.2 (.inr rfl))⟩
      · -- Neither run has anything to report.
        have hsilent : ∀ inSight, (looksLikeComponent &&
            !(c.components.contains name || inSight)) = false := by
          intro inSight
          cases looksLikeComponent <;> cases hcontains : c.components.contains name <;> simp_all
        rw [hsilent] at hc
        rw [hcomponents, hsilent] at hd
        exact ((local_pure ()).alike c d hm hadmits).of_run hc hd

theorem local_tagType (t : Tag) : Local V D (tagType t) := by
  unfold tagType
  exact (local_isComponent t.name).bind fun known => local_ite (local_pure _) (local_pure _)

mutual

theorem local_expr : ∀ e : Expr, V.Sees (Walk.expr everywhere e) → Local V D (expr e)
  | .literal .., _ => by
    rw [Check.expr]
    exact (local_pure _).bind (local_noted _)
  | .identifier node name, h => by
    rw [Check.expr]
    have hname : V.seen name := h (.identifier node name) (by simp [Walk.expr, enter]) name rfl
    exact (local_variableType hname _).bind (local_noted _)
  | .valueBinding node name, _ => by
    rw [Check.expr]
    exact (local_externalType name).bind (local_noted _)
  | .binary node left op right, h => by
    rw [Check.expr]
    rw [Walk.expr, enter, if_pos rfl, sees_cons, sees_append] at h
    exact (local_expr left h.2.1).bind fun l => (local_expr right h.2.2).bind fun r =>
      (local_settle _ _).bind (local_noted _)
  | .unary node op operand, h => by
    rw [Check.expr]
    rw [Walk.expr, enter, if_pos rfl, sees_cons] at h
    exact (local_expr operand h.2).bind fun t => (local_settle _ _).bind (local_noted _)
  | .await node operand, h => by
    rw [Check.expr]
    rw [Walk.expr, enter, if_pos rfl, sees_cons] at h
    exact (local_expr operand h.2).bind (local_noted _)
  | .call node callee arguments, h => by
    rw [Check.expr]
    rw [Walk.expr, enter, if_pos rfl, sees_cons, sees_append] at h
    exact (local_expr callee h.2.1).bind fun t => (local_exprs arguments h.2.2).bind fun types =>
      (local_reportAll _).bind fun _ => (local_pure _).bind (local_noted _)
  | .member node object property, h => by
    rw [Check.expr]
    rw [Walk.expr, enter, if_pos rfl, sees_cons] at h
    exact (local_expr object h.2).bind fun t => (local_settle _ _).bind (local_noted _)
  | .index node object index, h => by
    rw [Check.expr]
    rw [Walk.expr, enter, if_pos rfl, sees_cons, sees_append] at h
    exact (local_expr object h.2.1).bind fun t => (local_expr index h.2.2).bind fun i =>
      (local_settle _ _).bind (local_noted _)
  | .array node items, h => by
    rw [Check.expr]
    rw [Walk.expr, enter, if_pos rfl, sees_cons] at h
    exact (local_exprs items h.2).bind fun types => (local_pure _).bind (local_noted _)
  | .object node properties, h => by
    rw [Check.expr]
    rw [Walk.expr, enter, if_pos rfl, sees_cons] at h
    exact (local_propertyList [] properties h.2).bind fun fields =>
      (local_pure _).bind (local_noted _)
  | .conditional node test consequent alternate, h => by
    rw [Check.expr]
    rw [Walk.expr, enter, if_pos rfl, sees_cons, sees_append, sees_append] at h
    obtain ⟨-, htest, hconsequent, halternate⟩ := h
    exact (local_expr test htest).bind fun _ => (local_expr consequent hconsequent).bind fun a =>
      (local_expr alternate halternate).bind fun b => (local_pure _).bind (local_noted _)
  | .tag node t, h => by
    rw [Check.expr]
    rw [Walk.expr, enter, if_pos rfl, sees_cons] at h
    exact (local_tag t h.2).bind fun _ => (local_tagType t).bind (local_noted _)

theorem local_exprs : ∀ es : List Expr, V.Sees (Walk.exprs everywhere es) → Local V D (exprs es)
  | [], _ => local_pure _
  | e :: rest, h => by
    rw [Check.exprs]
    rw [Walk.exprs, sees_append] at h
    exact (local_expr e h.1).bind fun type => (local_exprs rest h.2).bind fun types => local_pure _

theorem local_propertyList (fields : List TypedName) : ∀ ps : List Property,
    V.Sees (Walk.propertyList everywhere ps) → Local V D (propertyList fields ps)
  | [], _ => local_pure _
  | .named key value :: rest, h => by
    rw [Check.propertyList]
    rw [Walk.propertyList, sees_append] at h
    exact (local_expr value h.1).bind fun type => local_propertyList _ rest h.2
  | .computed key value :: rest, h => by
    rw [Check.propertyList]
    rw [Walk.propertyList, sees_append, sees_append] at h
    exact (local_expr value h.2.1).bind fun _ => (local_expr key h.1).bind fun _ =>
      local_propertyList _ rest h.2.2

theorem local_tag : ∀ t : Tag, V.Sees (Walk.tag everywhere t) → Local V D (tag t)
  | ⟨name, attributes, styles, children, selfClosing, span⟩, h => by
    rw [Check.tag]
    rw [Walk.tag, enter, if_pos rfl, sees_cons, sees_append] at h
    exact (local_noteTag (h.1 name rfl) _ _).bind fun _ =>
      (local_attributeList attributes h.2.1).bind fun _ => local_markups children h.2.2

theorem local_attributeList : ∀ as : List Attribute,
    V.Sees (Walk.attributeList everywhere as) → Local V D (attributeList as)
  | [], _ => local_pure _
  | ⟨name, some value, event, span⟩ :: rest, h => by
    rw [Check.attributeList]
    rw [Walk.attributeList, enter, if_pos rfl, sees_append, sees_cons] at h
    exact (local_expr value h.1.2).bind fun _ => local_attributeList rest h.2
  | ⟨name, none, event, span⟩ :: rest, h => by
    rw [Check.attributeList]
    rw [Walk.attributeList, sees_append] at h
    exact local_attributeList rest h.2

theorem local_markup : ∀ m : Markup, V.Sees (Walk.markup everywhere m) → Local V D (markup m)
  | .tag t, h => by
    rw [Check.markup]
    rw [Walk.markup, enter, if_pos rfl, sees_cons] at h
    exact local_tag t h.2
  | .text .., _ => by
    rw [Check.markup]
    exact local_pure ()
  | .expr e, h => by
    rw [Check.markup]
    rw [Walk.markup, enter, if_pos rfl, sees_cons] at h
    exact (local_expr e h.2).bind fun _ => local_pure ()

theorem local_markups : ∀ ms : List Markup, V.Sees (Walk.markups everywhere ms) →
    Local V D (markups ms)
  | [], _ => local_pure _
  | m :: rest, h => by
    rw [Check.markups]
    rw [Walk.markups, sees_append] at h
    exact (local_markup m h.1).bind fun _ => local_markups rest h.2

end

theorem local_expr? (e : Option Expr) (h : V.Sees (Walk.expr? everywhere e)) :
    Local V D (expr? e) := by
  cases e with
  | none => exact local_pure ()
  | some e => exact (local_expr e h).bind fun _ => local_pure ()

end Check

end ComponentLang

/-! ## Statements and declarations depend on what is in sight

A statement defines few names where it stands: bodies have scopes of their own. What is assigned to
a variable is no definition, but a variable of no known type takes the type of it. -/

namespace ComponentLang

mutual

/-- The names that a statement defines where it stands. -/
def Stmt.declared : Stmt → List String
  | .variableDecl _ decl => [decl.name]
  | .functionDecl _ f => [f.name]
  | .importDecl _ item => item.names ++ item.default.toList
  | .exportDecl _ item => item.declared
  | .ifElse _ _ _ alternate => Stmt.declared? alternate
  | _ => []

def Stmt.declared? : Option Stmt → List String
  | none => []
  | some s => s.declared

def Export.declared : Export → List String
  | ⟨_, .function f, _⟩ => [f.name]
  | ⟨_, .component _, _⟩ => []
  | ⟨_, .statement s, _⟩ => s.declared

end

open Scopes Checking

namespace Check

variable {V : View} {D : Set String}

open View

/-! ### Assignments -/

theorem lookup?_of_leavesScopes {α : Type} {p : Check α} (h : LeavesScopes p) (c : Checking)
    (name : String) : (p.run c).2.scopes.lookup? name = c.scopes.lookup? name := by
  rw [h c]

/-- A variable that means the same in both states is updated in both or in neither. -/
theorem alike_update {name : String} {c d : Checking} (hm : Matches V c d)
    (hsame : d.scopes.lookup? name = c.scopes.lookup? name) (type : Ty) :
    Alike V (update name type) c d :=
  .inr ⟨rfl, hm.update hsame type, _, adds_of_eq rfl rfl rfl, adds_of_eq rfl rfl rfl⟩

/-- What the outermost scope says changes only if it said that the type is not known. -/
theorem frames_update {name : String} {c : Checking}
    (h : c.scopes.lookup? name = none ∨ c.scopes.lookup? name = some .unknown) (type : Ty) :
    Frames D c ((update name type).run c).2 where
  external := rfl
  components := rfl
  returns := rfl
  depth := length_outer_update? c.scopes name type
  reported := List.Subset.refl _
  outermost y _ hknown := by
    change ((c.scopes.update? name type).getD c.scopes).outermost y = _
    unfold outermost at hknown ⊢
    by_cases hname : name = y
    · subst hname
      rw [lookup?_eq_entries] at h
      rw [entries_update?]
      exact getLastD_settleFirst type h hknown
    · rw [entries_update?_of_ne hname]

/-- The type of a variable on the left of an assignment is not known, if it is in sight at all. -/
theorem lookup?_of_assignmentTarget {node : Node} {name : String} {c : Checking}
    (h : ((assignmentTarget (.identifier node name)).run c).1 = .unknown) :
    c.scopes.lookup? name = none ∨ c.scopes.lookup? name = some .unknown := by
  cases hlookup : c.scopes.lookup? name with
  | none => exact .inl rfl
  | some type =>
      rw [assignmentTarget_of_some hlookup] at h
      exact .inr (congrArg some h)

/-- The types of the left side of an assignment and of what it stores. -/
def assigned (target : Expr) (op : AssignOp) (value : Expr) : Check (Ty × Ty) := do
  let targetType ← assignmentTarget target
  let valueType ← expr value
  let stored ← assignedType op targetType valueType value.span
  return (targetType, stored)

/-- Store a value, when the types are known. -/
def keep (target : Expr) (span : Span) (types : Ty × Ty) : Check Unit :=
  if types.1 = .unknown then adopt target types.2 else expectStorable types.2 types.1 span

theorem assignment_eq (target : Expr) (op : AssignOp) (value : Expr) :
    assignment target op value = assigned target op value >>= keep target value.span :=
  rfl

theorem fixes_assigned {γ : Type} {view : Checking → γ} [IgnoresFindings view] (target : Expr)
    (op : AssignOp) (value : Expr) : Fixes view (assigned target op value) :=
  (fixes_assignmentTarget target).bind fun _ => (fixes_expr value).bind fun _ =>
    (fixes_assignedType op _ _ _).bind fun _ => fixes_pure _

theorem leaves_keep (target : Expr) (span : Span) (types : Ty × Ty) :
    LeavesNothing (keep target span types) := by
  unfold keep
  split
  · exact leaves_adopt target types.2
  · exact leaves_expectStorable

/-- Only a variable is given another type, and only if its type is not known. -/
theorem frames_keep {target : Expr} {types : Ty × Ty} {c : Checking} (span : Span)
    (h : ∀ node name, target = .identifier node name → types.1 = .unknown →
      c.scopes.lookup? name = none ∨ c.scopes.lookup? name = some .unknown) :
    Frames D c ((keep target span types).run c).2 := by
  unfold keep
  split
  next hunknown =>
    unfold adopt
    split
    next node name =>
      split
      · exact (local_pure (V := .all) ()).frames c
      · exact frames_update (h node name rfl hunknown) _
    next => exact (local_pure (V := .all) ()).frames c
  next => exact (local_expectStorable (V := .all) _ _ _).frames c

/-- A variable that means the same in both states is given another type in both. -/
theorem alike_keep {target : Expr} {types : Ty × Ty} {c d : Checking} (span : Span)
    (hm : Matches V c d) (h : ∀ node name, target = .identifier node name →
      d.scopes.lookup? name = c.scopes.lookup? name) :
    Alike V (keep target span types) c d := by
  unfold keep
  split
  · unfold adopt
    split
    next node name =>
      split
      · exact .inr (parallel_pure () hm)
      · exact alike_update hm (h node name rfl) _
    next => exact .inr (parallel_pure () hm)
  · exact (local_expectStorable _ _ _).alike c d hm (D := ∅) nofun

theorem local_assignedType (op : AssignOp) (target value : Ty) (span : Span) :
    Local V D (assignedType op target value span) := by
  unfold assignedType
  split
  · exact local_pure _
  · exact local_settle _ span

theorem local_assigned (hV : ∀ y, V.seen y) (target : Expr) (op : AssignOp) (value : Expr) :
    Local V D (assigned target op value) := by
  have htarget : Local V D (assignmentTarget target) := by
    unfold assignmentTarget
    split
    · exact (local_variableType (hV _) _).bind (local_noted _)
    · exact local_expr target (sees_of_all hV _)
  exact htarget.bind fun _ => (local_expr value (sees_of_all hV _)).bind fun _ =>
    (local_assignedType op _ _ _).bind fun _ => local_pure _

/-- A variable that the second state lacks is reported where something is assigned to it. -/
theorem missed_assigned {node : Node} {name : String} {op : AssignOp} {value : Expr} {d : Checking}
    (hgap : V.gap name ≠ none) (hnone : d.scopes.lookup? name = none) :
    Missed V ((assigned (.identifier node name) op value).run d).2 := by
  have hvariable : Missed V ((variableType name node.span).run d).2 := by
    rw [variableType_of_none hnone]
    exact ⟨name, node.span, hgap, .inl (mem_addDiagnostic.2 (.inr rfl))⟩
  have htarget : Missed V ((assignmentTarget (.identifier node name)).run d).2 :=
    hvariable.mono ((leaves_noted node.id _).diagnostics_subset _)
  have hrest : ∀ type, Leaves _ (do
      let valueType ← expr value
      let stored ← assignedType op type valueType value.span
      return (type, stored)) := fun type =>
    (leaves_expr value).before fun valueType =>
      leaves_then (leaves_assignedType op type valueType _) fun _ => leaves_pure _
  rw [assigned, StateT.run_bind]
  exact htarget.mono ((hrest _).diagnostics_subset _)

theorem local_assignment (hV : ∀ y, V.seen y) (target : Expr) (op : AssignOp) (value : Expr) :
    Local V D (assignment target op value) where
  frames c := by
    rw [assignment_eq]
    refine ((local_assigned hV target op value).frames c).trans (frames_keep _ ?_)
    rintro node name rfl hunknown
    rw [lookup?_of_leavesScopes (fixes_assigned _ op value)]
    exact lookup?_of_assignmentTarget hunknown
  alike c d hm hadmits := by
    have hgrows : ∀ types e, e.diagnostics ⊆ ((keep target value.span types).run e).2.diagnostics :=
      fun types => (leaves_keep target value.span types).diagnostics_subset
    rw [assignment_eq]
    by_cases hsame : ∀ node name, target = .identifier node name →
        d.scopes.lookup? name = c.scopes.lookup? name
    · refine ((local_assigned hV target op value).alike c d hm hadmits).bind hgrows fun hm' => ?_
      refine alike_keep _ hm' fun node name htarget => ?_
      have hleaves : LeavesScopes _ := fixes_assigned target op value
      rw [lookup?_of_leavesScopes hleaves, lookup?_of_leavesScopes hleaves]
      exact hsame node name htarget
    · push Not at hsame
      obtain ⟨node, name, rfl, hdiffers⟩ := hsame
      obtain ⟨hgap, hnone⟩ := (hm.lookup? (hV name)).resolve_left hdiffers
      exact .inl ((missed_assigned hgap hnone).mono (hgrows _ _))

/-! ### Variables -/

/-- The type that a variable is declared with. -/
def declaredWith (decl : VariableDecl) : Check Ty := do
  let annotated ← resolve? decl.typeExpr
  let init ← match decl.init with
    | none => pure none
    | some e => some <$> expr e
  match annotated, init, decl.init with
  | some target, some value, some e => expectStorable value target e.span
  | _, _, _ => pure ()
  return declaredType annotated init

theorem variableDecl_eq (decl : VariableDecl) : variableDecl decl = (do
    let type ← declaredWith decl
    define decl.name type) := by
  obtain ⟨kind, name, typeExpr, init⟩ := decl
  unfold variableDecl declaredWith
  simp only [bind_assoc, pure_bind]
  refine bind_congr fun annotated => ?_
  cases init with
  | none => rfl
  | some e =>
      rw [bind_assoc]
      refine bind_congr fun init => ?_
      cases annotated <;> cases init <;> simp

theorem local_declaredWith {decl : VariableDecl} (h : V.Sees (Walk.expr? Walk.everywhere decl.init)) :
    Local V D (declaredWith decl) := by
  obtain ⟨kind, name, typeExpr, init⟩ := decl
  unfold declaredWith
  refine (local_resolve? typeExpr).bind fun annotated => ?_
  cases init with
  | none =>
      refine (local_pure none).bind fun init => ?_
      dsimp only
      split
      · next heq => cases heq
      · exact local_pure _
  | some e =>
      refine (local_map (local_expr e h)).bind fun init => ?_
      dsimp only
      split
      · exact (local_expectStorable _ _ _).bind fun _ => local_pure _
      · exact local_pure _

theorem fixes_declaredWith {γ : Type} {view : Checking → γ} [IgnoresFindings view]
    (decl : VariableDecl) : Fixes view (declaredWith decl) := by
  obtain ⟨kind, name, typeExpr, init⟩ := decl
  unfold declaredWith
  refine (fixes_resolve? typeExpr).bind fun annotated => ?_
  cases init with
  | none =>
      refine (fixes_pure none).bind fun init => ?_
      dsimp only
      split
      · next heq => cases heq
      · exact fixes_pure _
  | some e =>
      refine (fixes_map (fixes_expr e)).bind fun init => ?_
      dsimp only
      split
      · exact (fixes_expectStorable _ _ _).bind fun _ => fixes_pure _
      · exact fixes_pure _

theorem local_variableDecl (hV : ∀ y, V.seen y) {decl : VariableDecl} (h : decl.name ∈ D) :
    Local V D (variableDecl decl) := by
  rw [variableDecl_eq]
  exact (local_declaredWith (sees_of_all hV _)).bind fun type => local_define h type

/-! ### Functions -/

theorem local_paramTypes (params : List Param) : Local V D (paramTypes params) := by
  induction params with
  | nil => exact local_pure _
  | cons param rest ih =>
      exact (local_resolve? param.typeExpr).bind fun _ => ih.bind fun _ => local_pure _

theorem local_signature (f : Function) : Local V D (signature f) := by
  unfold signature
  exact (local_paramTypes f.params).bind fun params =>
    (local_resolve? f.returnType).bind fun _ => local_pure _

theorem local_defineAll (params : List Param) (types : List Ty) :
    Local V Set.univ (defineAll params types) := by
  fun_induction defineAll params types with
  | case1 p params type types ih => exact (local_define (Set.mem_univ _) type).bind fun _ => ih
  | case2 => exact local_pure ()

/-- A function is defined where it stands; its parameters and its body have a scope of their own. -/
theorem local_functionType {name : String} {params : List Param} {returnType : Option TypeExpr}
    {isAsync : Bool} {body : Check Unit} (h : name ∈ D) (hbody : Local V Set.univ body) :
    Local V D (functionType name params returnType isAsync body) := by
  unfold functionType
  refine (local_paramTypes params).bind fun types => (local_resolve? returnType).bind
    fun declared => (local_define h _).bind fun _ => ?_
  have hscope : Local V D (inScope do
      defineAll params types
      collectReturns declared body) :=
    local_inScope ((local_defineAll params types).bind fun _ => local_collectReturns declared hbody)
  exact hscope.bind fun seen => (local_define h _).bind fun _ => local_pure _

theorem local_importNames {names : List String} (h : ∀ y ∈ names, y ∈ D) :
    Local V D (importNames names) := by
  induction names with
  | nil => exact local_pure ()
  | cons name rest ih =>
      rw [List.forall_mem_cons] at h
      exact (local_define h.1 .any).bind fun _ => ih h.2

theorem local_declareMethods (ss : List Stmt) : Local V Set.univ (declareMethods ss) := by
  fun_induction declareMethods ss with
  | case1 => exact local_pure ()
  | case2 span f rest ih =>
      exact (local_signature f).bind fun type => (local_define (Set.mem_univ _) type).bind fun _ => ih
  | case3 s rest _ ih => exact ih

theorem local_summarize (hV : ∀ y, V.seen y) (name : String) (state : List String)
    (methods : List TypedName) : Local V D (summarize name state methods) where
  frames c := frames_of_eq rfl rfl rfl rfl (List.Subset.refl _)
  alike c d hm _ := by
    have hstate : V.Whole → ∀ n, d.scopes.lookup? n = c.scopes.lookup? n :=
      fun hwhole n => (hm.lookup? (hV n)).resolve_right fun h => h.1 (hwhole n)
    refine .inr ⟨rfl, ⟨hm.entries, hm.depth, hm.external, hm.components, hm.returns⟩,
      ⟨[], [], [⟨name, state.filterMap fun n => (c.scopes.lookup? n).map fun t => ⟨n, t⟩, methods⟩]⟩,
      ?_, ?_⟩
    · exact ⟨fun x => (or_iff_right List.not_mem_nil).symm, rfl, fun _ => rfl⟩
    · refine ⟨fun x => (or_iff_right List.not_mem_nil).symm, rfl, fun hwhole => ?_⟩
      simp only [← hstate hwhole]
      rfl

/-- Whether a scope of a component itself has a name is the same in both states. -/
theorem definesHere_of_matches (hV : ∀ y, V.seen y) {c d : Checking} (hm : Matches V c d)
    (hadmits : V.Admits Set.univ c) (name : String) :
    d.scopes.definesHere name = c.scopes.definesHere name := by
  have hentries := hm.entries name (hV name)
  rw [entries_eq_cons c.scopes, entries_eq_cons d.scopes] at hentries
  have hne : V.gap name ≠ none → c.scopes.outer.map (TypedName.lookup? name) ≠ [] := by
    intro hgap
    simpa using List.ne_nil_of_length_pos (hadmits name trivial hgap)
  unfold definesHere
  rw [(hentries.of_cons hne).1]

/-! ### Statements -/

mutual

theorem local_stmt (hV : ∀ y, V.seen y) : ∀ (s : Stmt) (D : Set String),
    (∀ y ∈ s.declared, y ∈ D) → Local V D (stmt s)
  | .expression span e, _, _ => by
    rw [Check.stmt]
    exact (local_expr e (sees_of_all hV _)).bind fun _ => local_pure ()
  | .block b, _, _ => by
    rw [Check.stmt]
    exact local_block hV b _
  | .variableDecl span decl, _, h => by
    rw [Check.stmt]
    exact local_variableDecl hV (h _ List.mem_cons_self)
  | .assignment span target op value, _, _ => by
    rw [Check.stmt]
    exact local_assignment hV target op value
  | .ifElse span test consequent alternate, _, h => by
    rw [Check.stmt]
    exact (local_expr test (sees_of_all hV _)).bind fun _ => (local_block hV consequent _).bind
      fun _ => local_stmt? hV alternate _ h
  | .whileLoop span test body, _, _ => by
    rw [Check.stmt]
    exact (local_expr test (sees_of_all hV _)).bind fun _ => local_block hV body _
  | .forLoop span init test update body, _, _ => by
    rw [Check.stmt]
    exact local_inScope (D := Set.univ) ((local_stmt? hV init _ fun _ _ => trivial).bind fun _ =>
      (local_expr? test (sees_of_all hV _)).bind fun _ =>
        (local_stmt? hV update _ fun _ _ => trivial).bind fun _ => local_block hV body _)
  | .forIn span name iterable body, _, _ => by
    rw [Check.stmt]
    exact (local_expr iterable (sees_of_all hV _)).bind fun type => local_inScope (D := Set.univ)
      ((local_define (Set.mem_univ _) _).bind fun _ => local_block hV body _)
  | .returnStmt span none, _, _ => by
    rw [Check.stmt]
    exact local_noteReturn _ _
  | .returnStmt span (some e), _, _ => by
    rw [Check.stmt]
    exact (local_expr e (sees_of_all hV _)).bind fun type => local_noteReturn type _
  | .breakStmt span, _, _ | .continueStmt span, _, _ | .error span message, _, _ => by
    rw [Check.stmt]
    exact local_pure ()
  | .tryStmt span b handler cleanup, _, _ | .asyncBlock span b handler cleanup, _, _ => by
    rw [Check.stmt]
    exact (local_block hV b _).bind fun _ => (local_handler? hV handler _).bind fun _ =>
      local_block? hV cleanup _
  | .throwStmt span value, _, _ => by
    rw [Check.stmt]
    exact (local_expr value (sees_of_all hV _)).bind fun _ => local_pure ()
  | .functionDecl span f, _, h => by
    rw [Check.stmt]
    exact (local_function hV f _ (h _ List.mem_cons_self)).bind fun _ => local_pure ()
  | .importDecl span item, _, h => by
    rw [Check.stmt]
    exact local_importNames h
  | .exportDecl span item, _, h => by
    rw [Check.stmt]
    exact local_exportDecl hV item _ h

theorem local_stmt? (hV : ∀ y, V.seen y) : ∀ (s : Option Stmt) (D : Set String),
    (∀ y ∈ Stmt.declared? s, y ∈ D) → Local V D (stmt? s)
  | none, _, _ => local_pure ()
  | some s, _, h => local_stmt hV s _ h

/-- Statements in a scope of their own may define what they like. -/
theorem local_stmts (hV : ∀ y, V.seen y) : ∀ ss : List Stmt, Local V Set.univ (stmts ss)
  | [] => local_pure ()
  | s :: rest => by
    rw [Check.stmts]
    exact (local_stmt hV s _ fun _ _ => trivial).bind fun _ => local_stmts hV rest

theorem local_block (hV : ∀ y, V.seen y) : ∀ (b : Block) (D : Set String), Local V D (block b)
  | ⟨statements, span⟩, _ => by
    rw [Check.block]
    exact local_inScope (local_stmts hV statements)

theorem local_block? (hV : ∀ y, V.seen y) : ∀ (b : Option Block) (D : Set String),
    Local V D (block? b)
  | none, _ => local_pure ()
  | some b, _ => local_block hV b _

theorem local_handler? (hV : ∀ y, V.seen y) : ∀ (handler : Option CatchClause) (D : Set String),
    Local V D (handler? handler)
  | none, _ => local_pure ()
  | some ⟨param, body⟩, _ => by
    rw [Check.handler?]
    exact local_inScope (D := Set.univ)
      ((local_importNames fun _ _ => trivial).bind fun _ => local_block hV body _)

theorem local_function (hV : ∀ y, V.seen y) : ∀ (f : Function) (D : Set String), f.name ∈ D →
    Local V D (function f)
  | ⟨name, params, returnType, ⟨statements, blockSpan⟩, isAsync, modifiers, span⟩, _, h => by
    rw [Check.function]
    exact local_functionType h (local_stmts hV statements)

theorem local_members (hV : ∀ y, V.seen y) : ∀ ss : List Stmt, Local V Set.univ (members ss)
  | [] => local_pure _
  | s :: rest => by
    have hrest := local_members hV rest
    have hs := local_stmt hV s Set.univ fun _ _ => trivial
    unfold Check.members
    split
    · exact hrest
    next span decl =>
      exact (local_variableDecl hV (Set.mem_univ _)).bind fun _ => hrest.bind fun _ => local_pure _
    next span node name value =>
      refine local_read_bind (fun c => c.scopes.definesHere name)
        (f := fun here => if here = true then _ else _)
        (fun c d hm hadmits => definesHere_of_matches hV hm hadmits name) fun here => ?_
      refine local_ite (hs.bind fun _ => hrest) ?_
      exact (local_expr value (sees_of_all hV _)).bind fun type =>
        (local_record node.id type).bind fun _ => (local_define (Set.mem_univ _) type).bind fun _ =>
          hrest.bind fun _ => local_pure _
    next => exact hs.bind fun _ => hrest

theorem local_methods (hV : ∀ y, V.seen y) : ∀ ss : List Stmt, Local V Set.univ (methods ss)
  | [] => local_pure _
  | s :: rest => by
    cases s with
    | functionDecl span f =>
        rw [Check.methods]
        exact (local_function hV f _ (Set.mem_univ _)).bind fun type =>
          (local_methods hV rest).bind fun _ => local_pure _
    | _ => exact local_methods hV rest

/-- A component defines nothing where it stands. -/
theorem local_component (hV : ∀ y, V.seen y) : ∀ (k : Component) (D : Set String),
    Local V D (component k)
  | ⟨name, modifiers, statements, body, span⟩, _ => by
    rw [Check.component]
    exact local_inScope ((local_declareMethods statements).bind fun _ =>
      (local_members hV statements).bind fun state => (local_methods hV statements).bind
        fun methods => (local_markups body (sees_of_all hV _)).bind fun _ =>
          local_summarize hV name state methods)

theorem local_exportDecl (hV : ∀ y, V.seen y) : ∀ (e : Export) (D : Set String),
    (∀ y ∈ e.declared, y ∈ D) → Local V D (exportDecl e)
  | ⟨isDefault, .function f, span⟩, _, h => by
    rw [Check.exportDecl]
    exact (local_function hV f _ (h _ List.mem_cons_self)).bind fun _ => local_pure ()
  | ⟨isDefault, .component k, span⟩, _, _ => by
    rw [Check.exportDecl]
    exact local_component hV k _
  | ⟨isDefault, .statement s, span⟩, _, h => by
    rw [Check.exportDecl]
    exact local_stmt hV s _ h

end

/-- A function is in sight with its type when it has been checked. -/
theorem lookup?_function (f : Function) (c : Checking) :
    ((function f).run c).2.scopes.lookup? f.name = some ((function f).run c).1 := by
  obtain ⟨name, params, returnType, ⟨statements, blockSpan⟩, isAsync, modifiers, span⟩ := f
  rw [Check.function]
  unfold functionType
  exact (Scopes.lookup?_define _ name name _).trans (if_pos rfl)

end Check

end ComponentLang
