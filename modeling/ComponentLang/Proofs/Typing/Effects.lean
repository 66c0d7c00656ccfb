import ComponentLang.Proofs.Tree.Walk
import ComponentLang.Proofs.Typing.Fault
import ComponentLang.Typing.Program
import Mathlib.Data.Set.Insert
import Mathlib.Data.Set.Lattice

/-!
# What checking leaves behind

Checking notes types and reports faults, and takes neither back. `Leaves ids p` says that `p` notes
types under the numbers `ids` and under no others, and that what it reports is reported once and
spares the values that are wrong already. The rules for the ways of making a check come first, then
the checks themselves; a tree is followed along its recursion, and the numbers are those that a walk
of it comes to.
-/
namespace ComponentLang

/-- The numbers under which a type is noted. -/
def TypeTable.numbers (table : TypeTable) : Set Nat := {id | (table.get? id).isSome}

theorem TypeTable.numbers_empty : TypeTable.empty.numbers = ∅ := by
  ext id
  simp [numbers, get?, empty]

/-- A diagnostic about a fault that spares what is wrong already. -/
def Raised (d : Diagnostic) : Prop :=
  ∃ (fault : TypeFault) (span : Span), d = .ofSpan .type fault.message span ∧ fault.Spares

namespace Checking

/-- Types are noted under `ids` between two states, faults may be reported, and components may be
summarized. -/
structure Grows (ids : Set Nat) (c d : Checking) : Prop where
  noted : ∃ added : List (Nat × Ty), d.types.entries = added ++ c.types.entries ∧
    ∀ id, (added.lookup id).isSome ↔ id ∈ ids
  reported : ∃ found, d.diagnostics = found ++ c.diagnostics ∧ ∀ x ∈ found, Raised x
  once : c.diagnostics.Nodup → d.diagnostics.Nodup
  made : c.summaries <+: d.summaries

variable {ids others : Set Nat} {c d e : Checking}

/-- Nothing is noted or reported if neither the table nor the diagnostics change. -/
theorem grows_of_eq (htypes : d.types = c.types) (hdiagnostics : d.diagnostics = c.diagnostics)
    (hmade : c.summaries <+: d.summaries) : Grows ∅ c d where
  noted := ⟨[], by rw [htypes, List.nil_append], by simp⟩
  reported := ⟨[], hdiagnostics, List.forall_mem_nil _⟩
  once := by
    rw [hdiagnostics]
    exact id
  made := hmade

theorem Grows.trans (hcd : Grows ids c d) (hde : Grows others d e) :
    Grows (ids ∪ others) c e where
  noted := by
    obtain ⟨added, hadded, hids⟩ := hcd.noted
    obtain ⟨later, hlater, hothers⟩ := hde.noted
    refine ⟨later ++ added, by rw [hlater, hadded, List.append_assoc], fun id => ?_⟩
    rw [List.lookup_append, Option.isSome_or, Bool.or_eq_true, hids, hothers, Set.mem_union,
      or_comm]
  reported := by
    obtain ⟨found, hfound, hraised⟩ := hcd.reported
    obtain ⟨later, hlater, hraised'⟩ := hde.reported
    refine ⟨later ++ found, by rw [hlater, hfound, List.append_assoc], ?_⟩
    intro x hx
    exact (List.mem_append.1 hx).elim (hraised' x) (hraised x)
  once h := hde.once (hcd.once h)
  made := hcd.made.trans hde.made

theorem Grows.kept (h : Grows ids c d) : c.types.entries ⊆ d.types.entries := by
  obtain ⟨added, hadded, -⟩ := h.noted
  rw [hadded]
  exact List.subset_append_right added _

theorem Grows.numbers (h : Grows ids c d) : d.types.numbers = c.types.numbers ∪ ids := by
  obtain ⟨added, hadded, hids⟩ := h.noted
  ext id
  change (d.types.entries.lookup id).isSome ↔ (c.types.entries.lookup id).isSome ∨ id ∈ ids
  rw [hadded, List.lookup_append, Option.isSome_or, Bool.or_eq_true, hids, or_comm]

/-- What is noted under another number stays. -/
theorem Grows.get?_of_notMem (h : Grows ids c d) {id : Nat} (hid : id ∉ ids) :
    d.types.get? id = c.types.get? id := by
  obtain ⟨added, hadded, hids⟩ := h.noted
  have hnone : added.lookup id = none := by
    rw [← Option.not_isSome_iff_eq_none, hids]
    exact hid
  unfold TypeTable.get?
  rw [hadded, List.lookup_append, hnone]
  rfl

theorem Grows.diagnostics_subset (h : Grows ids c d) : c.diagnostics ⊆ d.diagnostics := by
  obtain ⟨found, hfound, -⟩ := h.reported
  rw [hfound]
  exact List.subset_append_right found _

/-- A report changes nothing but the diagnostics. -/
theorem addDiagnostic_eq (c : Checking) (x : Diagnostic) :
    c.addDiagnostic x = { c with diagnostics := (c.addDiagnostic x).diagnostics } := by
  unfold addDiagnostic
  split <;> rfl

theorem mem_addDiagnostic {x y : Diagnostic} :
    y ∈ (c.addDiagnostic x).diagnostics ↔ y ∈ c.diagnostics ∨ y = x := by
  unfold addDiagnostic
  split
  next hmem =>
    constructor
    · exact .inl
    · rintro (h | rfl)
      · exact h
      · exact hmem
  next => rw [List.mem_cons, or_comm]

theorem grows_addDiagnostic {x : Diagnostic} (hx : Raised x) : Grows ∅ c (c.addDiagnostic x) := by
  unfold addDiagnostic
  split
  · exact grows_of_eq rfl rfl (List.prefix_refl _)
  next hnew =>
    exact {
      noted := ⟨[], rfl, by simp⟩
      made := List.prefix_refl _
      reported := ⟨[x], rfl, List.forall_mem_singleton.2 hx⟩
      once := fun h => List.nodup_cons.2 ⟨hnew, h⟩ }

end Checking

open Checking

namespace Check

variable {α β : Type} {ids others : Set Nat} {p : Check α} {f : α → Check β}

/-! ## Checks made from checks -/

/-- Whatever the state, `p` notes types under `ids` and reports faults. -/
def Leaves (ids : Set Nat) (p : Check α) : Prop := ∀ c, Grows ids c (p.run c).2

/-- `p` notes no type. -/
abbrev LeavesNothing (p : Check α) : Prop := Leaves ∅ p

theorem Leaves.of_eq (h : Leaves ids p) (heq : ids = others) : Leaves others p := heq ▸ h

theorem Leaves.diagnostics_subset (h : Leaves ids p) (c : Checking) :
    c.diagnostics ⊆ (p.run c).2.diagnostics :=
  (h c).diagnostics_subset

theorem leaves_pure (a : α) : LeavesNothing (pure a : Check α) :=
  fun _ => grows_of_eq rfl rfl (List.prefix_refl _)

theorem Leaves.bind (hp : Leaves ids p) (hf : ∀ a, Leaves others (f a)) :
    Leaves (ids ∪ others) (p >>= f) :=
  fun c => (hp c).trans (hf (p.run c).1 (p.run c).2)

/-- What notes nothing comes first. -/
theorem leaves_then (hp : LeavesNothing p) (hf : ∀ a, Leaves ids (f a)) : Leaves ids (p >>= f) :=
  (hp.bind hf).of_eq (Set.empty_union ids)

/-- What notes nothing comes last. -/
theorem Leaves.before (hp : Leaves ids p) (hf : ∀ a, LeavesNothing (f a)) :
    Leaves ids (p >>= f) :=
  (hp.bind hf).of_eq (Set.union_empty ids)

theorem leaves_get_bind {f : Checking → Check α} (h : ∀ c, Leaves ids (f c)) :
    Leaves ids (get >>= f) :=
  fun c => h c c

theorem leaves_map {g : α → β} (h : Leaves ids p) : Leaves ids (g <$> p) := h

/-- A change to nothing that is found comes first. -/
theorem leaves_modify_bind {change : Checking → Checking} {f : PUnit → Check α}
    (hf : Leaves ids (f ⟨⟩))
    (hchange : ∀ c, (change c).types = c.types ∧ (change c).diagnostics = c.diagnostics ∧
      (change c).summaries = c.summaries) :
    Leaves ids (modify change >>= f) := by
  intro c
  obtain ⟨htypes, hdiagnostics, hsummaries⟩ := hchange c
  have hgrows := (grows_of_eq htypes hdiagnostics (hsummaries ▸ List.prefix_refl _)).trans
    (hf (change c))
  rwa [Set.empty_union] at hgrows

theorem leaves_inScope (h : Leaves ids p) : Leaves ids (inScope p) := by
  unfold inScope
  refine leaves_modify_bind (h.before ?_) fun _ => ⟨rfl, rfl, rfl⟩
  intro result
  exact leaves_modify_bind (leaves_pure result) fun _ => ⟨rfl, rfl, rfl⟩

theorem leaves_each {check : α → Check Unit} {numbers : α → Set Nat}
    (h : ∀ a, Leaves (numbers a) (check a)) (items : List α) :
    Leaves (⋃ a ∈ items, numbers a) (each check items) := by
  induction items with
  | nil => exact (leaves_pure ()).of_eq (by simp)
  | cons a rest ih => exact ((h a).bind fun _ => ih).of_eq (by simp)

/-! ## Reports and notes -/

theorem leaves_report {fault : TypeFault} {span : Span} (h : fault.Spares) :
    LeavesNothing (report fault span) :=
  fun _ => grows_addDiagnostic ⟨fault, span, rfl, h⟩

theorem leaves_settle {verdict : Verdict} {span : Span} (h : verdict.Spares) :
    LeavesNothing (settle verdict span) := by
  unfold settle
  cases hfault : verdict.fault with
  | none => exact leaves_pure _
  | some fault => exact leaves_then (leaves_report (h fault hfault)) fun _ => leaves_pure _

theorem leaves_reportAll {found : List (TypeFault × Span)} (h : ∀ f ∈ found, f.1.Spares) :
    LeavesNothing (reportAll found) := by
  induction found with
  | nil => exact leaves_pure ()
  | cons first rest ih =>
      obtain ⟨fault, span⟩ := first
      rw [List.forall_mem_cons] at h
      exact leaves_then (leaves_report h.1) fun _ => ih h.2

theorem leaves_expectStorable {value target : Ty} {span : Span} :
    LeavesNothing (expectStorable value target span) := by
  unfold expectStorable
  split
  next fault hfault => exact leaves_report (Ty.spares_storeFault? hfault)
  next => exact leaves_pure ()

theorem leaves_record (id : Nat) (type : Ty) : Leaves {id} (record id type) := fun c =>
  { noted := ⟨[(id, type)], rfl, fun other => by
      rw [List.lookup_cons]
      by_cases h : other = id
      · simp [h]
      · have hdiffers : (other == id) = false := beq_false_of_ne h
        simp [hdiffers, h]⟩
    made := List.prefix_refl _
    reported := ⟨[], rfl, List.forall_mem_nil _⟩
    once := fun h => h }

/-- The type of an expression is noted last. -/
theorem leaves_noted (id : Nat) (type : Ty) :
    Leaves {id} (do
      record id type
      return type) :=
  (leaves_record id type).before fun _ => leaves_pure type

/-! ## Names -/

theorem leaves_lookup? (name : String) : LeavesNothing (lookup? name) :=
  leaves_get_bind fun _ => leaves_pure _

theorem leaves_isComponent (name : String) : LeavesNothing (isComponent name) :=
  leaves_get_bind fun _ => leaves_pure _

theorem leaves_define (name : String) (type : Ty) : LeavesNothing (define name type) :=
  fun _ => grows_of_eq rfl rfl (List.prefix_refl _)

theorem leaves_update (name : String) (type : Ty) : LeavesNothing (update name type) :=
  fun _ => grows_of_eq rfl rfl (List.prefix_refl _)

theorem variableType_of_some {name : String} {c : Checking} {type : Ty}
    (h : c.scopes.lookup? name = some type) (span : Span) :
    (variableType name span).run c = (type, c) := by
  simp only [variableType, lookup?, StateT.run_bind, StateT.run_get, pure_bind, StateT.run_pure, h]
  rfl

theorem variableType_of_none {name : String} {c : Checking} (h : c.scopes.lookup? name = none)
    (span : Span) : (variableType name span).run c =
      (settle (.fail (.undefinedVariable name)) span).run c := by
  simp [variableType, lookup?, h]

theorem leaves_variableType (name : String) (span : Span) :
    LeavesNothing (variableType name span) := by
  unfold variableType
  apply leaves_then (leaves_lookup? name)
  intro found
  split
  · exact leaves_pure _
  · exact leaves_settle (Ty.spares_fail fun _ h => nomatch h)

theorem leaves_declareComponent (name : String) : LeavesNothing (declareComponent name) := by
  unfold declareComponent
  exact leaves_modify_bind (leaves_define name _) fun _ => ⟨rfl, rfl, rfl⟩

/-! ## Returns -/

/-- Report what is returned if it is not what the function says. -/
def judgeReturn (declared : Option Ty) (type : Ty) (span : Span) : Check Unit :=
  match declared with
  | none => pure ()
  | some declared =>
    if type = .unknown || type.assignable declared then pure ()
    else report (.notReturnable type declared) span

theorem leaves_judgeReturn (declared : Option Ty) (type : Ty) (span : Span) :
    LeavesNothing (judgeReturn declared type span) := by
  unfold judgeReturn
  split
  · exact leaves_pure ()
  · split
    · exact leaves_pure ()
    next hfits =>
      rw [Bool.or_eq_true, not_or, decide_eq_true_iff] at hfits
      exact leaves_report (by simpa [TypeFault.Spares, TypeFault.values] using hfits.1)

theorem noteReturn_of_nil {c : Checking} (h : c.returns = []) (type : Ty) (span : Span) :
    (noteReturn type span).run c = ((), c) := by
  obtain ⟨scopes, external, components, returns, diagnostics, types, summaries⟩ := c
  cases h
  rfl

theorem noteReturn_of_cons {frame : ReturnFrame} {outer : List ReturnFrame} {c : Checking}
    (h : c.returns = frame :: outer) (type : Ty) (span : Span) :
    (noteReturn type span).run c = (judgeReturn frame.declared type span).run
      { c with returns := { frame with seen := frame.seen ++ [type] } :: outer } := by
  obtain ⟨scopes, external, components, returns, diagnostics, types, summaries⟩ := c
  cases h
  rfl

theorem leaves_noteReturn (type : Ty) (span : Span) : LeavesNothing (noteReturn type span) := by
  intro c
  cases h : c.returns with
  | nil =>
      rw [noteReturn_of_nil h]
      exact grows_of_eq rfl rfl (List.prefix_refl _)
  | cons frame outer =>
      rw [noteReturn_of_cons h]
      have hgrows := (grows_of_eq (c := c) (d := { c with
        returns := { frame with seen := frame.seen ++ [type] } :: outer }) rfl rfl
          (List.prefix_refl _)).trans (leaves_judgeReturn frame.declared type span _)
      rwa [Set.empty_union] at hgrows

theorem leaves_collectReturns {declared : Option Ty} {body : Check Unit} (h : Leaves ids body) :
    Leaves ids (collectReturns declared body) := by
  unfold collectReturns
  refine leaves_modify_bind (h.before ?_) fun _ => ⟨rfl, rfl, rfl⟩
  intro _ c
  exact grows_of_eq rfl rfl (List.prefix_refl _)

/-! ## Type expressions -/

theorem leaves_namedType (name : String) (span : Span) : LeavesNothing (namedType name span) := by
  unfold namedType
  split
  · exact leaves_pure _
  · apply leaves_then (leaves_isComponent name)
    intro known
    split
    · exact leaves_pure _
    · exact leaves_settle (Ty.spares_fail fun _ h => nomatch h)

mutual

theorem leaves_resolve : ∀ a : TypeExpr, LeavesNothing (resolve a)
  | .named span name => leaves_namedType name span
  | .array _ element => leaves_then (leaves_resolve element) fun _ => leaves_pure _
  | .optional _ inner => leaves_then (leaves_resolve inner) fun _ => leaves_pure _
  | .union _ members => leaves_then (leaves_resolveAll members) fun _ => leaves_pure _

theorem leaves_resolveAll : ∀ as : List TypeExpr, LeavesNothing (resolveAll as)
  | [] => leaves_pure _
  | a :: rest =>
    leaves_then (leaves_resolve a) fun _ =>
      leaves_then (leaves_resolveAll rest) fun _ => leaves_pure _

end

theorem leaves_resolve? (a : Option TypeExpr) : LeavesNothing (resolve? a) := by
  cases a with
  | none => exact leaves_pure _
  | some a => exact leaves_then (leaves_resolve a) fun _ => leaves_pure _

end Check

/-! ## Numbers of trees -/

/-- The numbers of the expressions among some parts. -/
def TreePart.numbers (parts : List TreePart) : Set Nat := {id | id ∈ parts.filterMap number?}

namespace TreePart

@[simp] theorem numbers_nil : numbers [] = ∅ := by
  simp [numbers]

@[simp] theorem numbers_expr (e : Expr) (parts : List TreePart) :
    numbers (.expr e :: parts) = {e.id} ∪ numbers parts := by
  ext id
  simp [numbers, number?]

theorem numbers_cons {part : TreePart} (parts : List TreePart) (h : part.number? = none) :
    numbers (part :: parts) = numbers parts := by
  simp [numbers, h]

@[simp] theorem numbers_append (parts others : List TreePart) :
    numbers (parts ++ others) = numbers parts ∪ numbers others := by
  ext id
  simp [numbers]

theorem numbers_identifier (node : Node) (name : String) :
    numbers (Walk.expr Walk.everywhere (.identifier node name)) = {node.id} := by
  change numbers [.expr (.identifier node name), .identifier node name] = {node.id}
  rw [numbers_expr, numbers_cons _ rfl, numbers_nil, Set.union_empty]
  rfl

theorem numbers_flatMap {α : Type} (items : List α) (inside : α → List TreePart) :
    numbers (items.flatMap inside) = ⋃ a ∈ items, numbers (inside a) := by
  induction items with
  | nil => simp
  | cons a rest ih => simp [ih]

end TreePart

end ComponentLang

/-! ## What checking an expression leaves behind

The type of every expression in it, in tags and computed keys too. -/

namespace ComponentLang.Check

open Walk TreePart

theorem leaves_externalType (name : String) : LeavesNothing (externalType name) :=
  leaves_get_bind fun _ => leaves_pure _

theorem leaves_noteTag (name : String) (looksLikeComponent : Bool) (span : Span) :
    LeavesNothing (noteTag name looksLikeComponent span) := by
  unfold noteTag
  apply leaves_then (leaves_isComponent name)
  intro isKnown
  apply leaves_then (leaves_lookup? name)
  intro found
  dsimp only
  split
  · exact leaves_report fun _ h => nomatch h
  · exact leaves_pure ()

theorem leaves_tagType (t : Tag) : LeavesNothing (tagType t) := by
  unfold tagType
  apply leaves_then (leaves_isComponent t.name)
  intro isKnown
  split
  · exact leaves_pure _
  · exact leaves_pure _

mutual

theorem leaves_expr : ∀ e : Expr, Leaves (numbers (Walk.expr everywhere e)) (expr e)
  | .literal node value => by
    rw [Check.expr]
    refine (leaves_then (leaves_pure _) (leaves_noted _)).of_eq ?_
    simp [Walk.expr, enter]
  | .identifier node name => by
    rw [Check.expr]
    exact (leaves_then (leaves_variableType name _) (leaves_noted _)).of_eq
      (numbers_identifier node name).symm
  | .valueBinding node name => by
    rw [Check.expr]
    refine (leaves_then (leaves_externalType name) (leaves_noted _)).of_eq ?_
    simp only [Walk.expr, enter, if_true, numbers_expr]
    rw [numbers_cons _ rfl, numbers_nil, Set.union_empty]
  | .binary node left op right => by
    rw [Check.expr]
    refine ((leaves_expr left).bind fun l => (leaves_expr right).bind fun r =>
      leaves_then (leaves_settle Ty.spares_ofBinary) (leaves_noted _)).of_eq ?_
    simp only [Walk.expr, enter, if_true, numbers_expr, numbers_append]
    ac_rfl
  | .unary node op operand => by
    rw [Check.expr]
    refine ((leaves_expr operand).bind fun t =>
      leaves_then (leaves_settle (Ty.spares_ofUnary op t)) (leaves_noted _)).of_eq ?_
    simp only [Walk.expr, enter, if_true, numbers_expr]
    ac_rfl
  | .await node operand => by
    rw [Check.expr]
    refine ((leaves_expr operand).bind (leaves_noted _)).of_eq ?_
    simp only [Walk.expr, enter, if_true, numbers_expr]
    ac_rfl
  | .call node callee arguments => by
    rw [Check.expr]
    refine ((leaves_expr callee).bind fun t => (leaves_exprs arguments).bind fun types =>
      leaves_then (leaves_reportAll (Ty.spares_ofCall t _ _)) fun _ =>
        leaves_then (leaves_pure _) (leaves_noted _)).of_eq ?_
    simp only [Walk.expr, enter, if_true, numbers_expr, numbers_append]
    ac_rfl
  | .member node object property => by
    rw [Check.expr]
    refine ((leaves_expr object).bind fun t =>
      leaves_then (leaves_settle (Ty.spares_ofMember property t)) (leaves_noted _)).of_eq ?_
    simp only [Walk.expr, enter, if_true, numbers_expr]
    ac_rfl
  | .index node object index => by
    rw [Check.expr]
    refine ((leaves_expr object).bind fun t => (leaves_expr index).bind fun i =>
      leaves_then (leaves_settle (Ty.spares_ofIndex t i)) (leaves_noted _)).of_eq ?_
    simp only [Walk.expr, enter, if_true, numbers_expr, numbers_append]
    ac_rfl
  | .array node items => by
    rw [Check.expr]
    refine ((leaves_exprs items).bind fun types =>
      leaves_then (leaves_pure _) (leaves_noted _)).of_eq ?_
    simp only [Walk.expr, enter, if_true, numbers_expr]
    ac_rfl
  | .object node properties => by
    rw [Check.expr]
    refine ((leaves_propertyList [] properties).bind fun fields =>
      leaves_then (leaves_pure _) (leaves_noted _)).of_eq ?_
    simp only [Walk.expr, enter, if_true, numbers_expr]
    ac_rfl
  | .conditional node test consequent alternate => by
    rw [Check.expr]
    refine ((leaves_expr test).bind fun _ => (leaves_expr consequent).bind fun a =>
      (leaves_expr alternate).bind fun b =>
        leaves_then (leaves_pure _) (leaves_noted _)).of_eq ?_
    simp only [Walk.expr, enter, if_true, numbers_expr, numbers_append]
    ac_rfl
  | .tag node t => by
    rw [Check.expr]
    refine ((leaves_tag t).bind fun _ =>
      leaves_then (leaves_tagType t) (leaves_noted _)).of_eq ?_
    simp only [Walk.expr, enter, if_true, numbers_expr]
    ac_rfl

theorem leaves_exprs : ∀ es : List Expr, Leaves (numbers (Walk.exprs everywhere es)) (exprs es)
  | [] => (leaves_pure _).of_eq numbers_nil.symm
  | e :: rest => by
    rw [Check.exprs]
    refine ((leaves_expr e).bind fun type => (leaves_exprs rest).before fun types =>
      leaves_pure _).of_eq ?_
    rw [Walk.exprs, numbers_append]

theorem leaves_propertyList (fields : List TypedName) : ∀ ps : List Property,
    Leaves (numbers (Walk.propertyList everywhere ps)) (propertyList fields ps)
  | [] => (leaves_pure _).of_eq numbers_nil.symm
  | .named key value :: rest => by
    rw [Check.propertyList]
    refine ((leaves_expr value).bind fun type => leaves_propertyList _ rest).of_eq ?_
    rw [Walk.propertyList, numbers_append]
  | .computed key value :: rest => by
    rw [Check.propertyList]
    refine ((leaves_expr value).bind fun _ => (leaves_expr key).bind fun _ =>
      leaves_propertyList _ rest).of_eq ?_
    rw [Walk.propertyList, numbers_append, numbers_append]
    ac_rfl

theorem leaves_tag : ∀ t : Tag, Leaves (numbers (Walk.tag everywhere t)) (tag t)
  | ⟨name, attributes, styles, children, selfClosing, span⟩ => by
    rw [Check.tag]
    refine (leaves_then (leaves_noteTag _ _ _) fun _ => (leaves_attributeList attributes).bind
      fun _ => leaves_markups children).of_eq ?_
    simp only [Walk.tag, enter, if_true]
    rw [numbers_cons _ rfl, numbers_append]

theorem leaves_attributeList : ∀ as : List Attribute,
    Leaves (numbers (Walk.attributeList everywhere as)) (attributeList as)
  | [] => (leaves_pure _).of_eq numbers_nil.symm
  | ⟨name, some value, event, span⟩ :: rest => by
    rw [Check.attributeList]
    refine ((leaves_expr value).bind fun _ => leaves_attributeList rest).of_eq ?_
    simp only [Walk.attributeList, enter, if_true]
    rw [List.cons_append, numbers_cons _ rfl, numbers_append]
  | ⟨name, none, event, span⟩ :: rest => by
    rw [Check.attributeList]
    exact (leaves_attributeList rest).of_eq (numbers_cons _ rfl).symm

theorem leaves_markup : ∀ m : Markup, Leaves (numbers (Walk.markup everywhere m)) (markup m)
  | .tag t => by
    rw [Check.markup]
    exact (leaves_tag t).of_eq (numbers_cons _ rfl).symm
  | .text content span => by
    rw [Check.markup]
    refine (leaves_pure ()).of_eq ?_
    simp only [Walk.markup, enter, if_true]
    rw [numbers_cons _ rfl, numbers_cons _ rfl, numbers_nil]
  | .expr e => by
    rw [Check.markup]
    exact ((leaves_expr e).before fun _ => leaves_pure ()).of_eq (numbers_cons _ rfl).symm

theorem leaves_markups : ∀ ms : List Markup,
    Leaves (numbers (Walk.markups everywhere ms)) (markups ms)
  | [] => (leaves_pure _).of_eq numbers_nil.symm
  | m :: rest => by
    rw [Check.markups]
    refine ((leaves_markup m).bind fun _ => leaves_markups rest).of_eq ?_
    rw [Walk.markups, numbers_append]

end

theorem leaves_expr? (e : Option Expr) : Leaves (numbers (Walk.expr? everywhere e)) (expr? e) := by
  cases e with
  | none => exact (leaves_pure ()).of_eq numbers_nil.symm
  | some e => exact (leaves_expr e).before fun _ => leaves_pure ()

end ComponentLang.Check
