import ComponentLang.Proofs.Typing.Relaxes
import ComponentLang.Proofs.Typing.Relaxes.Verdict
import ComponentLang.Typing.Scope

/-!
# What holds of types everywhere

`t.Everywhere P` says `P` of a type and of the types in it, at any depth. For a type of a given form
this is `P` of the type itself, and `Everywhere P` of the types directly in it. `Each P` says `P` of
the types of names, in a list of them or in scopes.
-/
namespace ComponentLang.Ty

/-- `P` holds of the type and of whatever stands in it. -/
def Everywhere (P : Ty → Prop) (t : Ty) : Prop := ∀ inner, Inside inner t → P inner

variable {P : Ty → Prop} {t : Ty}

theorem Everywhere.here (h : t.Everywhere P) : P t := h t .refl

theorem Everywhere.child (h : t.Everywhere P) {child : Ty} (hchild : child ∈ t.children) :
    child.Everywhere P :=
  fun inner hinner => h inner (hinner.of_child hchild)

theorem everywhere_iff :
    t.Everywhere P ↔ P t ∧ ∀ child ∈ t.children, child.Everywhere P := by
  constructor
  · intro h
    exact ⟨h.here, fun child hchild => h.child hchild⟩
  · rintro ⟨hhere, hchildren⟩ inner hinner
    obtain rfl | ⟨child, hchild, hinner⟩ := inside_iff.1 hinner
    · exact hhere
    · exact hchildren child hchild inner hinner

/-! ## The forms of types -/

theorem everywhere_iff_here (h : t.children = []) : t.Everywhere P ↔ P t := by
  rw [everywhere_iff, h]
  exact and_iff_left (List.forall_mem_nil _)

@[simp] theorem everywhere_primitive (p : Primitive) :
    Everywhere P (.primitive p) ↔ P (.primitive p) :=
  everywhere_iff_here rfl

@[simp] theorem everywhere_component (name : String) :
    Everywhere P (.component name) ↔ P (.component name) :=
  everywhere_iff_here rfl

@[simp] theorem everywhere_any : Everywhere P .any ↔ P .any := everywhere_iff_here rfl

@[simp] theorem everywhere_unknown : Everywhere P .unknown ↔ P .unknown := everywhere_iff_here rfl

@[simp] theorem everywhere_array (element : Ty) :
    Everywhere P (.array element) ↔ P (.array element) ∧ element.Everywhere P := by
  rw [everywhere_iff, children, List.forall_mem_singleton]

@[simp] theorem everywhere_optional (inner : Ty) :
    Everywhere P (.optional inner) ↔ P (.optional inner) ∧ inner.Everywhere P := by
  rw [everywhere_iff, children, List.forall_mem_singleton]

@[simp] theorem everywhere_union (members : List Ty) :
    Everywhere P (.union members) ↔ P (.union members) ∧ ∀ m ∈ members, m.Everywhere P := by
  rw [everywhere_iff, children]

@[simp] theorem everywhere_object (fields : List TypedName) :
    Everywhere P (.object fields) ↔ P (.object fields) ∧ ∀ n ∈ fields, n.type.Everywhere P := by
  rw [everywhere_iff, children, List.forall_mem_map]

@[simp] theorem everywhere_function (params : List Ty) (result : Ty) (isAsync : Bool) :
    Everywhere P (.function params result isAsync) ↔
      P (.function params result isAsync) ∧ (∀ p ∈ params, p.Everywhere P) ∧
        result.Everywhere P := by
  rw [everywhere_iff, children, List.forall_mem_append, List.forall_mem_singleton]

end ComponentLang.Ty

/-! ## What holds of the types in scopes

What holds of the types that scopes are given holds of every type that they say of a name. -/

namespace ComponentLang

variable {P : Ty → Prop} {name : String} {type : Ty}

namespace TypedName

variable {names : List TypedName}

/-- `P` holds of the types of the names. -/
def Each (P : Ty → Prop) (names : List TypedName) : Prop := ∀ n ∈ names, P n.type

theorem Each.lookup? (h : Each P names) (hlookup : lookup? name names = some type) : P type := by
  obtain ⟨n, hn, rfl⟩ := List.mem_map.1 (Ty.mem_of_lookup? hlookup)
  exact h n hn

theorem Each.put (h : Each P names) (htype : P type) : Each P (put name type names) := by
  fun_induction TypedName.put name type names with
  | case1 => exact List.forall_mem_singleton.2 htype
  | case2 t rest _ => exact List.forall_mem_cons.2 ⟨htype, (List.forall_mem_cons.1 h).2⟩
  | case3 t rest _ ih =>
      obtain ⟨ht, hrest⟩ := List.forall_mem_cons.1 h
      exact List.forall_mem_cons.2 ⟨ht, ih hrest⟩

end TypedName

namespace Scopes

variable {s : Scopes} {scopes later : List (List TypedName)}

/-- `P` holds of the types that the scopes say of names. -/
def Each (P : Ty → Prop) (s : Scopes) : Prop := ∀ names ∈ s.inner :: s.outer, TypedName.Each P names

theorem Each.push (h : s.Each P) : s.push.Each P := List.forall_mem_cons.2 ⟨nofun, h⟩

theorem Each.pop (h : s.Each P) : s.pop.Each P := by
  obtain ⟨inner, outer⟩ := s
  cases outer with
  | nil => exact h
  | cons first rest => exact (List.forall_mem_cons.1 h).2

theorem Each.define (h : s.Each P) (htype : P type) : (s.define name type).Each P := by
  obtain ⟨hinner, houter⟩ := List.forall_mem_cons.1 h
  exact List.forall_mem_cons.2 ⟨hinner.put htype, houter⟩

theorem Each.lookup? (h : s.Each P) (hlookup : s.lookup? name = some type) : P type := by
  obtain ⟨names, hnames, hfound⟩ := List.exists_of_findSome?_eq_some hlookup
  exact (h names hnames).lookup? hfound

theorem each_updateFirst? (h : ∀ names ∈ scopes, TypedName.Each P names) (htype : P type)
    (hupdated : updateFirst? name type scopes = some later) :
    ∀ names ∈ later, TypedName.Each P names := by
  induction scopes generalizing later with
  | nil => cases hupdated
  | cons first rest ih =>
      obtain ⟨hfirst, hrest⟩ := List.forall_mem_cons.1 h
      unfold updateFirst? at hupdated
      split at hupdated
      next =>
        cases hupdated
        exact List.forall_mem_cons.2 ⟨hfirst.put htype, hrest⟩
      next =>
        obtain ⟨changed, hchanged, rfl⟩ := Option.map_eq_some_iff.1 hupdated
        exact List.forall_mem_cons.2 ⟨hfirst, ih hrest hchanged⟩

theorem Each.update (h : s.Each P) (htype : P type) :
    ((s.update? name type).getD s).Each P := by
  obtain ⟨hinner, houter⟩ := List.forall_mem_cons.1 h
  unfold update?
  split
  · exact h.define htype
  · cases hupdated : updateFirst? name type s.outer with
    | none => exact h
    | some later => exact List.forall_mem_cons.2 ⟨hinner, each_updateFirst? houter htype hupdated⟩

theorem Each.defineAll {names : List TypedName} (h : s.Each P) (hnames : TypedName.Each P names) :
    (names.foldl (fun s n => s.define n.name n.type) s).Each P := by
  induction names generalizing s with
  | nil => exact h
  | cons first rest ih =>
      obtain ⟨hfirst, hrest⟩ := List.forall_mem_cons.1 hnames
      exact ih (h.define hfirst) hrest

end Scopes

end ComponentLang
