import ComponentLang.Proofs.Typing.Everywhere
import ComponentLang.Proofs.Typing.Relaxes.Tree
import ComponentLang.Typing.Prelude

/-!
# Families of types

A family of types has names that may stand in its types. With a type it has those in it, and it has
what checking makes of its types and names. So the type of an operation on types of a family is in
the family, and what is wrong with the operation is told with names and types of the family.
-/
namespace ComponentLang

/-- Types that what is made of types does not leave. -/
structure Ty.Family where
  /-- The names that may stand in the types. -/
  Named : String → Prop
  /-- The types of the family. -/
  Has : Ty → Prop
  child : ∀ {t child : Ty}, Has t → child ∈ t.children → Has child
  primitive : ∀ p : Primitive, Has (.primitive p)
  any : Has .any
  unknown : Has .unknown
  component : ∀ {name : String}, Named name → Has (.component name)
  array : ∀ {element : Ty}, Has element → Has (.array element)
  optional : ∀ {inner : Ty}, Has inner → Has (.optional inner)
  function : ∀ {params : List Ty} {result : Ty} (isAsync : Bool), (∀ p ∈ params, Has p) →
    Has result → Has (.function params result isAsync)
  unionOf : ∀ {types : List Ty}, (∀ t ∈ types, Has t) → Has (Ty.unionOf types)
  object : ∀ {fields : List TypedName}, (fields.map TypedName.name).Nodup →
    (∀ n ∈ fields, Named n.name ∧ Has n.type) → Has (.object fields)

variable {F : Ty.Family}

/-! ## Fields -/

/-- Fields that an object of the family may have: no name comes twice. -/
structure TypedName.Fields (F : Ty.Family) (fields : List TypedName) : Prop where
  nodup : (fields.map TypedName.name).Nodup
  each : ∀ n ∈ fields, F.Named n.name ∧ F.Has n.type

namespace TypedName

variable {fields : List TypedName} {key : String} {type : Ty}

theorem fields_nil : Fields F [] := ⟨List.nodup_nil, List.forall_mem_nil _⟩

/-- A name that comes again takes the place of the first. -/
theorem Fields.put (h : Fields F fields) (hkey : F.Named key) (htype : F.Has type) :
    Fields F (put key type fields) where
  nodup := nodup_put key type h.nodup
  each := by
    have heach := h.each
    clear h
    fun_induction TypedName.put key type fields with
    | case1 => exact List.forall_mem_singleton.2 ⟨hkey, htype⟩
    | case2 t rest _ =>
        exact List.forall_mem_cons.2 ⟨⟨hkey, htype⟩, (List.forall_mem_cons.1 heach).2⟩
    | case3 t rest _ ih =>
        obtain ⟨ht, hrest⟩ := List.forall_mem_cons.1 heach
        exact List.forall_mem_cons.2 ⟨ht, ih hrest⟩

end TypedName

/-- The names of the fields of what every program may use. -/
def Prelude.fieldNames : List String := ["log", "sqrt", "pow", "floor", "abs"]

theorem Ty.Family.each_install (F : Ty.Family) (h : ∀ name ∈ Prelude.fieldNames, F.Named name) :
    (Prelude.install .initial).Each F.Has := by
  have hfunction {params : List Ty} {result : Ty} (hparams : ∀ p ∈ params, F.Has p)
      (hresult : F.Has result) : F.Has (Prelude.function params result) :=
    F.function false hparams hresult
  have hfloat : F.Has .float := F.primitive _
  have hreal : F.Has (Prelude.function [.float] .float) :=
    hfunction (List.forall_mem_singleton.2 hfloat) hfloat
  simp only [Prelude.fieldNames, List.forall_mem_cons] at h
  obtain ⟨hlog, hsqrt, hpow, hfloor, habs, -⟩ := h
  refine Scopes.Each.defineAll (List.forall_mem_singleton.2 nofun) ?_
  simp only [TypedName.Each, Prelude.names, List.forall_mem_cons]
  refine ⟨F.object (by decide) (List.forall_mem_singleton.2 ⟨hlog, ?_⟩), F.object (by decide) ?_,
    nofun⟩
  · exact hfunction (List.forall_mem_singleton.2 F.any) (F.primitive _)
  · simp only [List.forall_mem_cons]
    refine ⟨⟨hsqrt, hreal⟩, ⟨hpow, ?_⟩, ⟨hfloor, ?_⟩, ⟨habs, hreal⟩, nofun⟩
    · exact hfunction (List.forall_mem_cons.2 ⟨hfloat, List.forall_mem_singleton.2 hfloat⟩) hfloat
    · exact hfunction (List.forall_mem_singleton.2 hfloat) (F.primitive _)

/-! ## Faults -/

namespace TypeFault

/-- The names in a fault, apart from those in its types. -/
def names : TypeFault → List String
  | .undefinedVariable name | .unknownType name | .unknownComponent name => [name]
  | .noField name _ | .noArrayProperty name | .noStringProperty name | .notAnObject name _ => [name]
  | _ => []

/-- The types in a fault. -/
def types : TypeFault → List Ty
  | .notAssignable value target => [value, target]
  | .notReturnable value declared => [value, declared]
  | .notNumeric _ operand => [operand]
  | .notComparable left right | .notOperable _ left right => [left, right]
  | .argumentType _ expected found => [expected, found]
  | .notCallable t | .noField _ t | .notAnObject _ t | .notIndexable t | .indexNotNumeric t => [t]
  | .undefinedVariable _ | .unknownType _ | .unknownComponent _ | .argumentCount .. => []
  | .noArrayProperty _ | .noStringProperty _ => []

/-- The fault is told with names and types of the family. -/
structure In (F : Ty.Family) (fault : TypeFault) : Prop where
  names : ∀ name ∈ fault.names, F.Named name
  types : ∀ t ∈ fault.types, F.Has t

variable {fault : TypeFault} {name : String} {t u : Ty}

/-- A fault that names something and shows no type. -/
theorem in_of_name (hnames : fault.names = [name]) (htypes : fault.types = [])
    (h : F.Named name) : fault.In F :=
  ⟨by simpa [hnames] using h, by simp [htypes]⟩

/-- A fault that shows a type and names nothing. -/
theorem in_of_type (hnames : fault.names = []) (htypes : fault.types = [t]) (h : F.Has t) :
    fault.In F :=
  ⟨by simp [hnames], by simpa [htypes] using h⟩

theorem in_of_types (hnames : fault.names = []) (htypes : fault.types = [t, u])
    (ht : F.Has t) (hu : F.Has u) : fault.In F :=
  ⟨by simp [hnames], by simp [htypes, ht, hu]⟩

end TypeFault

/-- The type is in the family, and what is wrong is told with names and types of the family. -/
structure Verdict.In (F : Ty.Family) (v : Verdict) : Prop where
  type : F.Has v.type
  fault : ∀ fault ∈ v.fault, fault.In F

namespace Verdict

variable {type : Ty} {fault : TypeFault}

theorem in_ok (h : F.Has type) : (Verdict.ok type).In F := ⟨h, nofun⟩

theorem in_mk (h : F.Has type) (hfault : fault.In F) : Verdict.In F ⟨type, some fault⟩ :=
  ⟨h, by simpa using hfault⟩

theorem in_fail (h : fault.In F) : (Verdict.fail fault).In F := in_mk F.unknown h

end Verdict

/-! ## Operations -/

namespace Ty.Family

open Verdict TypeFault

variable (F) {t left right object index : Ty}

theorem ofLiteral (value : Literal) : F.Has (Ty.ofLiteral value) := by
  unfold Ty.ofLiteral
  split <;> exact F.primitive _

theorem ofUnary (op : UnaryOp) (h : F.Has t) : (Ty.ofUnary op t).In F := by
  unfold Ty.ofUnary
  split
  · exact in_ok (F.primitive _)
  all_goals
    split
    · exact in_ok h
    · exact in_fail (in_of_type rfl rfl h)

section Binary

variable (hleft : F.Has left) (hright : F.Has right)

include hleft hright

theorem ofComparison : (Ty.ofComparison left right).In F := by
  unfold Ty.ofComparison
  split_ifs
  · exact in_ok (F.primitive _)
  · exact in_ok (F.primitive _)
  · exact in_mk (F.primitive _) (in_of_types rfl rfl hleft hright)

theorem ofArithmetic (op : BinaryOp) : (Ty.ofArithmetic op left right).In F := by
  unfold Ty.ofArithmetic
  split_ifs
  · exact in_ok F.unknown
  · exact in_ok (F.primitive _)
  · exact in_ok F.any
  · exact in_ok (F.primitive _)
  · exact in_ok (F.primitive _)
  · exact in_fail (in_of_types rfl rfl hleft hright)

theorem ofBinary (op : BinaryOp) : (Ty.ofBinary op left right).In F := by
  unfold Ty.ofBinary
  split_ifs
  · exact in_ok (F.primitive _)
  · exact F.ofComparison hleft hright
  · exact F.ofArithmetic hleft hright op

end Binary

theorem ofMember {property : String} (hproperty : F.Named property) (h : F.Has object) :
    (Ty.ofMember property object).In F := by
  fun_induction Ty.ofMember property object with
  | case1 | case2 => exact in_ok F.any
  | case3 => exact in_ok F.unknown
  | case4 inner ih => exact ih (F.child h (List.mem_singleton_self inner))
  | case5 fields type hlookup => exact in_ok (F.child h (mem_of_lookup? hlookup))
  | case7 | case9 => exact in_ok (F.primitive _)
  | case8 | case10 => exact in_fail (in_of_name rfl rfl hproperty)
  | case6 | case11 =>
      exact in_fail ⟨List.forall_mem_singleton.2 hproperty, List.forall_mem_singleton.2 h⟩

theorem ofIndex (h : F.Has object) (hindex : F.Has index) : (Ty.ofIndex object index).In F := by
  unfold Ty.ofIndex
  split
  case h_1 | h_3 => exact in_ok F.any
  case h_2 => exact in_ok F.unknown
  case h_4 element =>
    split
    · exact in_ok (F.child h (List.mem_singleton_self element))
    · exact in_fail (in_of_type rfl rfl hindex)
  case h_5 =>
    split
    · exact in_ok (F.primitive _)
    · exact in_fail (in_of_type rfl rfl hindex)
  case h_6 => exact in_fail (in_of_type rfl rfl h)

theorem argumentFaults (position : Nat) {params : List Ty} {arguments : List (Ty × Span)}
    (hparams : ∀ p ∈ params, F.Has p) (harguments : ∀ a ∈ arguments, F.Has a.1) :
    ∀ found ∈ Ty.argumentFaults position params arguments, found.1.In F := by
  fun_induction Ty.argumentFaults position params arguments with
  | case1 position param params argument span arguments later _ ih =>
      exact ih (List.forall_mem_cons.1 hparams).2 (List.forall_mem_cons.1 harguments).2
  | case2 position param params argument span arguments later _ ih =>
      obtain ⟨hparam, hparams⟩ := List.forall_mem_cons.1 hparams
      obtain ⟨hargument, harguments⟩ := List.forall_mem_cons.1 harguments
      exact List.forall_mem_cons.2 ⟨in_of_types rfl rfl hparam hargument, ih hparams harguments⟩
  | case3 => exact List.forall_mem_nil _

theorem ofCall {arguments : List (Ty × Span)} (h : F.Has t)
    (harguments : ∀ a ∈ arguments, F.Has a.1) (span : Span) :
    F.Has (Ty.ofCall t arguments span).1 ∧
      ∀ found ∈ (Ty.ofCall t arguments span).2, found.1.In F := by
  unfold Ty.ofCall
  split
  next params result isAsync =>
    have hparams : ∀ p ∈ params, F.Has p := fun p hp => F.child h (List.mem_append_left _ hp)
    have hresult : F.Has result := F.child h (List.mem_append_right _ (List.mem_singleton_self _))
    refine ⟨hresult, List.forall_mem_append.2 ⟨?_, F.argumentFaults 1 hparams harguments⟩⟩
    split
    · exact List.forall_mem_nil _
    · exact List.forall_mem_singleton.2 ⟨List.forall_mem_nil _, List.forall_mem_nil _⟩
  next => exact ⟨F.any, List.forall_mem_nil _⟩
  next => exact ⟨F.unknown, List.forall_mem_nil _⟩
  next => exact ⟨F.unknown, List.forall_mem_singleton.2 (in_of_type rfl rfl h)⟩

theorem ofElement (h : F.Has t) : F.Has (Ty.ofElement t) := by
  unfold Ty.ofElement
  split
  next element => exact F.child h (List.mem_singleton_self element)
  · exact F.primitive _
  · exact F.unknown
  · exact F.any

end Ty.Family

end ComponentLang
