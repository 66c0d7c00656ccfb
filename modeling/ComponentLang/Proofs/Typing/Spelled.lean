import ComponentLang.Proofs.Text
import ComponentLang.Proofs.Typing.Family.Program

/-!
# The names in types and faults

A type has names in it where it is that of an object or of a component, and a fault has names of its
own and the types that it is about. The types that are spelled with names of some kind are a family,
so what is reported of a program is spelled with the names and keys in it, and with the fields of what
every program may use. If all these fit on one line, so does every report.
-/
namespace ComponentLang

open Text

variable {N : String → Prop}

/-! ## Names in types -/

namespace Ty

/-- The names in a type, apart from those of the types in it. -/
def labels : Ty → List String
  | .object fields => fields.map TypedName.name
  | .component name => [name]
  | _ => []

/-- The names in the type, at any depth, are such as `N` says. -/
def Spelled (N : String → Prop) (t : Ty) : Prop := t.Everywhere fun t => ∀ name ∈ t.labels, N name

variable {t : Ty} {types : List Ty}

@[simp] theorem spelled_primitive (p : Primitive) : Spelled N (.primitive p) :=
  (everywhere_primitive p).2 (List.forall_mem_nil _)

@[simp] theorem spelled_any : Spelled N .any := everywhere_any.2 (List.forall_mem_nil _)

@[simp] theorem spelled_unknown : Spelled N .unknown :=
  everywhere_unknown.2 (List.forall_mem_nil _)

@[simp] theorem spelled_component {name : String} : Spelled N (.component name) ↔ N name :=
  (everywhere_component name).trans List.forall_mem_singleton

@[simp] theorem spelled_array : Spelled N (.array t) ↔ t.Spelled N :=
  (everywhere_array t).trans (and_iff_right (List.forall_mem_nil _))

@[simp] theorem spelled_optional : Spelled N (.optional t) ↔ t.Spelled N :=
  (everywhere_optional t).trans (and_iff_right (List.forall_mem_nil _))

@[simp] theorem spelled_union : Spelled N (.union types) ↔ ∀ m ∈ types, m.Spelled N :=
  (everywhere_union types).trans (and_iff_right (List.forall_mem_nil _))

@[simp] theorem spelled_function {isAsync : Bool} :
    Spelled N (.function types t isAsync) ↔ (∀ p ∈ types, p.Spelled N) ∧ t.Spelled N :=
  (everywhere_function types t isAsync).trans (and_iff_right (List.forall_mem_nil _))

@[simp] theorem spelled_object {fields : List TypedName} :
    Spelled N (.object fields) ↔ ∀ n ∈ fields, N n.name ∧ n.type.Spelled N := by
  unfold Spelled
  rw [everywhere_object, labels, List.forall_mem_map]
  exact ⟨fun h n hn => ⟨h.1 n hn, h.2 n hn⟩, fun h => ⟨fun n hn => (h n hn).1,
    fun n hn => (h n hn).2⟩⟩

theorem Spelled.alternative (h : t.Spelled N) {a : Ty} (ha : a ∈ t.alternatives) :
    a.Spelled N := by
  by_cases hunion : ∃ members, t = .union members
  · obtain ⟨members, rfl⟩ := hunion
    exact spelled_union.1 h a ha
  · rw [alternatives_of_not_union fun members heq => hunion ⟨members, heq⟩,
      List.mem_singleton] at ha
    exact ha ▸ h

theorem spelled_unionOf (h : ∀ t ∈ types, t.Spelled N) : (unionOf types).Spelled N := by
  have halternatives : ∀ a ∈ (types.flatMap alternatives).eraseDups, a.Spelled N := by
    intro a ha
    obtain ⟨t, ht, ha⟩ := List.mem_flatMap.1 (List.mem_eraseDups.1 ha)
    exact (h t ht).alternative ha
  unfold unionOf
  generalize (types.flatMap alternatives).eraseDups = members at halternatives
  split
  · exact spelled_unknown
  · exact halternatives _ List.mem_cons_self
  · exact spelled_union.2 halternatives

/-- The types that are spelled with such names as `N` says. -/
def Family.spelled (N : String → Prop) : Family where
  Named := N
  Has := Spelled N
  child h := h.child
  primitive := spelled_primitive
  any := spelled_any
  unknown := spelled_unknown
  component := spelled_component.2
  array := spelled_array.2
  optional := spelled_optional.2
  function _ hparams hresult := spelled_function.2 ⟨hparams, hresult⟩
  unionOf := spelled_unionOf
  object _ := spelled_object.2

end Ty

/-! ## Types and faults on one line -/

namespace Ty

theorem oneLine_name (p : Primitive) : OneLine p.name := by
  cases p <;> decide

mutual

theorem oneLine_display : ∀ t : Ty, t.Spelled OneLine → OneLine t.display
  | .primitive p, _ => oneLine_name p
  | .array element, h => by
    have hinner := oneLine_display element (spelled_array.1 h)
    exact oneLine_append.2 ⟨oneLine_append.2 ⟨by decide, hinner⟩, by decide⟩
  | .object fields, h => by
    have hfields : OneLine (String.intercalate ", " (displayFields fields)) :=
      oneLine_intercalate (by decide) (oneLine_displayFields fields (spelled_object.1 h))
    exact oneLine_append.2 ⟨oneLine_append.2 ⟨by decide, hfields⟩, by decide⟩
  | .function params result isAsync, h => by
    have hparams : OneLine (String.intercalate ", " (displayAll params)) :=
      oneLine_intercalate (by decide) (oneLine_displayAll params (spelled_function.1 h).1)
    have hresult := oneLine_display result (spelled_function.1 h).2
    have hopen : OneLine (if isAsync then "async (" else "(") := by
      cases isAsync <;> decide
    exact oneLine_append.2 ⟨oneLine_append.2 ⟨oneLine_append.2 ⟨hopen, hparams⟩, by decide⟩,
      hresult⟩
  | .union members, h =>
    oneLine_intercalate (by decide) (oneLine_displayAll members (spelled_union.1 h))
  | .optional inner, h =>
    oneLine_append.2 ⟨oneLine_display inner (spelled_optional.1 h), by decide⟩
  | .component name, h =>
    oneLine_append.2 ⟨oneLine_append.2 ⟨by decide, spelled_component.1 h⟩, by decide⟩
  | .any, _ | .unknown, _ => by decide

theorem oneLine_displayAll : ∀ types : List Ty, (∀ t ∈ types, t.Spelled OneLine) →
    ∀ shown ∈ displayAll types, OneLine shown
  | [], _ => List.forall_mem_nil _
  | t :: rest, h =>
    List.forall_mem_cons.2 ⟨oneLine_display t (List.forall_mem_cons.1 h).1,
      oneLine_displayAll rest (List.forall_mem_cons.1 h).2⟩

theorem oneLine_displayFields : ∀ fields : List TypedName,
    (∀ n ∈ fields, OneLine n.name ∧ n.type.Spelled OneLine) →
      ∀ shown ∈ displayFields fields, OneLine shown
  | [], _ => List.forall_mem_nil _
  | ⟨name, type⟩ :: rest, h => by
    obtain ⟨⟨hname, htype⟩, hrest⟩ := List.forall_mem_cons.1 h
    refine List.forall_mem_cons.2 ⟨?_, oneLine_displayFields rest hrest⟩
    exact oneLine_append.2 ⟨oneLine_append.2 ⟨hname, by decide⟩, oneLine_display type htype⟩

end

end Ty

theorem oneLine_spelling (op : BinaryOp) : OneLine op.spelling := by
  cases op <;> decide

theorem oneLine_unarySpelling (op : UnaryOp) : OneLine op.spelling := by
  cases op <;> decide

theorem TypeFault.oneLine_message {fault : TypeFault} (h : fault.In (.spelled OneLine)) :
    OneLine fault.message := by
  have hadd : ∀ {first second : String}, OneLine first → OneLine second →
      OneLine (first ++ second) := fun hfirst hsecond => oneLine_append.2 ⟨hfirst, hsecond⟩
  have hnames := h.names
  have htypes : ∀ t ∈ fault.types, OneLine t.display := fun t ht =>
    Ty.oneLine_display t (h.types t ht)
  cases fault with
  | undefinedVariable | unknownType | noArrayProperty | noStringProperty =>
      rw [names, List.forall_mem_singleton] at hnames
      exact hadd (by decide) hnames
  | unknownComponent =>
      rw [names, List.forall_mem_singleton] at hnames
      exact hadd (hadd (by decide) hnames) (by decide)
  | notCallable | notIndexable | indexNotNumeric =>
      rw [types, List.forall_mem_singleton] at htypes
      exact hadd (by decide) htypes
  | notNumeric op operand =>
      rw [types, List.forall_mem_singleton] at htypes
      exact hadd (hadd (hadd (by decide) (oneLine_unarySpelling op)) (by decide)) htypes
  | noField | notAnObject =>
      rw [names, List.forall_mem_singleton] at hnames
      rw [types, List.forall_mem_singleton] at htypes
      exact hadd (hadd (hadd (by decide) hnames) (by decide)) htypes
  | notAssignable | notReturnable | notComparable =>
      rw [types, List.forall_mem_cons, List.forall_mem_singleton] at htypes
      exact hadd (hadd (hadd (by decide) htypes.1) (by decide)) htypes.2
  | notOperable op left right =>
      rw [types, List.forall_mem_cons, List.forall_mem_singleton] at htypes
      have hop : OneLine ("Incompatible types for operator " ++ op.spelling ++ ": ") :=
        hadd (hadd (by decide) (oneLine_spelling op)) (by decide)
      exact hadd (hadd (hadd hop htypes.1) (by decide)) htypes.2
  | argumentType position expected found =>
      rw [types, List.forall_mem_cons, List.forall_mem_singleton] at htypes
      have hposition : OneLine
          ("Argument " ++ toString position ++ " type mismatch: expected ") :=
        hadd (hadd (by decide) (oneLine_toString position)) (by decide)
      exact hadd (hadd (hadd hposition htypes.1) (by decide)) htypes.2
  | argumentCount expected found =>
      exact hadd (hadd (hadd (by decide) (oneLine_toString expected)) (by decide))
        (oneLine_toString found)

/-- If no name, key or type has a line end in it, no report about the types has. -/
theorem oneLine_check {p : Program} (h : TreePart.Spelled OneLine OneLine (.program p)) :
    ∀ d ∈ (p.check []).diagnostics, OneLine d.message := by
  intro d hd
  have hfields : ∀ name ∈ Prelude.fieldNames, OneLine name := by decide
  obtain ⟨-, -, hreported⟩ :=
    check_in (F := .spelled OneLine) h (List.forall_mem_nil _) hfields
  obtain ⟨fault, hfault, heq⟩ := hreported d hd
  exact heq ▸ fault.oneLine_message hfault

end ComponentLang
