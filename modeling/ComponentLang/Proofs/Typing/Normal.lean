import ComponentLang.Proofs.Typing.Family.Program

/-!
# Normal types

Two types with the same values are compared by their form, so the form should be kept simple: a
union has several members, each of them once, and none is a union; an object has no name twice. A
type is normal if it is so at any depth. Normal types are a family, so what a program writes down and
what is inferred for it are normal types, given normal types for the values from outside.
-/
namespace ComponentLang.Ty

/-- The form of the type itself is simple: a union has two different members or more and none of
them is a union, and an object has each name once. -/
def Tidy : Ty → Prop
  | .union members =>
    2 ≤ members.length ∧ members.Nodup ∧ ∀ m ∈ members, ∀ inner, m ≠ .union inner
  | .object fields => (fields.map TypedName.name).Nodup
  | _ => True

/-- The form of the type and of all that stands in it is simple. -/
def Normal (t : Ty) : Prop := t.Everywhere Tidy

variable {t : Ty} {types params : List Ty} {fields : List TypedName}

theorem normal_primitive (p : Primitive) : Normal (.primitive p) :=
  (everywhere_primitive p).2 trivial

theorem normal_component (name : String) : Normal (.component name) :=
  (everywhere_component name).2 trivial

theorem normal_any : Normal .any := everywhere_any.2 trivial

theorem normal_unknown : Normal .unknown := everywhere_unknown.2 trivial

theorem normal_array : Normal (.array t) ↔ t.Normal :=
  (everywhere_array t).trans (and_iff_right trivial)

theorem normal_optional : Normal (.optional t) ↔ t.Normal :=
  (everywhere_optional t).trans (and_iff_right trivial)

theorem normal_function {isAsync : Bool} :
    Normal (.function params t isAsync) ↔ (∀ p ∈ params, p.Normal) ∧ t.Normal :=
  (everywhere_function params t isAsync).trans (and_iff_right trivial)

theorem normal_object :
    Normal (.object fields) ↔
      (fields.map TypedName.name).Nodup ∧ ∀ n ∈ fields, n.type.Normal :=
  everywhere_object fields

/-! ## Unions -/

/-- What a normal type gives to a union is normal and no union, so one level is all there is. -/
theorem Normal.alternative (h : t.Normal) {a : Ty} (ha : a ∈ t.alternatives) :
    a.Normal ∧ ∀ inner, a ≠ .union inner := by
  by_cases hunion : ∃ members, t = .union members
  · obtain ⟨members, rfl⟩ := hunion
    obtain ⟨⟨-, -, hflat⟩, hmembers⟩ := (everywhere_union members).1 h
    exact ⟨hmembers a ha, hflat a ha⟩
  · have hnot : ∀ members, t ≠ .union members := fun members heq => hunion ⟨members, heq⟩
    rw [alternatives_of_not_union hnot, List.mem_singleton] at ha
    subst ha
    exact ⟨h, hnot⟩

theorem normal_unionOf (h : ∀ t ∈ types, t.Normal) : (unionOf types).Normal := by
  have halternatives : ∀ a ∈ (types.flatMap alternatives).eraseDups,
      a.Normal ∧ ∀ inner, a ≠ .union inner := by
    intro a ha
    obtain ⟨t, ht, ha⟩ := List.mem_flatMap.1 (List.mem_eraseDups.1 ha)
    exact (h t ht).alternative ha
  have hnodup := nodup_eraseDups (types.flatMap alternatives)
  unfold unionOf
  generalize (types.flatMap alternatives).eraseDups = members at halternatives hnodup
  split
  next => exact normal_unknown
  next t => exact (halternatives t List.mem_cons_self).1
  next hnil hsingle =>
    have hlength : 2 ≤ members.length := by
      match members, hnil, hsingle with
      | [], hnil, _ => exact (hnil rfl).elim
      | [t], _, hsingle => exact (hsingle t rfl).elim
      | _ :: _ :: rest, _, _ => exact Nat.le_add_left 2 rest.length
    exact (everywhere_union members).2
      ⟨⟨hlength, hnodup, fun m hm => (halternatives m hm).2⟩, fun m hm => (halternatives m hm).1⟩

/-- Normal types with any names. -/
def Family.normal : Family where
  Named _ := True
  Has := Normal
  child h := h.child
  primitive := normal_primitive
  any := normal_any
  unknown := normal_unknown
  component _ := normal_component _
  array := normal_array.2
  optional := normal_optional.2
  function _ hparams hresult := normal_function.2 ⟨hparams, hresult⟩
  unionOf := normal_unionOf
  object hnodup heach := normal_object.2 ⟨hnodup, fun n hn => (heach n hn).2⟩

end Ty

/-! ## Programs -/

/-- With normal types from outside, every type that is noted for an expression is normal, and so are
those of the state and of the methods of every component. -/
theorem check_builds_normal (p : Program) {external : List TypedName}
    (h : ∀ n ∈ external, n.type.Normal) :
    (∀ id type, (p.check external).types.get? id = some type → type.Normal) ∧
    ∀ summary ∈ (p.check external).components,
      (∀ n ∈ summary.state, n.type.Normal) ∧ ∀ n ∈ summary.methods, n.type.Normal := by
  have hprogram : Ty.Family.normal.Part (.program p) :=
    TreePart.spelled_of_all (fun _ => trivial) (fun _ => trivial) (.program p)
  obtain ⟨htypes, hsummaries, -⟩ := check_in hprogram h fun _ _ => trivial
  exact ⟨htypes, fun summary hsummary =>
    ⟨(hsummaries summary hsummary).state, (hsummaries summary hsummary).methods⟩⟩

/-- `component C { x = true ? !v : null }` -/
def choiceState : Program :=
  { Program.empty with
    components := [⟨"C", [],
      [.assignment ⟨14, 34, 1, 15⟩ (.identifier ⟨0, ⟨14, 15, 1, 15⟩⟩ "x") .assign
        (.conditional ⟨4, ⟨18, 34, 1, 19⟩⟩ (.literal ⟨1, ⟨18, 22, 1, 19⟩⟩ (.bool true))
          (.valueBinding ⟨2, ⟨25, 27, 1, 26⟩⟩ "v") (.literal ⟨3, ⟨30, 34, 1, 31⟩⟩ .null))],
      [], ⟨0, 36, 1, 1⟩⟩] }

/-- `Int | null` is given for `v`. -/
def choiceBindings : List TypedName := [⟨"v", .union [.int, .null]⟩]

theorem check_builds_normal_choiceState :
    (∀ n ∈ choiceBindings, n.type.Normal) ∧
      (choiceState.check choiceBindings).types.get? 4 = some (.union [.int, .null]) ∧
      Ty.Normal (.union [.int, .null]) ∧
      (choiceState.check choiceBindings).components =
        [⟨"C", [⟨"x", .union [.int, .null]⟩], []⟩] ∧
      ∀ summary ∈ (choiceState.check choiceBindings).components,
        (∀ n ∈ summary.state, n.type.Normal) ∧ ∀ n ∈ summary.methods, n.type.Normal := by
  have hbindings : ∀ n ∈ choiceBindings, n.type.Normal := by
    simp [choiceBindings, Ty.Normal, Ty.Tidy, Ty.int, Ty.null]
  obtain ⟨htypes, hsummaries⟩ := check_builds_normal choiceState hbindings
  have hchoice : (choiceState.check choiceBindings).types.get? 4 =
      some (.union [.int, .null]) := by decide
  exact ⟨hbindings, hchoice, htypes 4 _ hchoice, by decide, hsummaries⟩

end ComponentLang
