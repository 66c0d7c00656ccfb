import ComponentLang.Proofs.Typing.Relaxes

/-!
# Assignability with less known

What may be stored may still be stored when less is known of the value or of the place, as long as
both are clear or as they were. The induction is on the joint size of the two types before; each of
the two may change its form in one way only, so the cases of assignability are taken one by one.
-/
namespace ComponentLang.Ty

variable {a a' b b' t t' : Ty}

/-! ## Forms of assignability -/

@[simp] theorem assignable_self (t : Ty) : assignable t t = true := by
  rw [assignable_eq]
  simp [assignableStep]

@[simp] theorem any_assignable (b : Ty) : assignable .any b = true := by
  rw [assignable_eq]
  simp [assignableStep]

@[simp] theorem assignable_any (a : Ty) : assignable a .any = true := by
  rw [assignable_eq]
  unfold assignableStep
  split
  · rfl
  · cases a <;> rfl

theorem unknown_assignable : assignable .unknown b = true ↔ b = .unknown ∨ b = .any := by
  rw [assignable_eq]
  unfold assignableStep
  split
  next h => simp [← h]
  next h => cases b <;> simp_all

theorem assignable_unknown : assignable a .unknown = true ↔ a = .unknown ∨ a = .any := by
  rw [assignable_eq]
  unfold assignableStep
  split
  next h => simp [h]
  next h => cases a <;> simp_all

@[simp] theorem assignable_array (e f : Ty) :
    assignable (.array e) (.array f) = assignable e f := by
  rw [assignable_eq]
  unfold assignableStep
  split
  next h =>
    cases h
    exact (assignable_self e).symm
  next => rfl

@[simp] theorem assignable_optional (e f : Ty) :
    assignable (.optional e) (.optional f) = assignable e f := by
  rw [assignable_eq]
  unfold assignableStep
  split
  next h =>
    cases h
    exact (assignable_self e).symm
  next => rfl

theorem union_assignable {members : List Ty} :
    assignable (.union members) b = true ↔
      b = .any ∨ b = .union members ∨ (b ≠ .unknown ∧ ∀ m ∈ members, assignable m b = true) := by
  rw [assignable_eq]
  unfold assignableStep
  split
  next h => simp [← h]
  next h =>
    have hne : b ≠ .union members := fun heq => h heq.symm
    cases b <;> simp_all

/-- A type that is neither `any` nor `unknown` nor a union. -/
structure Single (t : Ty) : Prop where
  not_any : t ≠ .any
  not_unknown : t ≠ .unknown
  not_union : ∀ members, t ≠ .union members

theorem assignable_union {members : List Ty} (ha : a.Single) :
    assignable a (.union members) = true ↔ ∃ m ∈ members, assignable a m = true := by
  have hunion := ha.not_union
  have hany := ha.not_any
  have hunknown := ha.not_unknown
  rw [assignable_eq]
  unfold assignableStep
  cases a <;> simp_all

theorem assignable_to_optional {f : Ty} (ha : a.Single) (hoptional : ∀ e, a ≠ .optional e) :
    assignable a (.optional f) = true ↔ a = .null ∨ assignable a f = true := by
  have hunion := ha.not_union
  have hany := ha.not_any
  have hunknown := ha.not_unknown
  rw [assignable_eq]
  unfold assignableStep
  cases a <;> simp_all

theorem optional_assignable {e : Ty} (hb : b.Single) (hoptional : ∀ f, b ≠ .optional f) :
    assignable (.optional e) b = true ↔ assignable e b = true := by
  have hunion := hb.not_union
  have hany := hb.not_any
  have hunknown := hb.not_unknown
  rw [assignable_eq]
  unfold assignableStep
  cases b <;> simp_all

theorem assignable_object {fields required : List TypedName} :
    assignable (.object fields) (.object required) = true ↔
      fields = required ∨ ∀ r ∈ required, ∃ t,
        TypedName.lookup? r.name fields = some t ∧ assignable t r.type = true := by
  rw [assignable_eq]
  unfold assignableStep
  split
  next h =>
    cases h
    simp
  next h =>
    have hne : fields ≠ required := fun heq => h (congrArg Ty.object heq)
    simp [hne, Option.any_eq_true]

theorem assignable_function {params params' : List Ty} {result result' : Ty}
    {isAsync isAsync' : Bool} :
    assignable (.function params result isAsync) (.function params' result' isAsync') = true ↔
      params.length = params'.length ∧
        (∀ pair ∈ params'.zip params, assignable pair.1 pair.2 = true) ∧
        assignable result result' = true := by
  rw [assignable_eq]
  unfold assignableStep
  split
  next h =>
    cases h
    refine iff_of_true rfl ⟨rfl, fun pair hpair => ?_, assignable_self result⟩
    rw [eq_of_mem_zip_self hpair]
    exact assignable_self _
  next h => simp [and_assoc]

/-- Two types of one form. -/
inductive Alike : Ty → Ty → Prop
  | primitive (p q : Primitive) : Alike (.primitive p) (.primitive q)
  | component (name : String) : Alike (.component name) (.component name)
  | array (e f : Ty) : Alike (.array e) (.array f)
  | object (fields required : List TypedName) : Alike (.object fields) (.object required)
  | function (params others : List Ty) (result other : Ty) (isAsync isAsync' : Bool) :
      Alike (.function params result isAsync) (.function others other isAsync')

/-- Apart from unions and optionals only types of one form are assignable. -/
theorem alike_of_assignable (ha : a.Single) (hb : b.Single) (hoptional : ∀ e, a ≠ .optional e)
    (hoptional' : ∀ f, b ≠ .optional f) (h : assignable a b = true) : Alike a b := by
  have hnot := ha.not_any
  have hnot' := ha.not_unknown
  have hnot'' := ha.not_union
  have hother := hb.not_any
  have hother' := hb.not_unknown
  have hother'' := hb.not_union
  rw [assignable_eq] at h
  unfold assignableStep at h
  cases a <;> cases b <;> simp_all <;> constructor

/-! ## Fields -/

theorem getElem_mem_zip {α β : Type} {as : List α} {bs : List β} {i : Nat} (ha : i < as.length)
    (hb : i < bs.length) : (as[i], bs[i]) ∈ as.zip bs := by
  have hi : i < (as.zip bs).length := by
    rw [List.length_zip]
    omega
  rw [← List.getElem_zip (h := hi)]
  exact List.getElem_mem hi

theorem exists_left_of_mem {α β : Type} {as : List α} {bs : List β}
    (hlength : as.length = bs.length) {b : β} (hb : b ∈ bs) : ∃ a, (a, b) ∈ as.zip bs := by
  obtain ⟨i, hi, rfl⟩ := List.getElem_of_mem hb
  exact ⟨as[i], getElem_mem_zip (hlength ▸ hi) hi⟩

theorem lookup?_of_zip {P : Ty → Ty → Prop} {fields fields' : List TypedName}
    (hlength : fields.length = fields'.length)
    (h : ∀ pair ∈ fields.zip fields', pair.2.name = pair.1.name ∧ P pair.1.type pair.2.type)
    {name : String} (hlookup : TypedName.lookup? name fields = some t) :
    ∃ t', TypedName.lookup? name fields' = some t' ∧ P t t' := by
  induction fields generalizing fields' with
  | nil => cases hlookup
  | cons field rest ih =>
      cases fields' with
      | nil => cases hlength
      | cons field' rest' =>
          rw [List.zip_cons_cons, List.forall_mem_cons] at h
          obtain ⟨⟨hname, htype⟩, hrest⟩ := h
          unfold TypedName.lookup? at hlookup ⊢
          rw [hname]
          split at hlookup
          next hfound =>
            cases hlookup
            exact ⟨field'.type, if_pos hfound, htype⟩
          next hother =>
            rw [if_neg hother]
            exact ih (Nat.succ.inj hlength) hrest hlookup

theorem lookup?_of_nodup {fields : List TypedName} (hnodup : (fields.map TypedName.name).Nodup)
    {field : TypedName} (h : field ∈ fields) :
    TypedName.lookup? field.name fields = some field.type := by
  induction fields with
  | nil => cases h
  | cons other rest ih =>
      rw [List.map_cons, List.nodup_cons] at hnodup
      unfold TypedName.lookup?
      rcases List.mem_cons.1 h with rfl | h
      · exact if_pos rfl
      · have hne : other.name ≠ field.name := by
          intro heq
          exact hnodup.1 (heq ▸ List.mem_map_of_mem h)
        rw [if_neg hne]
        exact ih hnodup.2 h

/-! ## The cases -/

theorem size_lt_size_union {members : List Ty} {m : Ty} (h : m ∈ members) :
    m.size < (Ty.union members).size :=
  size_lt_of_mem_children h

namespace Tame

theorem single (h : Tame t t') (ht : t.Single) (hany : t' ≠ .any) : t'.Single := by
  cases t with
  | primitive p =>
      obtain rfl := h.primitive.resolve_right hany
      exact ht
  | component name =>
      obtain rfl := h.component.resolve_right hany
      exact ht
  | array e =>
      obtain ⟨e', rfl, -⟩ := h.array.resolve_left hany
      exact ⟨nofun, nofun, nofun⟩
  | optional e =>
      obtain ⟨e', rfl, -⟩ := h.optional.resolve_left hany
      exact ⟨nofun, nofun, nofun⟩
  | object fields =>
      obtain ⟨fields', rfl, -⟩ := h.object.resolve_left hany
      exact ⟨nofun, nofun, nofun⟩
  | function params result isAsync =>
      obtain ⟨params', result', rfl, -⟩ := h.function.resolve_left hany
      exact ⟨nofun, nofun, nofun⟩
  | union members => exact (ht.not_union members rfl).elim
  | any => exact (ht.not_any rfl).elim
  | unknown => exact (ht.not_unknown rfl).elim

/-- A type that is a union or an optional was one before. -/
theorem not_optional (h : Tame t t') (ht : t.Single) (hoptional : ∀ e, t ≠ .optional e) :
    ∀ e, t' ≠ .optional e := by
  rintro e rfl
  obtain ⟨hrelaxes, -⟩ := h
  cases hrelaxes with
  | refl => exact hoptional e rfl
  | optional => exact hoptional _ rfl
  | merge => exact ht.not_union _ rfl

/-- What may be stored, of types that are smaller together, may still be stored with less known. -/
def AssignableBelow (size : Nat) : Prop :=
  ∀ {a a' b b' : Ty}, a.size + b.size < size → Tame a a' → Tame b b' → a.assignable b = true →
    a'.assignable b' = true

theorem assignable_of_union {members : List Ty}
    (ih : AssignableBelow ((Ty.union members).size + b.size)) (ha : Tame (.union members) a')
    (hb : Tame b b') (hany : a' ≠ .any) (hany' : b' ≠ .any)
    (h : (Ty.union members).assignable b = true) : a'.assignable b' = true := by
  have hsize : ∀ m ∈ members, m.size < (Ty.union members).size := fun m hm => size_lt_size_union hm
  obtain rfl | rfl | ⟨hunknown, hall⟩ := union_assignable.1 h
  · exact (hany' hb.eq_any).elim
  · -- Both sides come from one union.
    have hdiagonal : ∀ m ∈ members, ∀ {c c' : Ty}, Tame m c → Tame m c' → c.assignable c' = true :=
      fun m hm _ _ hc hc' => by
        have := hsize m hm
        exact ih (by omega) hc hc' (assignable_self m)
    rcases ha.union with rfl | rfl | ⟨hne, hunion, -, hmembers⟩
    · rcases hb.union with rfl | rfl | ⟨-, -, -, hmembers'⟩
      · exact assignable_self _
      · exact (hany' rfl).elim
      · have hunknown : b' ≠ .unknown := fun heq => nomatch hb.relaxes.unknown_iff.1 heq
        exact union_assignable.2 (.inr (.inr ⟨hunknown, fun m hm =>
          hdiagonal m hm (refl m) (hmembers' m hm)⟩))
    · exact (hany rfl).elim
    · obtain ⟨m, hm⟩ := List.exists_mem_of_ne_nil members hne
      rcases hb.union with rfl | rfl | ⟨-, -, -, hmembers'⟩
      · have hunknown : a' ≠ .unknown := fun heq => nomatch ha.relaxes.unknown_iff.1 heq
        exact (assignable_union ⟨hany, hunknown, hunion⟩).2
          ⟨m, hm, hdiagonal m hm (hmembers m hm) (refl m)⟩
      · exact (hany' rfl).elim
      · exact hdiagonal m hm (hmembers m hm) (hmembers' m hm)
  · rcases ha.union with rfl | rfl | ⟨hne, -, -, hmembers⟩
    · have hunknown' : b' ≠ .unknown := fun heq => hunknown (hb.relaxes.unknown_iff.1 heq)
      refine union_assignable.2 (.inr (.inr ⟨hunknown', fun m hm => ?_⟩))
      have := hsize m hm
      exact ih (by omega) (refl m) hb (hall m hm)
    · exact (hany rfl).elim
    · obtain ⟨m, hm⟩ := List.exists_mem_of_ne_nil members hne
      have := hsize m hm
      exact ih (by omega) (hmembers m hm) hb (hall m hm)

theorem assignable_to_union {members : List Ty}
    (ih : AssignableBelow (a.size + (Ty.union members).size)) (ha : Tame a a')
    (hsingle : a.Single) (hb : Tame (.union members) b') (hany : a' ≠ .any) (hany' : b' ≠ .any)
    (h : a.assignable (.union members) = true) : a'.assignable b' = true := by
  obtain ⟨m, hm, h⟩ := (assignable_union hsingle).1 h
  have := size_lt_size_union hm
  rcases hb.union with rfl | rfl | ⟨-, -, -, hmembers⟩
  · exact (assignable_union (ha.single hsingle hany)).2 ⟨m, hm, ih (by omega) ha (refl m) h⟩
  · exact (hany' rfl).elim
  · exact ih (by omega) ha (hmembers m hm) h

theorem assignable_of_object {fields required : List TypedName}
    (ih : AssignableBelow ((Ty.object fields).size + (Ty.object required).size))
    (ha : Tame (.object fields) a') (hb : Tame (.object required) b') (hany : a' ≠ .any)
    (hany' : b' ≠ .any) (h : (Ty.object fields).assignable (.object required) = true) :
    a'.assignable b' = true := by
  obtain ⟨fields', rfl, hnodup, hlength, hfields⟩ := ha.object.resolve_left hany
  obtain ⟨required', rfl, hnodup', hlength', hrequired⟩ := hb.object.resolve_left hany'
  -- Equal objects have fields of each name to compare only if no name comes twice.
  have hall : (fields' = required') ∨ ∀ r ∈ required, ∃ t,
      TypedName.lookup? r.name fields = some t ∧ t.assignable r.type = true := by
    rcases assignable_object.1 h with rfl | hall
    · by_cases hsame : fields' = fields ∧ required' = fields
      · exact .inl (hsame.1.trans hsame.2.symm)
      · have hnodup : (fields.map TypedName.name).Nodup := by
          by_contra hdup
          exact hsame ⟨hnodup.resolve_right hdup, hnodup'.resolve_right hdup⟩
        exact .inr fun r hr => ⟨r.type, lookup?_of_nodup hnodup hr, assignable_self _⟩
    · exact .inr hall
  rcases hall with hsame | hall
  · rw [hsame]
    exact assignable_self _
  · refine assignable_object.2 (.inr fun r' hr' => ?_)
    obtain ⟨r, hpair⟩ := exists_left_of_mem hlength' hr'
    have hr := (List.of_mem_zip hpair).1
    obtain ⟨hname, htype⟩ := hrequired _ hpair
    obtain ⟨t, hlookup, hassignable⟩ := hall r hr
    obtain ⟨t', hlookup', ht⟩ := lookup?_of_zip hlength hfields hlookup
    refine ⟨t', by rw [hname]; exact hlookup', ih ?_ ht htype hassignable⟩
    have hsize := size_le_of_lookup? hlookup
    have hsize' := size_le_sizeFields hr
    simp only [size]
    omega

theorem assignable_of_function {params others : List Ty} {result other : Ty}
    {isAsync isAsync' : Bool}
    (ih : AssignableBelow ((Ty.function params result isAsync).size +
      (Ty.function others other isAsync').size))
    (ha : Tame (.function params result isAsync) a')
    (hb : Tame (.function others other isAsync') b')
    (hany : a' ≠ .any) (hany' : b' ≠ .any)
    (h : (Ty.function params result isAsync).assignable (.function others other isAsync') = true) :
    a'.assignable b' = true := by
  obtain ⟨params', result', rfl, hlength, hparams, hresult⟩ := ha.function.resolve_left hany
  obtain ⟨others', other', rfl, hlength', hothers, hother⟩ := hb.function.resolve_left hany'
  obtain ⟨hcount, htakes, hgives⟩ := assignable_function.1 h
  refine assignable_function.2 ⟨by omega, ?_, ih ?_ hresult hother hgives⟩
  · intro pair hpair
    obtain ⟨i, hi, rfl⟩ := List.getElem_of_mem hpair
    rw [List.length_zip] at hi
    rw [List.getElem_zip]
    have hparam := hparams (params[i], params'[i]) (getElem_mem_zip _ _)
    have hother := hothers (others[i], others'[i]) (getElem_mem_zip _ _)
    have htakes := htakes (others[i], params[i]) (getElem_mem_zip _ _)
    refine ih ?_ hother hparam htakes
    have hsize := size_le_sizeAll (List.getElem_mem (l := params) (n := i) (by omega))
    have hsize' := size_le_sizeAll (List.getElem_mem (l := others) (n := i) (by omega))
    simp only [size]
    omega
  · simp only [size]
    omega

/-- Two types of which neither is `any`, `unknown` or a union. -/
theorem assignable_of_single (ih : AssignableBelow (a.size + b.size)) (ha : Tame a a')
    (hb : Tame b b') (hsingle : a.Single) (hsingleB : b.Single) (hany : a' ≠ .any)
    (hany' : b' ≠ .any) (h : a.assignable b = true) : a'.assignable b' = true := by
  have hsingle' := ha.single hsingle hany
  have hsingleB' := hb.single hsingleB hany'
  by_cases hoptionalB : ∃ f, b = .optional f
  · obtain ⟨f, rfl⟩ := hoptionalB
    obtain ⟨f', rfl, hf⟩ := hb.optional.resolve_left hany'
    by_cases hoptional : ∃ e, a = .optional e
    · obtain ⟨e, rfl⟩ := hoptional
      obtain ⟨e', rfl, he⟩ := ha.optional.resolve_left hany
      rw [assignable_optional] at h ⊢
      exact ih (by simp only [size]; omega) he hf h
    · have hnot : ∀ e, a ≠ .optional e := fun e heq => hoptional ⟨e, heq⟩
      rw [assignable_to_optional hsingle' (ha.not_optional hsingle hnot)]
      apply ((assignable_to_optional hsingle hnot).1 h).imp
      · rintro rfl
        exact ha.primitive.resolve_right hany
      · exact ih (by simp only [size]; omega) ha hf
  have hnotB : ∀ f, b ≠ .optional f := fun f heq => hoptionalB ⟨f, heq⟩
  by_cases hoptional : ∃ e, a = .optional e
  · obtain ⟨e, rfl⟩ := hoptional
    obtain ⟨e', rfl, he⟩ := ha.optional.resolve_left hany
    rw [optional_assignable hsingleB' (hb.not_optional hsingleB hnotB)]
    exact ih (by simp only [size]; omega) he hb ((optional_assignable hsingleB hnotB).1 h)
  cases alike_of_assignable hsingle hsingleB (fun e heq => hoptional ⟨e, heq⟩) hnotB h with
  | primitive p q =>
      rw [ha.primitive.resolve_right hany, hb.primitive.resolve_right hany']
      exact h
  | component name =>
      rw [ha.component.resolve_right hany, hb.component.resolve_right hany']
      exact h
  | array e f =>
      obtain ⟨e', rfl, he⟩ := ha.array.resolve_left hany
      obtain ⟨f', rfl, hf⟩ := hb.array.resolve_left hany'
      rw [assignable_array] at h ⊢
      exact ih (by simp only [size]; omega) he hf h
  | object fields required => exact assignable_of_object ih ha hb hany hany' h
  | function params others result other isAsync isAsync' =>
      exact assignable_of_function ih ha hb hany hany' h

/-- The two sides of assignability may both have less known about them. -/
theorem assignable (ha : Tame a a') (hb : Tame b b') (h : a.assignable b = true) :
    a'.assignable b' = true := by
  induction hsize : a.size + b.size using Nat.strongRecOn generalizing a a' b b' with
  | _ size ih =>
      subst hsize
      by_cases hany : a' = .any
      · rw [hany]
        exact any_assignable b'
      by_cases hany' : b' = .any
      · rw [hany']
        exact assignable_any a'
      have ih : AssignableBelow (a.size + b.size) :=
        fun hless ha hb h => ih _ hless ha hb h rfl
      by_cases hunionA : ∃ members, a = .union members
      · obtain ⟨members, rfl⟩ := hunionA
        exact assignable_of_union ih ha hb hany hany' h
      by_cases hunknown : a = .unknown
      · subst hunknown
        obtain rfl | rfl := unknown_assignable.1 h
        · rw [ha.eq_unknown, hb.eq_unknown]
          exact assignable_self _
        · exact (hany' hb.eq_any).elim
      have hsingle : a.Single := by
        refine ⟨?_, hunknown, fun members heq => hunionA ⟨members, heq⟩⟩
        rintro rfl
        exact hany ha.eq_any
      by_cases hunionB : ∃ members, b = .union members
      · obtain ⟨members, rfl⟩ := hunionB
        exact assignable_to_union ih ha hsingle hb hany hany' h
      by_cases hunknownB : b = .unknown
      · subst hunknownB
        exact (assignable_unknown.1 h).elim (absurd · hunknown) (absurd · hsingle.not_any)
      have hsingleB : b.Single := by
        refine ⟨?_, hunknownB, fun members heq => hunionB ⟨members, heq⟩⟩
        rintro rfl
        exact hany' hb.eq_any
      exact assignable_of_single ih ha hb hsingle hsingleB hany hany' h

end Tame

end ComponentLang.Ty
