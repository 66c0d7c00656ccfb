import ComponentLang.Proofs.Typing.Everywhere
import ComponentLang.Proofs.Typing.Relaxes.Assignable

/-!
# Unions and optionals as places

Assignability is not transitive, and a union is not met part by part where a value comes with a
question mark. What does hold of unions, of optionals and of places that are wider than others is
said by the alternatives that a type gives.
-/

/-! ## Unions as least upper bounds

The union of some types goes exactly where all of them go, and so takes each of them. This is for
types that have nothing unknown in them: one that has is assignable to itself, but to no union that
it is a member of. A member that is a union itself gives its own members, and what is left of
several types may be a single one, so all comes down to the alternatives that the types give. -/

namespace ComponentLang.Ty

/-- Nothing in the type is unknown. -/
def Certain (t : Ty) : Prop := t.Everywhere (· ≠ .unknown)

variable {t m target : Ty} {members types : List Ty}

theorem Certain.member (h : Certain (.union members)) (hm : m ∈ members) : m.Certain :=
  h.child hm

theorem Certain.alternative (h : t.Certain) {a : Ty} (ha : a ∈ t.alternatives) : a.Certain := by
  cases t with
  | union members => exact h.child ha
  | _ =>
    rw [List.mem_singleton.1 ha]
    exact h

/-- What goes to a member goes to the union. The members of a union are passed on one by one, also
where it goes to the member for being the same. -/
theorem assignable_union_of_mem (ht : t.Certain) (hm : m ∈ members) (h : t.assignable m = true) :
    t.assignable (.union members) = true := by
  induction hsize : t.size using Nat.strongRecOn generalizing t m members with
  | _ size ih =>
      subst hsize
      by_cases hany : t = .any
      · rw [hany]
        exact any_assignable _
      by_cases hunion : ∃ inner, t = .union inner
      · obtain ⟨inner, rfl⟩ := hunion
        have hinner : ∀ x ∈ inner, x.assignable m = true := by
          intro x hx
          obtain rfl | rfl | ⟨-, hall⟩ := union_assignable.1 h
          · exact assignable_any x
          · exact ih _ (size_lt_size_union hx) (ht.child hx) hx (assignable_self x) rfl
          · exact hall x hx
        refine union_assignable.2 (.inr (.inr ⟨nofun, fun x hx => ?_⟩))
        exact ih _ (size_lt_size_union hx) (ht.child hx) hm (hinner x hx) rfl
      · have hsingle : t.Single := ⟨hany, ht.here, fun inner heq => hunion ⟨inner, heq⟩⟩
        exact (assignable_union hsingle).2 ⟨m, hm, h⟩

theorem union_assignable_iff (hmembers : ∀ m ∈ members, m.Certain) (htarget : target ≠ .unknown) :
    (Ty.union members).assignable target = true ↔ ∀ m ∈ members, m.assignable target = true := by
  constructor
  · intro h m hm
    obtain rfl | rfl | ⟨-, hall⟩ := union_assignable.1 h
    · exact assignable_any m
    · exact assignable_union_of_mem (hmembers m hm) hm (assignable_self m)
    · exact hall m hm
  · intro hall
    exact union_assignable.2 (.inr (.inr ⟨htarget, hall⟩))

/-- A type goes where what it gives to a union goes. -/
theorem assignable_iff_alternatives (ht : t.Certain) (htarget : target ≠ .unknown) :
    t.assignable target = true ↔ ∀ a ∈ t.alternatives, a.assignable target = true := by
  by_cases hunion : ∃ members, t = .union members
  · obtain ⟨members, rfl⟩ := hunion
    exact union_assignable_iff (fun m hm => ht.member hm) htarget
  · rw [alternatives_of_not_union fun members heq => hunion ⟨members, heq⟩,
      List.forall_mem_singleton]

theorem certain_unionOf (h : ∀ t ∈ types, t.Certain) (hne : types.flatMap alternatives ≠ []) :
    (unionOf types).Certain := by
  have halternatives : ∀ a ∈ types.flatMap alternatives, a.Certain := by
    intro a ha
    obtain ⟨t, ht, ha⟩ := List.mem_flatMap.1 ha
    exact (h t ht).alternative ha
  rcases unionOf_cases types with ⟨hnil, -⟩ | ⟨hmem, -⟩ | ⟨members, heq, hmem, -⟩
  · exact (hne hnil).elim
  · exact halternatives _ hmem
  · rw [heq]
    exact (everywhere_union members).2 ⟨nofun, fun m hm => halternatives m ((hmem m).1 hm)⟩

/-- A union goes where all goes that it is made from. -/
theorem unionOf_assignable_iff_alternatives (h : ∀ t ∈ types, t.Certain)
    (hne : types.flatMap alternatives ≠ []) (htarget : target ≠ .unknown) :
    (unionOf types).assignable target = true ↔
      ∀ a ∈ types.flatMap alternatives, a.assignable target = true := by
  have hcertain := certain_unionOf h hne
  rcases unionOf_cases types with ⟨hnil, -⟩ | ⟨hmem, hsame⟩ | ⟨members, heq, hmem, -⟩
  · exact (hne hnil).elim
  · constructor
    · intro hassignable a ha
      rw [hsame a ha]
      exact hassignable
    · exact fun hall => hall _ hmem
  · rw [heq] at hcertain ⊢
    rw [union_assignable_iff (fun m hm => hcertain.member hm) htarget]
    exact forall_congr' fun a => imp_congr_left (hmem a)

/-- The union of some types goes exactly where each of them goes, and each of them goes to it. -/
theorem unionOf_least (h : ∀ t ∈ types, t.Certain) (hne : types.flatMap alternatives ≠ []) :
    (∀ target, target ≠ .unknown →
      ((unionOf types).assignable target = true ↔ ∀ t ∈ types, t.assignable target = true)) ∧
    ∀ t ∈ types, t.assignable (unionOf types) = true := by
  have hleast : ∀ target, target ≠ .unknown → ((unionOf types).assignable target = true ↔
      ∀ t ∈ types, t.assignable target = true) := by
    intro target htarget
    rw [unionOf_assignable_iff_alternatives h hne htarget]
    constructor
    · intro hall t ht
      rw [assignable_iff_alternatives (h t ht) htarget]
      exact fun a ha => hall a (List.mem_flatMap.2 ⟨t, ht, ha⟩)
    · intro hall a ha
      obtain ⟨t, ht, ha⟩ := List.mem_flatMap.1 ha
      exact (assignable_iff_alternatives (h t ht) htarget).1 (hall t ht) a ha
  exact ⟨hleast, (hleast _ (certain_unionOf h hne).here).1 (assignable_self _)⟩

/-- `[Int | String, Array<Int>?, Int]` -/
def mixedTypes : List Ty := [.union [.int, .string], .optional (.array .int), .int]

theorem unionOf_mixedTypes_least :
    (∀ t ∈ mixedTypes, t.Certain) ∧ mixedTypes.flatMap alternatives ≠ [] ∧
      Ty.optional (.union [.string, .array .float, .float]) ≠ .unknown ∧
      unionOf mixedTypes = .union [.int, .string, .optional (.array .int)] ∧
      (unionOf mixedTypes).assignable (.optional (.union [.string, .array .float, .float])) = true ∧
      ∀ t ∈ mixedTypes, t.assignable (unionOf mixedTypes) = true := by
  have hcertain : ∀ t ∈ mixedTypes, t.Certain := by simp [mixedTypes, Certain, int, string]
  have hne : mixedTypes.flatMap alternatives ≠ [] := nofun
  have htarget : Ty.optional (.union [.string, .array .float, .float]) ≠ .unknown := nofun
  obtain ⟨hleast, hupper⟩ := unionOf_least hcertain hne
  exact ⟨hcertain, hne, htarget, by decide, (hleast _ htarget).2 (by decide), hupper⟩

/-- A type that is unknown inside goes to itself, and not to a union that it is in. -/
example : ¬ assignable (.union [.unknown]) (unionOf [.union [.unknown], .int]) := by decide

end ComponentLang.Ty

/-! ## Optionals as values

An optional goes where its inner type goes, except to a union. A union takes a type that is no union
itself by one of its alternatives, and takes an optional so too: the inner type has to go to one
alternative as a whole, after a question mark is taken off that one. An inner type that goes to the
union only in parts, or only as `null` or through a second question mark, is not taken. -/

namespace ComponentLang.Ty

/-- `m` is one of the types that `t` consists of when all unions are opened, at any depth. -/
inductive Offers : Ty → Ty → Prop
  | self {t : Ty} : (∀ members, t ≠ .union members) → Offers t t
  | member {members : List Ty} {t m : Ty} : t ∈ members → Offers t m → Offers (.union members) m

/-- The type without a question mark at its end. -/
def bare : Ty → Ty
  | .optional inner => inner
  | t => t

/-- A type that goes to an optional only for what the inner type of it is, and to a union only for
one alternative: it is neither `any` nor unknown, and no union, no optional and not `null`. -/
structure Plain (t : Ty) : Prop extends t.Single where
  not_optional : ∀ e, t ≠ .optional e
  not_null : t ≠ .null

variable {a m t u : Ty} {members : List Ty}

theorem offers_iff_eq (h : ∀ members, t ≠ .union members) : t.Offers m ↔ m = t := by
  constructor
  · intro hoffers
    cases hoffers with
    | self => rfl
    | member => exact (h _ rfl).elim
  · rintro rfl
    exact .self h

theorem offers_union : (Ty.union members).Offers m ↔ ∃ t ∈ members, t.Offers m := by
  constructor
  · intro hoffers
    cases hoffers with
    | self h => exact (h _ rfl).elim
    | member ht hoffers => exact ⟨_, ht, hoffers⟩
  · rintro ⟨t, ht, hoffers⟩
    exact .member ht hoffers

theorem Offers.not_union (h : t.Offers m) (members : List Ty) : m ≠ .union members := by
  induction h with
  | self h => exact h members
  | member _ _ ih => exact ih

theorem optional_or_bare (t : Ty) :
    (∃ e, t = .optional e) ∨ (∀ e, t ≠ .optional e) ∧ t.bare = t := by
  cases t with
  | optional inner => exact .inl ⟨inner, rfl⟩
  | _ => exact .inr ⟨nofun, rfl⟩

theorem Certain.any_union_or_single (ht : t.Certain) :
    t = .any ∨ (∃ members, t = .union members) ∨ t.Single := by
  by_cases hany : t = .any
  · exact .inl hany
  by_cases hunion : ∃ members, t = .union members
  · exact .inr (.inl hunion)
  exact .inr (.inr ⟨hany, ht.here, fun members heq => hunion ⟨members, heq⟩⟩)

/-- A type that is no union is taken for what is offered. -/
theorem assignable_iff_offers (ha : a.Single) :
    a.assignable u = true ↔ ∃ m, u.Offers m ∧ a.assignable m = true := by
  induction hsize : u.size using Nat.strongRecOn generalizing u with
  | _ size ih =>
      subst hsize
      by_cases hunion : ∃ members, u = .union members
      · obtain ⟨members, rfl⟩ := hunion
        constructor
        · intro h
          obtain ⟨t, ht, hat⟩ := (assignable_union ha).1 h
          obtain ⟨m, hoffers, ham⟩ := (ih _ (size_lt_size_union ht) rfl).1 hat
          exact ⟨m, .member ht hoffers, ham⟩
        · rintro ⟨m, hoffers, ham⟩
          obtain ⟨t, ht, hoffers⟩ := offers_union.1 hoffers
          have hat := (ih _ (size_lt_size_union ht) rfl).2 ⟨m, hoffers, ham⟩
          exact (assignable_union ha).2 ⟨t, ht, hat⟩
      · have hnot : ∀ members, u ≠ .union members := fun members heq => hunion ⟨members, heq⟩
        constructor
        · intro h
          exact ⟨u, .self hnot, h⟩
        · rintro ⟨m, hoffers, ham⟩
          rw [(offers_iff_eq hnot).1 hoffers] at ham
          exact ham

/-- What goes to something that is offered goes to the whole. -/
theorem assignable_of_offers (ht : t.Certain) (hoffers : u.Offers m)
    (h : t.assignable m = true) : t.assignable u = true := by
  induction hoffers with
  | self => exact h
  | member hmem _ ih => exact assignable_union_of_mem ht hmem (ih h)

/-! ### Where an optional goes -/

/-- Of a type that is no union, an optional asks what its inner type asks of the bare type. -/
theorem optional_assignable_bare (hm : ∀ members, m ≠ .union members) :
    (Ty.optional t).assignable m = true ↔ m ≠ .unknown ∧ t.assignable m.bare = true := by
  by_cases hany : m = .any
  · rw [hany]
    exact iff_of_true (assignable_any _) ⟨nofun, assignable_any t⟩
  by_cases hunknown : m = .unknown
  · rw [hunknown]
    refine iff_of_false ?_ fun h => h.1 rfl
    intro h
    rcases assignable_unknown.1 h with heq | heq <;> cases heq
  obtain ⟨e, rfl⟩ | ⟨hnot, hbare⟩ := optional_or_bare m
  · rw [assignable_optional]
    exact (and_iff_right nofun).symm
  · rw [optional_assignable ⟨hany, hunknown, hm⟩ hnot, hbare]
    exact (and_iff_right hunknown).symm

theorem optional_assignable_iff_offers :
    (Ty.optional t).assignable u = true ↔
      ∃ m, u.Offers m ∧ m ≠ .unknown ∧ t.assignable m.bare = true := by
  have hsingle : (Ty.optional t).Single := ⟨nofun, nofun, nofun⟩
  rw [assignable_iff_offers hsingle]
  refine exists_congr fun m => and_congr_right fun hoffers => ?_
  exact optional_assignable_bare hoffers.not_union

/-- A plain type asks of a type that is no union what it asks of the bare type. -/
theorem Plain.assignable_bare (ht : t.Plain) :
    t.assignable m = true ↔ m ≠ .unknown ∧ t.assignable m.bare = true := by
  by_cases hunknown : m = .unknown
  · rw [hunknown]
    refine iff_of_false ?_ fun h => h.1 rfl
    intro h
    exact (assignable_unknown.1 h).elim ht.not_unknown ht.not_any
  rw [and_iff_right hunknown]
  obtain ⟨e, rfl⟩ | ⟨-, hbare⟩ := optional_or_bare m
  · rw [assignable_to_optional ht.toSingle ht.not_optional]
    exact or_iff_right ht.not_null
  · rw [hbare]

theorem Plain.optional_iff (ht : t.Plain) :
    (Ty.optional t).assignable u = true ↔ t.assignable u = true := by
  rw [optional_assignable_iff_offers, assignable_iff_offers ht.toSingle]
  exact exists_congr fun m => and_congr_right fun _ => ht.assignable_bare.symm

/-- What goes somewhere goes to the optional of it, and an optional goes only where its inner type
goes. Each of the two needs the other for the smaller types in the one that goes. -/
theorem assignable_optional_of_certain (ht : t.Certain) :
    (∀ u, t.assignable u = true → t.assignable (.optional u) = true) ∧
      ∀ u, (Ty.optional t).assignable u = true → t.assignable u = true := by
  induction hsize : t.size using Nat.strongRecOn generalizing t with
  | _ size ih =>
      subst hsize
      have hwiden : ∀ u, t.assignable u = true → t.assignable (.optional u) = true := by
        intro u h
        obtain rfl | ⟨members, rfl⟩ | hsingle := ht.any_union_or_single
        · exact any_assignable _
        · refine union_assignable.2 (.inr (.inr ⟨nofun, fun m hm => ?_⟩))
          have hmu : m.assignable u = true := by
            obtain rfl | rfl | ⟨-, hall⟩ := union_assignable.1 h
            · exact assignable_any m
            · exact assignable_union_of_mem (ht.member hm) hm (assignable_self m)
            · exact hall m hm
          exact (ih _ (size_lt_size_union hm) (ht.member hm) rfl).1 u hmu
        · obtain ⟨e, rfl⟩ | ⟨hnot, -⟩ := optional_or_bare t
          · rw [assignable_optional]
            have he : e.size < (Ty.optional e).size := size_lt_of_mem_children List.mem_cons_self
            exact (ih _ he (ht.child List.mem_cons_self) rfl).2 u h
          · exact (assignable_to_optional hsingle hnot).2 (.inr h)
      refine ⟨hwiden, fun u h => ?_⟩
      obtain ⟨m, hoffers, -, hbare⟩ := optional_assignable_iff_offers.1 h
      refine assignable_of_offers ht hoffers ?_
      obtain ⟨e, rfl⟩ | ⟨-, hself⟩ := optional_or_bare m
      · exact hwiden e hbare
      · rw [hself] at hbare
        exact hbare

/-- Where an optional goes that is no optional and always known: outside unions where its inner type
goes, and so to a union if the inner type is plain. Any inner type has to go to one type on offer,
which may be less than going to the union, and is never more if all of the inner type is known. -/
theorem optional_assignable_iff (t u : Ty) (hany : u ≠ .any) (hunknown : u ≠ .unknown)
    (hoptional : ∀ e, u ≠ .optional e) :
    ((∀ members, u ≠ .union members) ∨ t.Plain →
      ((Ty.optional t).assignable u = true ↔ t.assignable u = true)) ∧
    ((Ty.optional t).assignable u = true ↔
      ∃ m, u.Offers m ∧ m ≠ .unknown ∧ t.assignable m.bare = true) ∧
    (t.Certain → (Ty.optional t).assignable u = true → t.assignable u = true) := by
  refine ⟨?_, optional_assignable_iff_offers, fun ht => (assignable_optional_of_certain ht).2 u⟩
  rintro (hunion | hplain)
  · exact optional_assignable ⟨hany, hunknown, hunion⟩ hoptional
  · exact hplain.optional_iff

/-- `Array<Int>?` goes to `String | Array<Float>?`, as `Array<Int>` does. -/
theorem optional_assignable_iff_list :
    (array .int).Plain ∧ Certain (.array .int) ∧
      (Ty.optional (.array .int)).assignable (.union [.string, .optional (.array .float)]) = true ∧
      (Ty.array .int).assignable (.union [.string, .optional (.array .float)]) = true := by
  have hplain : (array .int).Plain := by
    refine ⟨⟨?_, ?_, ?_⟩, ?_, ?_⟩ <;> simp [null]
  have hcertain : Certain (.array .int) := by simp [Certain, int]
  obtain ⟨hiff, -, hnever⟩ := optional_assignable_iff (.array .int)
    (.union [.string, .optional (.array .float)]) (by simp) (by simp) (by simp)
  have hinner :
      (Ty.array .int).assignable (.union [.string, .optional (.array .float)]) = true := by
    decide
  have houter := (hiff (.inr hplain)).2 hinner
  exact ⟨hplain, hcertain, houter, hnever hcertain houter⟩

/-- `Int | String` goes to itself, and `(Int | String)?` does not go to it. -/
theorem optional_choice_not_assignable :
    Ty.union [.int, .string] ≠ .any ∧ Ty.union [.int, .string] ≠ .unknown ∧
      (∀ e, Ty.union [.int, .string] ≠ .optional e) ∧
      (Ty.union [.int, .string]).assignable (.union [.int, .string]) = true ∧
      (Ty.optional (.union [.int, .string])).assignable (.union [.int, .string]) = false :=
  ⟨nofun, nofun, nofun, by decide, by decide⟩

end ComponentLang.Ty

/-! ## Wider places

A value that may be stored in a place may be stored in a wider one: in an optional of the place, and
in a union of it with any other type. Assignability is not transitive, so that the place goes to the
wider one is not enough. What counts is that whatever goes to one of its alternatives goes there. -/

namespace ComponentLang.Ty

variable {t target u v : Ty} {types : List Ty}

theorem known_iff_everywhere :
    t.Known ↔ t.Everywhere fun inner => inner ≠ .unknown ∧ inner ≠ .union [] := by
  constructor
  · rintro ⟨hunknown, hunion⟩ inner hinside
    refine ⟨?_, ?_⟩
    · rintro rfl
      exact hunknown hinside
    · rintro rfl
      exact hunion hinside
  · intro h
    exact ⟨fun hinside => (h _ hinside).1 rfl, fun hinside => (h _ hinside).2 rfl⟩

theorem Known.certain (h : t.Known) : t.Certain :=
  fun inner hinside => (known_iff_everywhere.1 h inner hinside).1

theorem Known.alternatives_ne_nil (h : t.Known) : t.alternatives ≠ [] := by
  obtain ⟨a, ha, -⟩ := h.solid.exists_alternative
  exact List.ne_nil_of_mem ha

/-- What goes to a type goes wherever all goes that goes to one of its alternatives. The members of
a union are passed on one by one, and each of those may be a union again. -/
theorem assignable_of_alternatives (hv : v.Certain) (htarget : target ≠ .unknown)
    (halternatives : ∀ a ∈ t.alternatives, ∀ w : Ty, w.Certain → w.assignable a = true →
      w.assignable target = true)
    (h : v.assignable t = true) : v.assignable target = true := by
  induction hsize : v.size using Nat.strongRecOn generalizing v with
  | _ size ih =>
      subst hsize
      obtain rfl | ⟨members, rfl⟩ | hsingle := hv.any_union_or_single
      · exact any_assignable _
      · refine union_assignable.2 (.inr (.inr ⟨htarget, fun x hx => ?_⟩))
        have hcertain := hv.member hx
        obtain rfl | rfl | ⟨-, hall⟩ := union_assignable.1 h
        · exact halternatives .any List.mem_cons_self x hcertain (assignable_any x)
        · exact halternatives x hx x hcertain (assignable_self x)
        · exact ih _ (size_lt_size_union hx) hcertain (hall x hx) rfl
      · by_cases hunion : ∃ members, t = .union members
        · obtain ⟨members, rfl⟩ := hunion
          obtain ⟨m, hm, hvm⟩ := (assignable_union hsingle).1 h
          exact halternatives m hm v hv hvm
        · have hself : t ∈ t.alternatives := by
            rw [alternatives_of_not_union fun members heq => hunion ⟨members, heq⟩]
            exact List.mem_cons_self
          exact halternatives t hself v hv h

/-- What goes to one of several types goes to their union. -/
theorem assignable_unionOf (hv : v.Certain) (hmem : t ∈ types) (ht : t.Known)
    (h : v.assignable t = true) : v.assignable (unionOf types) = true := by
  have hgiven : ∀ a ∈ t.alternatives, a ∈ types.flatMap alternatives :=
    fun a ha => List.mem_flatMap.2 ⟨t, hmem, ha⟩
  obtain ⟨first, hfirst⟩ := List.exists_mem_of_ne_nil _ ht.alternatives_ne_nil
  rcases unionOf_cases types with ⟨hnil, -⟩ | ⟨-, hsame⟩ | ⟨members, heq, hmembers, -⟩
  · have hin := hgiven first hfirst
    rw [hnil] at hin
    cases hin
  · refine assignable_of_alternatives hv ?_ (fun a ha w _ hw => ?_) h
    · rw [← hsame first (hgiven first hfirst)]
      exact (ht.alternative hfirst).certain.here
    · rw [← hsame a (hgiven a ha)]
      exact hw
  · rw [heq]
    refine assignable_of_alternatives hv nofun (fun a ha w hcertain hw => ?_) h
    exact assignable_union_of_mem hcertain ((hmembers a).2 (hgiven a ha)) hw

/-- A place may be made wider, by `null` or by any other type on either side, and takes what it took
before. -/
theorem assignable_wider (hv : v.Known) (ht : t.Known) (u : Ty) (h : v.assignable t = true) :
    v.assignable (.optional t) = true ∧ v.assignable (unionOf [t, u]) = true ∧
      v.assignable (unionOf [u, t]) = true := by
  have hcertain := hv.certain
  refine ⟨(assignable_optional_of_certain hcertain).1 t h, ?_, ?_⟩
  · exact assignable_unionOf hcertain List.mem_cons_self ht h
  · exact assignable_unionOf hcertain (List.mem_cons_of_mem u List.mem_cons_self) ht h

/-- `Int? | Array<any>` -/
def looseValue : Ty := .union [.optional .int, .array .any]

/-- `Float? | (String | Array<String>)` -/
def nestedPlace : Ty := .union [.optional .float, .union [.string, .array .string]]

theorem assignable_wider_nestedPlace :
    looseValue.Known ∧ nestedPlace.Known ∧ looseValue.assignable nestedPlace = true ∧
      looseValue.assignable (.optional nestedPlace) = true ∧
      looseValue.assignable (unionOf [nestedPlace, .unknown]) = true ∧
      looseValue.assignable (unionOf [.unknown, nestedPlace]) = true := by
  have hvalue : looseValue.Known := known_iff_everywhere.2 (by simp [looseValue, int])
  have hplace : nestedPlace.Known := known_iff_everywhere.2 (by simp [nestedPlace, float, string])
  have h : looseValue.assignable nestedPlace = true := by decide
  exact ⟨hvalue, hplace, h, assignable_wider hvalue hplace .unknown h⟩

/-- A union without members goes to itself, and not to what is made of it. -/
example : assignable (.union []) (.union []) ∧
    ¬ assignable (.union []) (unionOf [.union [], .union []]) := by decide

end ComponentLang.Ty
