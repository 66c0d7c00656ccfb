import ComponentLang.Typing.Assignable
import Mathlib.Data.List.Forall2
import Mathlib.Logic.Relation

/-!
# Types with less known

A type relaxes to another if parts of it, of which everything is known, are replaced by `any`. The
relation also says what becomes of a union, which is made from the types of other expressions:
members of it may fall together when less is known of them, and types that were equal may fall
apart. A union that has `any` in it is blurred. Little can be said of a blurred union, so every type
relaxes to it, and the results below are about clear types, which have none in them.
-/
namespace ComponentLang.Ty

/-! ## Types in types -/

/-- The types directly in a type. -/
def children : Ty → List Ty
  | .array element => [element]
  | .object fields => fields.map TypedName.type
  | .function params result _ => params ++ [result]
  | .union members => members
  | .optional inner => [inner]
  | .primitive _ | .component _ | .any | .unknown => []

theorem size_lt_of_mem_children {child t : Ty} (h : child ∈ t.children) : child.size < t.size := by
  cases t with
  | array element =>
      rw [List.mem_singleton.1 h]
      exact Nat.lt_succ_self _
  | object fields =>
      obtain ⟨field, hfield, rfl⟩ := List.mem_map.1 h
      exact Nat.lt_succ_of_le (size_le_sizeFields hfield)
  | function params result isAsync =>
      have hsize : (Ty.function params result isAsync).size = sizeAll params + result.size + 1 :=
        rfl
      rcases List.mem_append.1 h with hparam | hresult
      · have := size_le_sizeAll hparam
        omega
      · rw [List.mem_singleton.1 hresult]
        omega
  | union members => exact Nat.lt_succ_of_le (size_le_sizeAll h)
  | optional inner =>
      rw [List.mem_singleton.1 h]
      exact Nat.lt_succ_self _
  | primitive _ | component _ | any | unknown => cases h

/-- `inner` stands in `t`, at any depth, or is `t`. -/
def Inside (inner t : Ty) : Prop :=
  Relation.ReflTransGen (fun whole child => child ∈ whole.children) t inner

theorem inside_iff {inner t : Ty} :
    inner.Inside t ↔ t = inner ∨ ∃ child ∈ t.children, inner.Inside child :=
  Relation.ReflTransGen.cases_head_iff

theorem Inside.of_child {inner child t : Ty} (h : inner.Inside child)
    (hchild : child ∈ t.children) : inner.Inside t :=
  .head hchild h

/-! ## Known, clear and solid types -/

/-- Nothing in the type is unknown, and no union in it is without members. -/
def Known (t : Ty) : Prop := ¬ Inside .unknown t ∧ ¬ Inside (.union []) t

/-- The type has no union in it that has `any` in it. -/
def Clear (t : Ty) : Prop := ∀ members, Inside (.union members) t → ¬ Inside .any (.union members)

theorem Known.child {t child : Ty} (h : t.Known) (hchild : child ∈ t.children) : child.Known :=
  ⟨fun hinside => h.1 (hinside.of_child hchild), fun hinside => h.2 (hinside.of_child hchild)⟩

theorem Clear.child {t child : Ty} (h : t.Clear) (hchild : child ∈ t.children) : child.Clear :=
  fun members hinside => h members (hinside.of_child hchild)

theorem known_of_children {t : Ty} (hunknown : t ≠ .unknown) (hunion : t ≠ .union [])
    (h : ∀ child ∈ t.children, child.Known) : t.Known := by
  constructor
  · intro hinside
    obtain heq | ⟨child, hchild, hinside⟩ := inside_iff.1 hinside
    · exact hunknown heq
    · exact (h child hchild).1 hinside
  · intro hinside
    obtain heq | ⟨child, hchild, hinside⟩ := inside_iff.1 hinside
    · exact hunion heq
    · exact (h child hchild).2 hinside

theorem known_any : Known .any := known_of_children nofun nofun nofun

theorem known_primitive (p : Primitive) : Known (.primitive p) :=
  known_of_children nofun nofun nofun

theorem clear_of_children {t : Ty} (hunion : ∀ members, t ≠ .union members)
    (h : ∀ child ∈ t.children, child.Clear) : t.Clear := by
  intro members hinside
  obtain heq | ⟨child, hchild, hinside⟩ := inside_iff.1 hinside
  · exact (hunion members heq).elim
  · exact h child hchild members hinside

theorem clear_any : Clear .any := clear_of_children nofun nofun

theorem clear_primitive (p : Primitive) : Clear (.primitive p) := clear_of_children nofun nofun

/-- The type, or a member of it, however deep in unions, is a type other than `unknown`. -/
inductive Solid : Ty → Prop
  | whole {t : Ty} (hunknown : t ≠ .unknown) (hunion : ∀ members, t ≠ .union members) : Solid t
  | member {m : Ty} {members : List Ty} (hmem : m ∈ members) (h : Solid m) : Solid (.union members)

theorem not_solid_unknown : ¬ Solid .unknown := by
  intro h
  cases h with
  | whole hunknown _ => exact hunknown rfl

theorem solid_of_inside_any {t : Ty} (h : Inside .any t) : t.Solid := by
  induction h using Relation.ReflTransGen.head_induction_on with
  | refl => exact .whole (fun h => nomatch h) fun _ h => nomatch h
  | @head whole child hchild _ ih =>
      cases whole with
      | union members => exact .member hchild ih
      | unknown => cases hchild
      | _ => exact .whole (fun h => nomatch h) fun _ h => nomatch h

theorem Known.solid {t : Ty} (h : t.Known) : t.Solid := by
  induction hsize : t.size using Nat.strongRecOn generalizing t with
  | _ size ih =>
      cases t with
      | union members =>
          cases members with
          | nil => exact (h.2 .refl).elim
          | cons m rest =>
              have hmem : m ∈ (Ty.union (m :: rest)).children := List.mem_cons_self
              exact .member List.mem_cons_self
                (ih _ (hsize ▸ size_lt_of_mem_children hmem) (h.child hmem) rfl)
      | unknown => exact (h.1 .refl).elim
      | _ => exact .whole (fun h => nomatch h) fun _ h => nomatch h

/-! ## The relation -/

/-- `t'` is `t` with less known about it. -/
inductive RelaxesTo : Ty → Ty → Prop
  | refl (t : Ty) : RelaxesTo t t
  | any {t : Ty} (h : t.Known) : RelaxesTo t .any
  | array {element element' : Ty} (h : RelaxesTo element element') :
      RelaxesTo (.array element) (.array element')
  | object {fields fields' : List TypedName}
      (hlength : fields.length = fields'.length) (hnodup : (fields.map TypedName.name).Nodup)
      (hnames : ∀ pair ∈ fields.zip fields', pair.2.name = pair.1.name)
      (h : ∀ pair ∈ fields.zip fields', RelaxesTo pair.1.type pair.2.type) :
      RelaxesTo (.object fields) (.object fields')
  | function {params params' : List Ty} {result result' : Ty} {isAsync : Bool}
      (hlength : params.length = params'.length)
      (hparams : ∀ pair ∈ params.zip params', RelaxesTo pair.1 pair.2)
      (hresult : RelaxesTo result result') :
      RelaxesTo (.function params result isAsync) (.function params' result' isAsync)
  | optional {inner inner' : Ty} (h : RelaxesTo inner inner') :
      RelaxesTo (.optional inner) (.optional inner')
  /-- Members of a union fall together. -/
  | merge {members : List Ty} {t' : Ty} (hne : members ≠ []) (hunion : ∀ others, t' ≠ .union others)
      (hany : Inside .any t') (h : ∀ m ∈ members, RelaxesTo m t') :
      RelaxesTo (.union members) t'
  /-- Types fall apart. -/
  | blur {t : Ty} {members : List Ty} (hsolid : t.Solid) (hany : Inside .any (.union members))
      (hapart : ∃ a ∈ members, ∃ b ∈ members, a ≠ b) : RelaxesTo t (.union members)

theorem eq_of_zip {α : Type} {as bs : List α} (hlength : as.length = bs.length)
    (h : ∀ pair ∈ as.zip bs, pair.2 = pair.1) : bs = as := by
  induction as generalizing bs with
  | nil => exact List.length_eq_zero_iff.1 hlength.symm
  | cons a as ih =>
      cases bs with
      | nil => cases hlength
      | cons b bs =>
          rw [List.zip_cons_cons, List.forall_mem_cons] at h
          exact List.cons_eq_cons.2 ⟨h.1, ih (Nat.succ.inj hlength) h.2⟩

theorem eq_of_mem_zip_self {α : Type} {as : List α} {pair : α × α} (h : pair ∈ as.zip as) :
    pair.2 = pair.1 := by
  induction as with
  | nil => cases h
  | cons a as ih =>
      rw [List.zip_cons_cons, List.mem_cons] at h
      rcases h with rfl | h
      · rfl
      · exact ih h

/-- What has changed has `any` in it. -/
theorem RelaxesTo.eq_or_any {t t' : Ty} (h : RelaxesTo t t') : t' = t ∨ Inside .any t' := by
  induction h with
  | refl t => exact .inl rfl
  | any _ => exact .inr .refl
  | array _ ih | optional _ ih =>
      apply ih.imp
      · rintro rfl
        rfl
      · exact fun hany => hany.of_child List.mem_cons_self
  | @object fields fields' hlength hnodup hnames h ih =>
      by_cases hany : ∃ pair ∈ fields.zip fields', Inside .any pair.2.type
      · obtain ⟨pair, hpair, hany⟩ := hany
        exact .inr (hany.of_child (List.mem_map_of_mem (List.of_mem_zip hpair).2))
      · have hsame : fields' = fields := by
          apply eq_of_zip hlength
          intro pair hpair
          have htype := (ih pair hpair).resolve_right fun h => hany ⟨pair, hpair, h⟩
          have hname := hnames pair hpair
          rcases pair with ⟨⟨name, type⟩, ⟨name', type'⟩⟩
          cases htype
          cases hname
          rfl
        exact .inl (congrArg Ty.object hsame)
  | @function params params' result result' isAsync hlength hparams hresult ihp ihr =>
      by_cases hany : Inside .any result' ∨ ∃ pair ∈ params.zip params', Inside .any pair.2
      · obtain hany | ⟨pair, hpair, hany⟩ := hany
        · exact .inr (hany.of_child (List.mem_append_right _ List.mem_cons_self))
        · exact .inr (hany.of_child (List.mem_append_left _ (List.of_mem_zip hpair).2))
      · rw [not_or] at hany
        have hparams' : params' = params := by
          apply eq_of_zip hlength
          intro pair hpair
          exact (ihp pair hpair).resolve_right fun h => hany.2 ⟨pair, hpair, h⟩
        have hresult' : result' = result := ihr.resolve_right hany.1
        rw [hparams', hresult']
        exact .inl rfl
  | merge hne hunion hany _ _ => exact .inr hany
  | blur _ hany _ => exact .inr hany

/-- What has changed is not unknown. -/
theorem RelaxesTo.solid {t t' : Ty} (h : RelaxesTo t t') (hne : t' ≠ t) : t.Solid := by
  induction h with
  | refl t => exact (hne rfl).elim
  | any h => exact h.solid
  | array _ _ | optional _ _ | object _ _ _ _ _ | function _ _ _ _ _ =>
      exact .whole (fun h => nomatch h) fun _ h => nomatch h
  | @merge members t' hmembers hunion hany h ih =>
      obtain ⟨m, hm⟩ := List.exists_mem_of_ne_nil members hmembers
      by_cases hsame : t' = m
      · exact .member hm (hsame ▸ solid_of_inside_any hany)
      · exact .member hm (ih m hm hsame)
  | blur hsolid _ _ => exact hsolid

/-- An array comes from an array, or from a union that has one in it. -/
theorem RelaxesTo.exists_array {t element : Ty} (h : RelaxesTo t (.array element)) :
    ∃ e, Inside (.array e) t := by
  generalize hwhole : Ty.array element = t' at h
  induction h with
  | refl t => exact ⟨element, hwhole ▸ .refl⟩
  | array _ _ => exact ⟨_, .refl⟩
  | @merge members _ hne _ _ _ ih =>
      obtain ⟨m, hm⟩ := List.exists_mem_of_ne_nil members hne
      obtain ⟨e, he⟩ := ih m hm hwhole
      exact ⟨e, he.of_child hm⟩
  | _ => cases hwhole

theorem RelaxesTo.unknown_iff {t t' : Ty} (h : RelaxesTo t t') : t' = .unknown ↔ t = .unknown := by
  by_cases hsame : t' = t
  · rw [hsame]
  · have hany := h.eq_or_any.resolve_left hsame
    have hsolid := h.solid hsame
    constructor
    · rintro rfl
      exact (not_solid_unknown (solid_of_inside_any hany)).elim
    · rintro rfl
      exact (not_solid_unknown hsolid).elim

/-! ## Unions -/

/-- Of several types that are left when those that come again are dropped, the first two differ. -/
theorem exists_ne_of_eraseDups {types : List Ty} (hnil : types.eraseDups ≠ [])
    (hsingle : ∀ t, types.eraseDups ≠ [t]) :
    ∃ a ∈ types.eraseDups, ∃ b ∈ types.eraseDups, a ≠ b := by
  cases types with
  | nil => exact (hnil rfl).elim
  | cons a rest =>
      rw [List.eraseDups_cons] at hsingle ⊢
      cases hothers : (rest.filter fun b => !b == a).eraseDups with
      | nil =>
          rw [hothers] at hsingle
          exact (hsingle a rfl).elim
      | cons b others =>
          have hb : b ∈ rest.filter fun b => !b == a := by
            rw [← List.mem_eraseDups, hothers]
            exact List.mem_cons_self
          have hne : b ≠ a := by simpa using (List.mem_filter.1 hb).2
          exact ⟨a, List.mem_cons_self, b, List.mem_cons_of_mem _ List.mem_cons_self, hne.symm⟩

theorem unionOf_cases (types : List Ty) :
    (types.flatMap alternatives = [] ∧ unionOf types = .unknown) ∨
    (unionOf types ∈ types.flatMap alternatives ∧
      ∀ a ∈ types.flatMap alternatives, a = unionOf types) ∨
    ∃ members, unionOf types = .union members ∧
      (∀ a, a ∈ members ↔ a ∈ types.flatMap alternatives) ∧
      ∃ a ∈ members, ∃ b ∈ members, a ≠ b := by
  unfold unionOf
  have hmem : ∀ a, a ∈ (types.flatMap alternatives).eraseDups ↔
      a ∈ types.flatMap alternatives := fun a => List.mem_eraseDups
  split
  next hnil =>
    left
    refine ⟨List.eq_nil_iff_forall_not_mem.2 fun a ha => ?_, rfl⟩
    have := (hmem a).2 ha
    rw [hnil] at this
    cases this
  next t hsingle =>
    right
    left
    rw [hsingle] at hmem
    exact ⟨(hmem t).1 List.mem_cons_self, fun a ha => List.mem_singleton.1 ((hmem a).2 ha)⟩
  next hnil hsingle =>
    right
    right
    exact ⟨_, rfl, hmem, exists_ne_of_eraseDups hnil hsingle⟩

theorem Solid.exists_alternative {t : Ty} (h : t.Solid) : ∃ a ∈ t.alternatives, a.Solid := by
  cases h with
  | member hmem h => exact ⟨_, hmem, h⟩
  | whole hunknown hunion =>
      refine ⟨t, ?_, .whole hunknown hunion⟩
      cases t with
      | union members => exact (hunion members rfl).elim
      | _ => exact List.mem_cons_self

theorem Known.alternative {t a : Ty} (h : t.Known) (ha : a ∈ t.alternatives) : a.Known := by
  cases t with
  | union members => exact h.child ha
  | _ =>
    rw [List.mem_singleton.1 ha]
    exact h

theorem known_unionOf {types : List Ty} (hne : types ≠ []) (h : ∀ t ∈ types, t.Known) :
    (unionOf types).Known := by
  have halternatives : ∀ a ∈ types.flatMap alternatives, a.Known := by
    intro a ha
    obtain ⟨t, ht, ha⟩ := List.mem_flatMap.1 ha
    exact (h t ht).alternative ha
  rcases unionOf_cases types with ⟨hnil, -⟩ | ⟨hmem, -⟩ | ⟨members, heq, hmem, a, ha, -⟩
  · obtain ⟨t, ht⟩ := List.exists_mem_of_ne_nil types hne
    obtain ⟨a, ha, -⟩ := (h t ht).solid.exists_alternative
    rw [List.flatMap_eq_nil_iff.1 hnil t ht] at ha
    cases ha
  · exact halternatives _ hmem
  · rw [heq]
    refine known_of_children nofun ?_ fun child hchild =>
      halternatives child ((hmem child).1 hchild)
    rintro ⟨⟩
    cases ha

theorem exists_alternative_any {t : Ty} (h : Inside .any t) :
    ∃ a ∈ t.alternatives, Inside .any a := by
  cases t with
  | union members =>
      obtain heq | hchild := inside_iff.1 h
      · cases heq
      · exact hchild
  | _ => exact ⟨_, List.mem_cons_self, h⟩

theorem alternatives_of_not_union {t : Ty} (h : ∀ members, t ≠ .union members) :
    t.alternatives = [t] := by
  cases t with
  | union members => exact (h members rfl).elim
  | _ => rfl

/-- Where all alternatives of what a type has relaxed to are one type, the alternatives of the type
relax to it, and it is no union if it is not the type. -/
theorem RelaxesTo.alternatives {t t' u : Ty} (h : RelaxesTo t t')
    (hsame : ∀ a ∈ t'.alternatives, a = u) :
    (∀ a ∈ t.alternatives, RelaxesTo a u) ∧ (t' ≠ t → ∀ members, u ≠ .union members) := by
  cases h with
  | refl =>
      refine ⟨fun a ha => ?_, fun hne => (hne rfl).elim⟩
      rw [hsame a ha]
      exact .refl u
  | any h =>
      obtain rfl : Ty.any = u := hsame _ List.mem_cons_self
      exact ⟨fun a ha => .any (h.alternative ha), fun _ _ => nofun⟩
  | array h =>
      obtain rfl := hsame _ List.mem_cons_self
      exact ⟨List.forall_mem_singleton.2 (.array h), fun _ _ => nofun⟩
  | optional h =>
      obtain rfl := hsame _ List.mem_cons_self
      exact ⟨List.forall_mem_singleton.2 (.optional h), fun _ _ => nofun⟩
  | object hlength hnodup hnames h =>
      obtain rfl := hsame _ List.mem_cons_self
      exact ⟨List.forall_mem_singleton.2 (.object hlength hnodup hnames h), fun _ _ => nofun⟩
  | function hlength hparams hresult =>
      obtain rfl := hsame _ List.mem_cons_self
      exact ⟨List.forall_mem_singleton.2 (.function hlength hparams hresult), fun _ _ => nofun⟩
  | merge hne hunion hany h =>
      rw [alternatives_of_not_union hunion] at hsame
      obtain rfl := hsame _ List.mem_cons_self
      exact ⟨h, fun _ => hunion⟩
  | blur hsolid hany hapart =>
      obtain ⟨a, ha, b, hb, hne⟩ := hapart
      exact (hne ((hsame a ha).trans (hsame b hb).symm)).elim

theorem exists_ne_of_relaxesTo {types types' : List Ty} (h : List.Forall₂ RelaxesTo types types')
    (hne : types' ≠ types) :
    ∃ t ∈ types, ∃ t' ∈ types', RelaxesTo t t' ∧ t' ≠ t := by
  induction h with
  | nil => exact (hne rfl).elim
  | @cons t t' types types' h hrest ih =>
      by_cases hsame : t' = t
      · have hrest' : types' ≠ types := by
          rintro rfl
          exact hne (by rw [hsame])
        obtain ⟨u, hu, u', hu', hrelaxes⟩ := ih hrest'
        exact ⟨u, List.mem_cons_of_mem _ hu, u', List.mem_cons_of_mem _ hu', hrelaxes⟩
      · exact ⟨t, List.mem_cons_self, t', List.mem_cons_self, h, hsame⟩

theorem exists_relaxesTo_of_mem {types types' : List Ty} (h : List.Forall₂ RelaxesTo types types')
    {t : Ty} (ht : t ∈ types) : ∃ t' ∈ types', RelaxesTo t t' := by
  induction h with
  | nil => cases ht
  | @cons u u' types types' hu hrest ih =>
      rcases List.mem_cons.1 ht with rfl | ht
      · exact ⟨u', List.mem_cons_self, hu⟩
      · obtain ⟨t', ht', hrelaxes⟩ := ih ht
        exact ⟨t', List.mem_cons_of_mem _ ht', hrelaxes⟩

theorem relaxesTo_unionOf {types types' : List Ty} (h : List.Forall₂ RelaxesTo types types') :
    RelaxesTo (unionOf types) (unionOf types') := by
  by_cases hne : types' = types
  · rw [hne]
    exact .refl _
  obtain ⟨t, ht, t', ht', hrelaxes, hchanged⟩ := exists_ne_of_relaxesTo h hne
  -- What has changed gives a solid alternative on one side and one with `any` on the other.
  obtain ⟨s, hs, hsolid⟩ := (hrelaxes.solid hchanged).exists_alternative
  obtain ⟨a', ha', hany⟩ := exists_alternative_any (hrelaxes.eq_or_any.resolve_left hchanged)
  have hs : s ∈ types.flatMap Ty.alternatives := List.mem_flatMap.2 ⟨t, ht, hs⟩
  have ha' : a' ∈ types'.flatMap Ty.alternatives := List.mem_flatMap.2 ⟨t', ht', ha'⟩
  rcases unionOf_cases types' with ⟨hnil, -⟩ | ⟨-, hsame⟩ | ⟨members', heq', hmem', hapart⟩
  · rw [hnil] at ha'
    cases ha'
  · -- All alternatives have fallen together.
    have halternatives : ∀ {t t' : Ty}, RelaxesTo t t' → t' ∈ types' →
        (∀ a ∈ t.alternatives, RelaxesTo a (unionOf types')) ∧
          (t' ≠ t → ∀ members, unionOf types' ≠ .union members) := by
      intro t t' h ht'
      exact h.alternatives fun a ha => hsame a (List.mem_flatMap.2 ⟨t', ht', ha⟩)
    have hall : ∀ a ∈ types.flatMap Ty.alternatives, RelaxesTo a (unionOf types') := by
      intro a ha
      obtain ⟨t, ht, ha⟩ := List.mem_flatMap.1 ha
      obtain ⟨t', ht', hrelaxes⟩ := exists_relaxesTo_of_mem h ht
      exact (halternatives hrelaxes ht').1 a ha
    have hunion := (halternatives hrelaxes ht').2 hchanged
    rcases unionOf_cases types with ⟨hnil, -⟩ | ⟨hmem, -⟩ | ⟨members, heq, hmem, -⟩
    · rw [hnil] at hs
      cases hs
    · exact hall _ hmem
    · rw [heq]
      refine .merge ?_ hunion ?_ fun m hm => hall m ((hmem m).1 hm)
      · rintro rfl
        exact List.not_mem_nil ((hmem s).2 hs)
      · rw [← hsame a' ha']
        exact hany
  · rw [heq']
    refine .blur ?_ (hany.of_child ((hmem' a').2 ha')) hapart
    rcases unionOf_cases types with ⟨hnil, -⟩ | ⟨-, hsame⟩ | ⟨members, heq, hmem, -⟩
    · rw [hnil] at hs
      cases hs
    · rw [← hsame s hs]
      exact hsolid
    · rw [heq]
      exact .member ((hmem s).2 hs) hsolid

/-! ## Clear types -/

/-- Less is known of a type, and it is clear unless it is as it was. -/
structure Tame (t t' : Ty) : Prop where
  relaxes : RelaxesTo t t'
  clear : t' = t ∨ t'.Clear

namespace Tame

variable {t t' : Ty}

theorem refl (t : Ty) : Tame t t := ⟨.refl t, .inl rfl⟩

theorem any (h : t.Known) : Tame t .any := ⟨.any h, .inr clear_any⟩

/-- A blurred union is as it was. -/
theorem eq_of_blur {members : List Ty} (h : Tame t (.union members))
    (hany : Inside .any (.union members)) : .union members = t :=
  h.clear.resolve_right fun hclear => hclear members .refl hany

theorem eq_any (h : Tame .any t') : t' = .any := by
  obtain ⟨hrelaxes, hclear⟩ := id h
  cases hrelaxes with
  | refl => rfl
  | any => rfl
  | blur _ hany _ => exact h.eq_of_blur hany

theorem eq_unknown (h : Tame .unknown t') : t' = .unknown := h.relaxes.unknown_iff.2 rfl

theorem primitive {p : Primitive} (h : Tame (.primitive p) t') : t' = .primitive p ∨ t' = .any := by
  obtain ⟨hrelaxes, hclear⟩ := id h
  cases hrelaxes with
  | refl => exact .inl rfl
  | any => exact .inr rfl
  | blur _ hany _ => exact .inl (h.eq_of_blur hany)

theorem component {name : String} (h : Tame (.component name) t') :
    t' = .component name ∨ t' = .any := by
  obtain ⟨hrelaxes, hclear⟩ := id h
  cases hrelaxes with
  | refl => exact .inl rfl
  | any => exact .inr rfl
  | blur _ hany _ => exact .inl (h.eq_of_blur hany)

theorem array {e : Ty} (h : Tame (.array e) t') :
    t' = .any ∨ ∃ e', t' = .array e' ∧ Tame e e' := by
  obtain ⟨hrelaxes, hclear⟩ := id h
  cases hrelaxes with
  | refl => exact .inr ⟨e, rfl, refl e⟩
  | any => exact .inl rfl
  | array helement =>
      refine .inr ⟨_, rfl, helement, hclear.imp ?_ fun hclear => hclear.child List.mem_cons_self⟩
      exact fun heq => Ty.array.inj heq
  | blur _ hany _ => cases h.eq_of_blur hany

theorem optional {e : Ty} (h : Tame (.optional e) t') :
    t' = .any ∨ ∃ e', t' = .optional e' ∧ Tame e e' := by
  obtain ⟨hrelaxes, hclear⟩ := id h
  cases hrelaxes with
  | refl => exact .inr ⟨e, rfl, refl e⟩
  | any => exact .inl rfl
  | optional hinner =>
      refine .inr ⟨_, rfl, hinner, hclear.imp ?_ fun hclear => hclear.child List.mem_cons_self⟩
      exact fun heq => Ty.optional.inj heq
  | blur _ hany _ => cases h.eq_of_blur hany

theorem union {members : List Ty} (h : Tame (.union members) t') :
    t' = .union members ∨ t' = .any ∨
      (members ≠ [] ∧ (∀ others, t' ≠ .union others) ∧ Inside .any t' ∧
        ∀ m ∈ members, Tame m t') := by
  obtain ⟨hrelaxes, hclear⟩ := id h
  cases hrelaxes with
  | refl => exact .inl rfl
  | any => exact .inr (.inl rfl)
  | merge hne hunion hany hmembers =>
      have hclear : Clear t' := hclear.resolve_left (hunion members)
      exact .inr (.inr ⟨hne, hunion, hany, fun m hm => ⟨hmembers m hm, .inr hclear⟩⟩)
  | blur _ hany _ => exact .inl (h.eq_of_blur hany)

theorem object {fields : List TypedName} (h : Tame (.object fields) t') :
    t' = .any ∨ ∃ fields', t' = .object fields' ∧
      (fields' = fields ∨ (fields.map TypedName.name).Nodup) ∧ fields.length = fields'.length ∧
      ∀ pair ∈ fields.zip fields', pair.2.name = pair.1.name ∧ Tame pair.1.type pair.2.type := by
  obtain ⟨hrelaxes, hclear⟩ := id h
  cases hrelaxes with
  | refl =>
      refine .inr ⟨fields, rfl, .inl rfl, rfl, fun pair hpair => ?_⟩
      rw [eq_of_mem_zip_self hpair]
      exact ⟨rfl, refl _⟩
  | any => exact .inl rfl
  | @object _ fields' hlength hnodup hnames htypes =>
      refine .inr ⟨fields', rfl, .inr hnodup, hlength, fun pair hpair => ⟨hnames pair hpair,
        htypes pair hpair, ?_⟩⟩
      apply hclear.imp
      · intro heq
        cases heq
        rw [eq_of_mem_zip_self hpair]
      · exact fun hclear => hclear.child (List.mem_map_of_mem (List.of_mem_zip hpair).2)
  | blur _ hany _ => cases h.eq_of_blur hany

theorem function {params : List Ty} {result : Ty} {isAsync : Bool}
    (h : Tame (.function params result isAsync) t') :
    t' = .any ∨ ∃ params' result', t' = .function params' result' isAsync ∧
      params.length = params'.length ∧ (∀ pair ∈ params.zip params', Tame pair.1 pair.2) ∧
      Tame result result' := by
  obtain ⟨hrelaxes, hclear⟩ := id h
  cases hrelaxes with
  | refl =>
      refine .inr ⟨params, result, rfl, rfl, fun pair hpair => ?_, refl _⟩
      rw [eq_of_mem_zip_self hpair]
      exact refl _
  | any => exact .inl rfl
  | @function _ params' _ result' _ hlength hparams hresult =>
      refine .inr ⟨params', result', rfl, hlength, fun pair hpair => ⟨hparams pair hpair, ?_⟩,
        hresult, ?_⟩
      · apply hclear.imp
        · intro heq
          cases heq
          exact eq_of_mem_zip_self hpair
        · exact fun hclear => hclear.child (List.mem_append_left _ (List.of_mem_zip hpair).2)
      · apply hclear.imp
        · intro heq
          cases heq
          rfl
        · exact fun hclear => hclear.child (List.mem_append_right _ List.mem_cons_self)
  | blur _ hany _ => cases h.eq_of_blur hany

end Tame

end ComponentLang.Ty
