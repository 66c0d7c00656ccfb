import ComponentLang.Proofs.Typing.Everywhere
import ComponentLang.Proofs.Typing.Relaxes.Assignable

/-!
# Assignability of strict types

`any` goes anywhere and takes anything, and an optional takes `null` and yet goes where its inner
type goes, so a value may be passed on through either to a place that would not take it. Among
strict types, which have neither in them, it may not: assignability is transitive. The induction is
on the joint size of the three types, since the parameters of functions change places.
-/
namespace ComponentLang.Ty

/-- Neither `any` nor an optional is in the type, at any depth. -/
def Strict (t : Ty) : Prop := t.Everywhere fun inner => inner ≠ .any ∧ ∀ e, inner ≠ .optional e

variable {a b c t : Ty}

namespace Strict

theorem ne_any (h : t.Strict) : t ≠ .any := h.here.1

theorem ne_optional (h : t.Strict) (e : Ty) : t ≠ .optional e := h.here.2 e

theorem single (h : t.Strict) (hunknown : t ≠ .unknown) (hunion : ¬ ∃ members, t = .union members) :
    t.Single :=
  ⟨h.ne_any, hunknown, fun members heq => hunion ⟨members, heq⟩⟩

theorem member {members : List Ty} (h : Strict (.union members)) {m : Ty} (hm : m ∈ members) :
    m.Strict :=
  h.child hm

theorem field {fields : List TypedName} (h : Strict (.object fields)) {n : TypedName}
    (hn : n ∈ fields) : n.type.Strict :=
  h.child (List.mem_map_of_mem hn)

theorem param {params : List Ty} {result : Ty} {isAsync : Bool}
    (h : Strict (.function params result isAsync)) {p : Ty} (hp : p ∈ params) : p.Strict :=
  h.child (List.mem_append_left _ hp)

theorem result {params : List Ty} {result : Ty} {isAsync : Bool}
    (h : Strict (.function params result isAsync)) : result.Strict :=
  h.child (List.mem_append_right _ List.mem_cons_self)

end Strict

theorem assignable_primitive {p q : Primitive} :
    assignable (.primitive p) (.primitive q) = true ↔ p = q ∨ (p = .int ∧ q = .float) := by
  cases p <;> cases q <;> decide

theorem exists_field_of_lookup? {name : String} {fields : List TypedName}
    (h : TypedName.lookup? name fields = some t) : ∃ n ∈ fields, n.name = name ∧ n.type = t := by
  induction fields with
  | nil => cases h
  | cons field rest ih =>
      unfold TypedName.lookup? at h
      split at h
      next hname => exact ⟨field, List.mem_cons_self, hname, Option.some.inj h⟩
      next =>
        obtain ⟨n, hn, hfound⟩ := ih h
        exact ⟨n, List.mem_cons_of_mem _ hn, hfound⟩

/-! ## The cases -/

/-- Assignability of strict types that are smaller together is transitive. -/
def TransitiveBelow (size : Nat) : Prop :=
  ∀ {a b c : Ty}, a.size + b.size + c.size < size → a.Strict → b.Strict → c.Strict →
    a.assignable b = true → b.assignable c = true → a.assignable c = true

/-- Each member of a union goes where the union goes. -/
theorem assignable_trans_of_union {members : List Ty}
    (ih : TransitiveBelow ((Ty.union members).size + b.size + c.size))
    (ha : Strict (.union members)) (hb : b.Strict) (hc : c.Strict)
    (hab : (Ty.union members).assignable b = true) (hbc : b.assignable c = true) :
    (Ty.union members).assignable c = true := by
  obtain rfl | rfl | ⟨hunknown, hall⟩ := union_assignable.1 hab
  · exact (hb.ne_any rfl).elim
  · exact hbc
  · have hunknown' : c ≠ .unknown := by
      rintro rfl
      exact (assignable_unknown.1 hbc).elim hunknown hb.ne_any
    refine union_assignable.2 (.inr (.inr ⟨hunknown', fun m hm => ?_⟩))
    have := size_lt_size_union hm
    exact ih (by omega) (ha.member hm) hb hc (hall m hm) hbc

/-- What goes to a union goes to one of its members, and on from there. -/
theorem assignable_trans_through_union {members : List Ty}
    (ih : TransitiveBelow (a.size + (Ty.union members).size + c.size)) (ha : a.Strict)
    (hsingle : a.Single) (hb : Strict (.union members)) (hc : c.Strict)
    (hab : a.assignable (.union members) = true) (hbc : (Ty.union members).assignable c = true) :
    a.assignable c = true := by
  obtain ⟨m, hm, ham⟩ := (assignable_union hsingle).1 hab
  obtain rfl | rfl | ⟨-, hall⟩ := union_assignable.1 hbc
  · exact (hc.ne_any rfl).elim
  · exact hab
  · have := size_lt_size_union hm
    exact ih (by omega) ha (hb.member hm) hc ham (hall m hm)

/-- A field that is asked for is found in the object between, and with it in the first. -/
theorem assignable_trans_object {fields between required : List TypedName}
    (ih : TransitiveBelow
      ((Ty.object fields).size + (Ty.object between).size + (Ty.object required).size))
    (ha : Strict (.object fields)) (hb : Strict (.object between)) (hc : Strict (.object required))
    (hab : (Ty.object fields).assignable (.object between) = true)
    (hbc : (Ty.object between).assignable (.object required) = true) :
    (Ty.object fields).assignable (.object required) = true := by
  obtain rfl | hab := assignable_object.1 hab
  · exact hbc
  obtain rfl | hbc := assignable_object.1 hbc
  · exact assignable_object.2 (.inr hab)
  refine assignable_object.2 (.inr fun r hr => ?_)
  obtain ⟨u, hlookup, hur⟩ := hbc r hr
  obtain ⟨n, hn, hname, rfl⟩ := exists_field_of_lookup? hlookup
  obtain ⟨t, hlookup', htn⟩ := hab n hn
  rw [hname] at hlookup'
  obtain ⟨field, hfield, -, rfl⟩ := exists_field_of_lookup? hlookup'
  refine ⟨field.type, hlookup', ih ?_ (ha.field hfield) (hb.field hn) (hc.field hr) htn hur⟩
  have := size_le_sizeFields hfield
  have := size_le_sizeFields hn
  have := size_le_sizeFields hr
  simp only [size]
  omega

/-- At the parameters the first function and the last change places. -/
theorem assignable_trans_function {params between required : List Ty} {r s u : Ty} {x y z : Bool}
    (ih : TransitiveBelow ((Ty.function params r x).size + (Ty.function between s y).size +
      (Ty.function required u z).size))
    (ha : Strict (.function params r x)) (hb : Strict (.function between s y))
    (hc : Strict (.function required u z))
    (hab : (Ty.function params r x).assignable (.function between s y) = true)
    (hbc : (Ty.function between s y).assignable (.function required u z) = true) :
    (Ty.function params r x).assignable (.function required u z) = true := by
  obtain ⟨hlength, htakes, hgives⟩ := assignable_function.1 hab
  obtain ⟨hlength', htakes', hgives'⟩ := assignable_function.1 hbc
  refine assignable_function.2 ⟨by omega, fun pair hpair => ?_,
    ih ?_ ha.result hb.result hc.result hgives hgives'⟩
  · obtain ⟨i, hi, rfl⟩ := List.getElem_of_mem hpair
    rw [List.length_zip] at hi
    rw [List.getElem_zip]
    have hparam := List.getElem_mem (l := params) (n := i) (by omega)
    have hbetween := List.getElem_mem (l := between) (n := i) (by omega)
    have hrequired := List.getElem_mem (l := required) (n := i) (by omega)
    have htake := htakes (between[i], params[i]) (getElem_mem_zip _ _)
    have htake' := htakes' (required[i], between[i]) (getElem_mem_zip _ _)
    refine ih ?_ (hc.param hrequired) (hb.param hbetween) (ha.param hparam) htake' htake
    have := size_le_sizeAll hparam
    have := size_le_sizeAll hbetween
    have := size_le_sizeAll hrequired
    simp only [size]
    omega
  · simp only [size]
    omega

/-- Of three types none of which is a union or unknown, all have one form. -/
theorem assignable_trans_single (ih : TransitiveBelow (a.size + b.size + c.size)) (ha : a.Strict)
    (hb : b.Strict) (hc : c.Strict) (hsingle : a.Single) (hsingleB : b.Single)
    (hsingleC : c.Single) (hab : a.assignable b = true) (hbc : b.assignable c = true) :
    a.assignable c = true := by
  have halike := alike_of_assignable hsingle hsingleB ha.ne_optional hb.ne_optional hab
  have halike' := alike_of_assignable hsingleB hsingleC hb.ne_optional hc.ne_optional hbc
  cases halike with
  | primitive p q =>
      cases halike' with
      | primitive _ r =>
          rw [assignable_primitive] at hab hbc ⊢
          rcases hab with rfl | ⟨rfl, rfl⟩
          · exact hbc
          · exact .inr ⟨rfl, (hbc.resolve_right nofun).symm⟩
  | component name => exact hbc
  | array e f =>
      cases halike' with
      | array _ g =>
          rw [assignable_array] at hab hbc ⊢
          refine ih ?_ (ha.child List.mem_cons_self) (hb.child List.mem_cons_self)
            (hc.child List.mem_cons_self) hab hbc
          simp only [size]
          omega
  | object fields between =>
      cases halike' with
      | object _ required => exact assignable_trans_object ih ha hb hc hab hbc
  | function params between result other isAsync isAsync' =>
      cases halike' with
      | function _ required _ last _ isAsync'' =>
          exact assignable_trans_function ih ha hb hc hab hbc

/-- What may be stored where a strict type is expected may be stored wherever that type may. -/
theorem assignable_trans_of_strict (ha : a.Strict) (hb : b.Strict) (hc : c.Strict)
    (hab : a.assignable b = true) (hbc : b.assignable c = true) : a.assignable c = true := by
  induction hsize : a.size + b.size + c.size using Nat.strongRecOn generalizing a b c with
  | _ size ih =>
      subst hsize
      have ih : TransitiveBelow (a.size + b.size + c.size) :=
        fun hless ha hb hc hab hbc => ih _ hless ha hb hc hab hbc rfl
      by_cases hunionA : ∃ members, a = .union members
      · obtain ⟨members, rfl⟩ := hunionA
        exact assignable_trans_of_union ih ha hb hc hab hbc
      by_cases hunknownA : a = .unknown
      · subst hunknownA
        obtain rfl := (unknown_assignable.1 hab).resolve_right hb.ne_any
        exact hbc
      have hsingle := ha.single hunknownA hunionA
      by_cases hunionB : ∃ members, b = .union members
      · obtain ⟨members, rfl⟩ := hunionB
        exact assignable_trans_through_union ih ha hsingle hb hc hab hbc
      by_cases hunknownB : b = .unknown
      · subst hunknownB
        exact ((assignable_unknown.1 hab).elim hunknownA ha.ne_any).elim
      have hsingleB := hb.single hunknownB hunionB
      by_cases hunionC : ∃ members, c = .union members
      · obtain ⟨members, rfl⟩ := hunionC
        obtain ⟨m, hm, hbm⟩ := (assignable_union hsingleB).1 hbc
        have := size_lt_size_union hm
        exact (assignable_union hsingle).2
          ⟨m, hm, ih (by omega) ha hb (hc.member hm) hab hbm⟩
      by_cases hunknownC : c = .unknown
      · subst hunknownC
        exact ((assignable_unknown.1 hbc).elim hunknownB hb.ne_any).elim
      exact assignable_trans_single ih ha hb hc hsingle hsingleB (hc.single hunknownC hunionC)
        hab hbc

/-- `(Float | String) => {x: Int, x: String, y: unknown}` -/
def wideReader : Ty :=
  .function [.union [.float, .string]] (.object [⟨"x", .int⟩, ⟨"x", .string⟩, ⟨"y", .unknown⟩]) false

/-- `async (Float) => {x: Int, y: unknown}` -/
def floatReader : Ty := .function [.float] (.object [⟨"x", .int⟩, ⟨"y", .unknown⟩]) true

/-- `String | (Int) => {x: Float}` -/
def stringOrIntReader : Ty := .union [.string, .function [.int] (.object [⟨"x", .float⟩]) false]

theorem wideReader_assignable :
    wideReader.Strict ∧ floatReader.Strict ∧ stringOrIntReader.Strict ∧
      wideReader.assignable floatReader = true ∧
      floatReader.assignable stringOrIntReader = true ∧
      wideReader.assignable stringOrIntReader = true := by
  have hwide : wideReader.Strict := by simp [Strict, wideReader, float, string, int]
  have hfloat : floatReader.Strict := by simp [Strict, floatReader, float, int]
  have hint : stringOrIntReader.Strict := by simp [Strict, stringOrIntReader, float, string, int]
  have hab : wideReader.assignable floatReader = true := by decide
  have hbc : floatReader.assignable stringOrIntReader = true := by decide
  exact ⟨hwide, hfloat, hint, hab, hbc, assignable_trans_of_strict hwide hfloat hint hab hbc⟩

/-- A value may be passed on through `any` or an optional to a place that would not take it. -/
example : assignable .string .any ∧ assignable .any .int ∧ ¬ assignable .string .int := by decide

example : assignable .null (.optional .int) ∧ assignable (.optional .int) .int ∧
    ¬ assignable .null .int := by decide

end ComponentLang.Ty
