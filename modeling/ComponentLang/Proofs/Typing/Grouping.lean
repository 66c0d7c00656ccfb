import ComponentLang.Proofs.Typing.Normal

/-!
# Unions of unions

A conditional in a conditional makes a union of unions, and so do lists of lists and several
returns. Whichever of the types are put together first, the members come out the same and in the
same order: the first of several equal ones stays, and this is the first one before and after the
others are dropped. Types in another order give the same members in another order.
-/

/-! ## Dropping what comes again -/

namespace ComponentLang

variable {α β : Type} [BEq α] [LawfulBEq α]

theorem eraseDups_of_nodup {items : List α} (h : items.Nodup) : items.eraseDups = items := by
  induction items with
  | nil => rfl
  | cons a rest ih =>
      obtain ⟨hfirst, hrest⟩ := List.nodup_cons.1 h
      have hkept : rest.filter (fun b => !b == a) = rest := by
        rw [List.filter_eq_self]
        intro b hb
        have hne : b ≠ a := fun heq => hfirst (heq ▸ hb)
        simpa using hne
      rw [List.eraseDups_cons, hkept, ih hrest]

theorem eraseDups_eraseDups (items : List α) : items.eraseDups.eraseDups = items.eraseDups :=
  eraseDups_of_nodup (nodup_eraseDups items)

theorem eraseDups_filter (keep : α → Bool) (items : List α) :
    (items.filter keep).eraseDups = items.eraseDups.filter keep := by
  match items with
  | [] => rfl
  | a :: rest =>
      have ih := eraseDups_filter keep (rest.filter fun b => !b == a)
      rw [List.eraseDups_cons]
      by_cases ha : keep a = true
      · rw [List.filter_cons_of_pos ha, List.filter_cons_of_pos ha, List.eraseDups_cons,
          List.filter_comm, ih]
      · -- What is kept is not `a`, so it makes no difference that `a` is taken out first.
        have hkept : rest.filter keep = (rest.filter fun b => !b == a).filter keep := by
          rw [List.filter_filter]
          refine List.filter_congr fun b _ => ?_
          by_cases hb : b = a
          · simp [hb, ha]
          · simp [hb]
        rw [List.filter_cons_of_neg ha, List.filter_cons_of_neg ha, hkept, ih]
termination_by items.length
decreasing_by
  exact Nat.lt_succ_of_le (List.length_filter_le _ rest)

/-- Of two lists in a row it does not matter whether each is without repetitions before. -/
theorem eraseDups_append_eraseDups (items others : List α) :
    (items.eraseDups ++ others.eraseDups).eraseDups = (items ++ others).eraseDups := by
  have hsame : others.eraseDups.removeAll items.eraseDups = (others.removeAll items).eraseDups := by
    unfold List.removeAll
    rw [eraseDups_filter]
    refine List.filter_congr fun b _ => ?_
    simp
  rw [List.eraseDups_append, List.eraseDups_append, hsame, eraseDups_eraseDups, eraseDups_eraseDups]

theorem eraseDups_flatMap_eraseDups (f : β → List α) (items : List β) :
    (items.flatMap fun b => (f b).eraseDups).eraseDups = (items.flatMap f).eraseDups := by
  induction items with
  | nil => rfl
  | cons b rest ih =>
      rw [List.flatMap_cons, List.flatMap_cons, ← eraseDups_append_eraseDups, eraseDups_eraseDups,
        ih, eraseDups_append_eraseDups]

theorem perm_eraseDups {items others : List α} (h : items.Perm others) :
    items.eraseDups.Perm others.eraseDups := by
  rw [List.perm_ext_iff_of_nodup (nodup_eraseDups items) (nodup_eraseDups others)]
  intro a
  rw [List.mem_eraseDups, List.mem_eraseDups, h.mem_iff]

/-! ## Grouping -/

namespace Ty

variable {types others : List Ty}

/-- The type is no union, or one with two different members or more of which none is a union. -/
def FlatUnion : Ty → Prop
  | .union members =>
    2 ≤ members.length ∧ members.Nodup ∧ ∀ m ∈ members, ∀ inner, m ≠ .union inner
  | _ => True

/-- The types that a check gives are normal, so they may be put together in any groups. -/
theorem Normal.flatUnion {t : Ty} (h : t.Normal) : t.FlatUnion := by
  cases t with
  | union members => exact h.here
  | _ => trivial

theorem FlatUnion.alternatives_ne_nil {t : Ty} (h : t.FlatUnion) : t.alternatives ≠ [] := by
  cases t with
  | union members =>
      rintro (rfl : members = [])
      exact absurd h.1 (by decide)
  | _ => exact List.cons_ne_nil _ _

theorem FlatUnion.alternative {t a : Ty} (h : t.FlatUnion) (ha : a ∈ t.alternatives)
    (inner : List Ty) : a ≠ .union inner := by
  cases t with
  | union members => exact h.2.2 a ha inner
  | _ =>
      rw [List.mem_singleton.1 ha]
      exact nofun

theorem unionOf_congr
    (h : (types.flatMap alternatives).eraseDups = (others.flatMap alternatives).eraseDups) :
    unionOf types = unionOf others := by
  unfold unionOf
  rw [h]

/-- The union of flat types gives to another union what all of them give, each once. -/
theorem alternatives_unionOf (hne : types ≠ []) (h : ∀ t ∈ types, t.FlatUnion) :
    (unionOf types).alternatives = (types.flatMap alternatives).eraseDups := by
  have hflat : ∀ a ∈ (types.flatMap alternatives).eraseDups, ∀ inner, a ≠ .union inner := by
    intro a ha
    obtain ⟨t, ht, ha⟩ := List.mem_flatMap.1 (List.mem_eraseDups.1 ha)
    exact (h t ht).alternative ha
  have hsome : (types.flatMap alternatives).eraseDups ≠ [] := by
    obtain ⟨t, ht⟩ := List.exists_mem_of_ne_nil types hne
    obtain ⟨a, ha⟩ := List.exists_mem_of_ne_nil _ (h t ht).alternatives_ne_nil
    exact List.ne_nil_of_mem (List.mem_eraseDups.2 (List.mem_flatMap.2 ⟨t, ht, ha⟩))
  unfold unionOf
  generalize (types.flatMap alternatives).eraseDups = members at hflat hsome
  split
  next => exact (hsome rfl).elim
  next t => exact alternatives_of_not_union (hflat t List.mem_cons_self)
  next => rfl

/-- Types may be put together group by group. -/
theorem unionOf_map_unionOf {groups : List (List Ty)}
    (h : ∀ g ∈ groups, g ≠ [] ∧ ∀ t ∈ g, t.FlatUnion) :
    unionOf (groups.map unionOf) = unionOf groups.flatten := by
  apply unionOf_congr
  have hgroups : (groups.map unionOf).flatMap alternatives =
      groups.flatMap fun g => (g.flatMap alternatives).eraseDups := by
    rw [List.flatMap_map]
    refine List.flatMap_congr fun g hg => ?_
    exact alternatives_unionOf (h g hg).1 (h g hg).2
  have hall : groups.flatten.flatMap alternatives = groups.flatMap (·.flatMap alternatives) := by
    rw [← List.flatMap_id, List.flatMap_assoc]
    rfl
  rw [hgroups, hall, eraseDups_flatMap_eraseDups]

/-! ## Order -/

/-- The same type, up to the order of the members of a union. -/
inductive Reordered : Ty → Ty → Prop
  | same (t : Ty) : Reordered t t
  | union {members others : List Ty} (h : members.Perm others) :
      Reordered (.union members) (.union others)

theorem reordered_unionOf (h : types.Perm others) : (unionOf types).Reordered (unionOf others) := by
  have hperm := perm_eraseDups (h.flatMap_right alternatives)
  unfold unionOf
  generalize (types.flatMap alternatives).eraseDups = members at hperm
  generalize (others.flatMap alternatives).eraseDups = reordered at hperm
  split
  next =>
    obtain rfl := List.nil_perm.1 hperm
    exact .same .unknown
  next t =>
    obtain rfl := List.perm_singleton.1 hperm.symm
    exact .same t
  next hnil hsingle =>
    split
    next => exact (hnil (List.perm_nil.1 hperm)).elim
    next t => exact (hsingle t (List.perm_singleton.1 hperm)).elim
    next => exact .union hperm

/-- The union of two unions is the union of all their types, in the same order, and types in
another order give the same union up to the order of its members. -/
theorem unionOf_regroup {xs ys : List Ty} (hxs : xs ≠ []) (hys : ys ≠ [])
    (hx : ∀ t ∈ xs, t.FlatUnion) (hy : ∀ t ∈ ys, t.FlatUnion) :
    unionOf [unionOf xs, unionOf ys] = unionOf (xs ++ ys) ∧
      ∀ xs', xs'.Perm xs → (unionOf xs').Reordered (unionOf xs) := by
  refine ⟨?_, fun _ hperm => reordered_unionOf hperm⟩
  have hgroups : ∀ g ∈ [xs, ys], g ≠ [] ∧ ∀ t ∈ g, t.FlatUnion :=
    List.forall_mem_cons.2 ⟨⟨hxs, hx⟩, List.forall_mem_singleton.2 ⟨hys, hy⟩⟩
  simpa using unionOf_map_unionOf hgroups

/-- `[Int | String, Int]` -/
def countTypes : List Ty := [.union [.int, .string], .int]

/-- `[String, Bool | null, Array<Int>]`, one of which is among the types of a count too -/
def entryTypes : List Ty := [.string, .union [.bool, .null], .array .int]

theorem unionOf_regroup_entryTypes :
    countTypes ≠ [] ∧ entryTypes ≠ [] ∧ (∀ t ∈ countTypes, t.FlatUnion) ∧
      (∀ t ∈ entryTypes, t.FlatUnion) ∧
      unionOf [unionOf countTypes, unionOf entryTypes] =
        .union [.int, .string, .bool, .null, .array .int] ∧
      (unionOf countTypes.reverse).Reordered (unionOf countTypes) := by
  have hcount : ∀ t ∈ countTypes, t.FlatUnion := by simp [countTypes, FlatUnion, int, string]
  have hentry : ∀ t ∈ entryTypes, t.FlatUnion := by simp [entryTypes, FlatUnion, bool, null, string]
  obtain ⟨hgrouped, hreordered⟩ :=
    unionOf_regroup (List.cons_ne_nil _ _) (List.cons_ne_nil _ _) hcount hentry
  exact ⟨List.cons_ne_nil _ _, List.cons_ne_nil _ _, hcount, hentry, hgrouped.trans (by decide),
    hreordered _ (List.reverse_perm _)⟩

/-- A union in a union is not flat, and there the grouping shows. -/
example :
    unionOf [unionOf [.union [.union [.int, .string]]], unionOf [.null]] ≠
      unionOf ([.union [.union [.int, .string]]] ++ [.null]) := by decide

end Ty

end ComponentLang
