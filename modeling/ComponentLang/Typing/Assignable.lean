import ComponentLang.Typing.Ty

/-!
# Assignability

Whether a value of one type may be stored where another type is expected. Both types get smaller
along the definition, though they change places at the parameters of functions, so their joint
size bounds it; `assignable_eq` is the definition without the bound.
-/
namespace ComponentLang.Ty

mutual

def size : Ty → Nat
  | .primitive _ => 1
  | .array element => size element + 1
  | .object fields => sizeFields fields + 1
  | .function params result _ => sizeAll params + size result + 1
  | .union members => sizeAll members + 1
  | .optional inner => size inner + 1
  | .component _ => 1
  | .any => 1
  | .unknown => 1

def sizeAll : List Ty → Nat
  | [] => 0
  | t :: rest => size t + sizeAll rest

def sizeFields : List TypedName → Nat
  | [] => 0
  | ⟨_, type⟩ :: rest => size type + sizeFields rest

end

/-- One step of assignability, in terms of `sub` on smaller types. Equal types are assignable, and
`any` in either direction, while `unknown` is assignable to nothing else and takes nothing else. A
union goes where all its members go and takes what one of them takes. An optional takes `null` and
what its inner type takes, and goes where its inner type goes. Integers go where floats are
expected. An object has every field that is asked for. A function has as many parameters, takes
what is passed, and gives what is expected. -/
def assignableStep (sub : Ty → Ty → Bool) (a b : Ty) : Bool :=
  if a = b then true
  else match a, b with
    | .any, _ => true
    | _, .any => true
    | .unknown, _ => false
    | _, .unknown => false
    | .union members, b => members.all fun m => sub m b
    | a, .union members => members.any fun m => sub a m
    | .optional a, .optional b => sub a b
    | a, .optional b => a = .null || sub a b
    | .optional a, b => sub a b
    | .primitive .int, .primitive .float => true
    | .array a, .array b => sub a b
    | .object fields, .object required =>
      required.all fun r => (TypedName.lookup? r.name fields).any fun t => sub t r.type
    | .function params result _, .function params' result' _ =>
      params.length = params'.length && ((params'.zip params).all fun (p', p) => sub p' p) &&
        sub result result'
    | _, _ => false

def assignableWithin : Nat → Ty → Ty → Bool
  | 0, _, _ => false
  | depth + 1, a, b => assignableStep (assignableWithin depth) a b

/-- Whether a value of type `a` may be stored where `b` is expected. -/
def assignable (a b : Ty) : Bool := assignableWithin (a.size + b.size) a b

theorem size_pos (t : Ty) : 0 < t.size := by
  cases t <;> simp [size]

theorem size_le_sizeAll {t : Ty} {types : List Ty} (h : t ∈ types) : t.size ≤ sizeAll types := by
  induction types with
  | nil => simp at h
  | cons u rest ih =>
      rcases List.mem_cons.mp h with rfl | h
      · simp [sizeAll]
      · have := ih h
        simp only [sizeAll]
        omega

theorem size_le_sizeFields {t : TypedName} {fields : List TypedName} (h : t ∈ fields) :
    t.type.size ≤ sizeFields fields := by
  induction fields with
  | nil => simp at h
  | cons u rest ih =>
      obtain ⟨name, type⟩ := u
      rcases List.mem_cons.mp h with rfl | h
      · simp [sizeFields]
      · have := ih h
        simp only [sizeFields]
        omega

theorem size_le_of_lookup? {name : String} {t : Ty} {fields : List TypedName}
    (h : TypedName.lookup? name fields = some t) : t.size ≤ sizeFields fields := by
  induction fields with
  | nil => simp [TypedName.lookup?] at h
  | cons u rest ih =>
      obtain ⟨name, type⟩ := u
      unfold TypedName.lookup? at h
      split at h
      · obtain rfl := Option.some.inj h
        simp [sizeFields]
      · have := ih h
        simp only [sizeFields]
        omega

theorem all_eq_all {α : Type} {p q : α → Bool} {items : List α} (h : ∀ x ∈ items, p x = q x) :
    items.all p = items.all q := by
  induction items with
  | nil => rfl
  | cons x rest ih =>
      rw [List.all_cons, List.all_cons, h x List.mem_cons_self,
        ih fun y hy => h y (List.mem_cons_of_mem _ hy)]

theorem any_eq_any {α : Type} {p q : α → Bool} {items : List α} (h : ∀ x ∈ items, p x = q x) :
    items.any p = items.any q := by
  induction items with
  | nil => rfl
  | cons x rest ih =>
      rw [List.any_cons, List.any_cons, h x List.mem_cons_self,
        ih fun y hy => h y (List.mem_cons_of_mem _ hy)]

/-- The step asks only about smaller pairs. -/
theorem assignableStep_congr {f g : Ty → Ty → Bool} {a b : Ty}
    (h : ∀ c d : Ty, c.size + d.size < a.size + b.size → f c d = g c d) :
    assignableStep f a b = assignableStep g a b := by
  unfold assignableStep
  split
  · rfl
  · split
    case h_5 members _ _ _ =>
      exact all_eq_all fun m hm => h m _ (by
        have := size_le_sizeAll hm
        simp only [size]
        omega)
    case h_6 members _ _ _ _ =>
      exact any_eq_any fun m hm => h _ m (by
        have := size_le_sizeAll hm
        simp only [size]
        omega)
    case h_7 => exact h _ _ (by simp only [size]; omega)
    case h_8 => rw [h _ _ (by simp only [size]; omega)]
    case h_9 => exact h _ _ (by simp only [size]; omega)
    case h_11 => exact h _ _ (by simp only [size]; omega)
    case h_12 fields required _ =>
      refine all_eq_all fun r hr => ?_
      cases hl : TypedName.lookup? r.name fields with
      | none => rfl
      | some t =>
          have := size_le_of_lookup? hl
          have := size_le_sizeFields hr
          exact h _ _ (by simp only [size]; omega)
    case h_13 params result _ params' result' _ _ =>
      have hr : f result result' = g result result' := h _ _ (by simp only [size]; omega)
      have hp : ((params'.zip params).all fun (p', p) => f p' p) =
          ((params'.zip params).all fun (p', p) => g p' p) := by
        refine all_eq_all fun pair hpair => ?_
        obtain ⟨p', p⟩ := pair
        have hm := List.of_mem_zip hpair
        have := size_le_sizeAll hm.1
        have := size_le_sizeAll hm.2
        exact h _ _ (by simp only [size]; omega)
      rw [hr, hp]
    all_goals rfl

theorem assignableWithin_congr {m n : Nat} {a b : Ty} (hm : a.size + b.size ≤ m)
    (hn : a.size + b.size ≤ n) : assignableWithin m a b = assignableWithin n a b := by
  induction m generalizing n a b with
  | zero =>
      have := size_pos a
      omega
  | succ m ih =>
      cases n with
      | zero =>
          have := size_pos a
          omega
      | succ n =>
          exact assignableStep_congr fun c d h => ih (by omega) (by omega)

/-- Assignability without a bound. -/
theorem assignable_eq (a b : Ty) : assignable a b = assignableStep assignable a b := by
  have h : assignable a b = assignableWithin (a.size + b.size + 1) a b :=
    assignableWithin_congr (Nat.le_refl _) (Nat.le_succ _)
  rw [h]
  exact assignableStep_congr fun c d hlt =>
    assignableWithin_congr (Nat.le_of_lt hlt) (Nat.le_refl _)

end ComponentLang.Ty
