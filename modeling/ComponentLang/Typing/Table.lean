import ComponentLang.Typing.Ty

/-!
# Type tables

The types of expressions, by the numbers of the expressions. A later entry for a number takes the
place of an earlier one.
-/
namespace ComponentLang

structure TypeTable where
  /-- The entries, newest first. -/
  entries : List (Nat × Ty)

namespace TypeTable

def empty : TypeTable := ⟨[]⟩

def insert (table : TypeTable) (id : Nat) (type : Ty) : TypeTable :=
  ⟨(id, type) :: table.entries⟩

def get? (table : TypeTable) (id : Nat) : Option Ty := table.entries.lookup id

/-- The first of the entries with each number; entries of one number stand together. -/
def firsts : List (Nat × Ty) → List (Nat × Ty)
  | [] => []
  | [entry] => [entry]
  | a :: b :: rest =>
    match firsts (b :: rest) with
    | [] => [a]
    | c :: kept => if a.1 = c.1 then a :: kept else a :: c :: kept

/-- The types by increasing number. -/
def toList (table : TypeTable) : List (Nat × Ty) :=
  firsts (table.entries.mergeSort fun a b => a.1 ≤ b.1)

@[simp] theorem get?_insert (table : TypeTable) (id other : Nat) (type : Ty) :
    (table.insert id type).get? other = if other = id then some type else table.get? other := by
  unfold insert get?
  rw [List.lookup_cons]
  by_cases h : other = id
  · simp [h]
  · have hb : (other == id) = false := by simpa using h
    simp [hb, h]

theorem mem_of_get? {table : TypeTable} {id : Nat} {type : Ty} (h : table.get? id = some type) :
    (id, type) ∈ table.entries := by
  unfold get? at h
  obtain ⟨before, after, hentries, -⟩ := List.lookup_eq_some_iff.1 h
  simp [hentries]

end TypeTable

end ComponentLang
