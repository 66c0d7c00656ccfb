import Mathlib.Data.List.ModifyLast
import ComponentLang.Proofs.Tree.Remap
import ComponentLang.Proofs.Tree.WellFormed
import ComponentLang.Token

/-!
# What a display shows

A display puts bars between the members of a union and shows no grouping. So what it shows is a list
of members, each without a choice of its own outside the brackets of arrays: those of a union in a
union are members of the outer one, and a question mark behind a union stands behind its last
member. A type expression is flat if nothing in it would be grouped otherwise.
-/
namespace ComponentLang

namespace TypeExpr

/-- The type expression without its places. -/
def shape : TypeExpr → TypeExpr := Remap.typeExpr fun _ => .zero

@[simp] theorem shape_named (span : Span) (name : String) :
    shape (.named span name) = .named .zero name := rfl

@[simp] theorem shape_array (span : Span) (element : TypeExpr) :
    shape (.array span element) = .array .zero (shape element) := rfl

@[simp] theorem shape_optional (span : Span) (inner : TypeExpr) :
    shape (.optional span inner) = .optional .zero (shape inner) := rfl

@[simp] theorem shape_union (span : Span) (members : List TypeExpr) :
    shape (.union span members) = .union .zero (members.map shape) :=
  congrArg (TypeExpr.union .zero) (Remap.typeExprs_eq_map _ members)

def isUnion : TypeExpr → Bool
  | .union .. => true
  | _ => false

@[simp] theorem isUnion_shape (a : TypeExpr) : a.shape.isUnion = a.isUnion := by
  cases a <;> rfl

/-- The members of a union. Anything else is its only member. -/
def members : TypeExpr → List TypeExpr
  | .union _ members => members
  | a => [a]

/-- The type expression with these members. -/
def ofMembers : List TypeExpr → TypeExpr
  | [a] => a
  | members => .union .zero members

theorem shape_ofMembers (as : List TypeExpr) :
    (ofMembers as).shape = ofMembers (as.map shape) := by
  match as with
  | [] => rfl
  | [a] => rfl
  | a :: b :: rest => exact shape_union _ _

theorem ofMembers_of_several {as : List TypeExpr} (h : 2 ≤ as.length) :
    ofMembers as = .union .zero as := by
  match as, h with
  | _ :: _ :: _, _ => rfl

theorem shape_ofMembers_members {a : TypeExpr} (h : a.WellFormed) :
    (ofMembers a.members).shape = a.shape := by
  cases a with
  | union span members =>
    rw [show (union span members).members = members from rfl, ofMembers_of_several h, shape_union,
      shape_union]
  | _ => rfl

theorem members_of_not_isUnion {a : TypeExpr} (h : a.isUnion = false) : a.members = [a] := by
  cases a with
  | union => cases h
  | _ => rfl

/-! ## What is between the bars -/

mutual

/-- What a display shows between its bars. -/
def summands : TypeExpr → List TypeExpr
  | .named span name => [.named span name]
  | .array span element => [.array span (ofMembers (summands element))]
  | .optional span inner => (summands inner).modifyLast (.optional span)
  | .union _ members => summandsOfAll members

def summandsOfAll : List TypeExpr → List TypeExpr
  | [] => []
  | a :: rest => summands a ++ summandsOfAll rest

end

theorem summandsOfAll_eq (as : List TypeExpr) : summandsOfAll as = as.flatMap summands := by
  induction as with
  | nil => rfl
  | cons a rest ih => rw [summandsOfAll, ih, List.flatMap_cons]

theorem summands_union (span : Span) (members : List TypeExpr) :
    summands (.union span members) = members.flatMap summands :=
  summandsOfAll_eq members

/-- What a reader makes of the display, but for the places. -/
def regrouped (a : TypeExpr) : TypeExpr := ofMembers a.summands

/-- A list that is modified at its end is empty or has a last element. -/
theorem modifyLast_cases (f : TypeExpr → TypeExpr) (as : List TypeExpr) :
    as = [] ∧ as.modifyLast f = [] ∨
      ∃ init last, as = init ++ [last] ∧ as.modifyLast f = init ++ [f last] := by
  obtain rfl | ⟨init, last, rfl⟩ := List.eq_nil_or_concat as
  · exact .inl ⟨rfl, rfl⟩
  · rw [List.concat_eq_append]
    exact .inr ⟨init, last, rfl, List.modifyLast_concat f last init⟩

/-! ## Flat type expressions -/

mutual

/-- No union is directly in a union or under a question mark. -/
def isFlat : TypeExpr → Bool
  | .named .. => true
  | .array _ element => isFlat element
  | .optional _ inner => !inner.isUnion && isFlat inner
  | .union _ members => areFlat members

/-- No union is among these, and all are flat. -/
def areFlat : List TypeExpr → Bool
  | [] => true
  | a :: rest => !a.isUnion && isFlat a && areFlat rest

end

theorem areFlat_iff {as : List TypeExpr} :
    areFlat as = true ↔ ∀ a ∈ as, a.isUnion = false ∧ a.isFlat = true := by
  induction as with
  | nil => simp [areFlat]
  | cons a rest ih => simp [areFlat, ih, and_assoc]

mutual

theorem isFlat_shape : ∀ a : TypeExpr, a.shape.isFlat = a.isFlat
  | .named .. => rfl
  | .array _ element => isFlat_shape element
  | .optional _ inner => by
    rw [shape_optional, isFlat, isFlat, isFlat_shape inner, isUnion_shape]
  | .union _ members => by rw [shape_union, isFlat, isFlat, areFlat_shape members]

theorem areFlat_shape : ∀ as : List TypeExpr, areFlat (as.map shape) = areFlat as
  | [] => rfl
  | a :: rest => by
    rw [List.map_cons, areFlat, areFlat, isFlat_shape a, areFlat_shape rest, isUnion_shape]

end

theorem isFlat_ofMembers {as : List TypeExpr}
    (h : ∀ a ∈ as, a.isUnion = false ∧ a.isFlat = true) : (ofMembers as).isFlat = true := by
  match as with
  | [] => rfl
  | [a] => exact (h a List.mem_cons_self).2
  | a :: b :: rest => exact areFlat_iff.2 h

mutual

theorem isFlat_of_mem_summands :
    ∀ a : TypeExpr, ∀ b ∈ a.summands, b.isUnion = false ∧ b.isFlat = true
  | .named .. => List.forall_mem_singleton.2 ⟨rfl, rfl⟩
  | .array _ element =>
    List.forall_mem_singleton.2 ⟨rfl, isFlat_ofMembers (isFlat_of_mem_summands element)⟩
  | .optional span inner => by
    have hinner := isFlat_of_mem_summands inner
    rw [summands]
    obtain ⟨-, hnil⟩ | ⟨init, last, hsplit, hmodified⟩ :=
      modifyLast_cases (.optional span) inner.summands
    · rw [hnil]
      exact List.forall_mem_nil _
    · rw [hsplit, List.forall_mem_append, List.forall_mem_singleton] at hinner
      rw [hmodified, List.forall_mem_append, List.forall_mem_singleton]
      refine ⟨hinner.1, rfl, ?_⟩
      rw [isFlat, hinner.2.1, hinner.2.2]
      rfl
  | .union _ members => isFlat_of_mem_summandsOfAll members

theorem isFlat_of_mem_summandsOfAll :
    ∀ as : List TypeExpr, ∀ b ∈ summandsOfAll as, b.isUnion = false ∧ b.isFlat = true
  | [] => List.forall_mem_nil _
  | a :: rest =>
    List.forall_mem_append.2 ⟨isFlat_of_mem_summands a, isFlat_of_mem_summandsOfAll rest⟩

end

mutual

/-- Of a flat type expression the display shows the members. -/
theorem shape_summands : ∀ a : TypeExpr, a.Everywhere WellFormed → a.isFlat = true →
    a.summands.map shape = a.members.map shape
  | .named .., _, _ => rfl
  | .array _ element, hformed, hflat => by
    obtain ⟨-, hchildren⟩ := everywhere_iff.1 hformed
    have helement := hchildren element List.mem_cons_self
    have hshape : (ofMembers element.summands).shape = element.shape := by
      rw [shape_ofMembers, shape_summands element helement hflat, ← shape_ofMembers,
        shape_ofMembers_members (everywhere_iff.1 helement).1]
    exact congrArg (fun a => [TypeExpr.array .zero a]) hshape
  | .optional span inner, hformed, hflat => by
    obtain ⟨-, hchildren⟩ := everywhere_iff.1 hformed
    rw [isFlat, Bool.and_eq_true, Bool.not_eq_true'] at hflat
    have hinner := shape_summands inner (hchildren inner List.mem_cons_self) hflat.2
    rw [members_of_not_isUnion hflat.1] at hinner
    obtain ⟨only, hsummands, hshape⟩ := List.map_eq_singleton_iff.1 hinner
    rw [summands, hsummands]
    exact congrArg (fun a => [TypeExpr.optional .zero a]) hshape
  | .union _ members, hformed, hflat =>
    shape_summandsOfAll members (everywhere_iff.1 hformed).2 (areFlat_iff.1 hflat)

theorem shape_summandsOfAll : ∀ as : List TypeExpr, (∀ a ∈ as, a.Everywhere WellFormed) →
    (∀ a ∈ as, a.isUnion = false ∧ a.isFlat = true) →
    (summandsOfAll as).map shape = as.map shape
  | [], _, _ => rfl
  | a :: rest, hformed, hflat => by
    obtain ⟨ha, hrest⟩ := List.forall_mem_cons.1 hformed
    obtain ⟨⟨hunion, hflat⟩, hrestFlat⟩ := List.forall_mem_cons.1 hflat
    have hfirst := shape_summands a ha hflat
    rw [members_of_not_isUnion hunion] at hfirst
    rw [summandsOfAll, List.map_append, hfirst, shape_summandsOfAll rest hrest hrestFlat]
    rfl

end

/-- The flat type expressions are those that keep their grouping. -/
theorem shape_regrouped_eq_iff {a : TypeExpr} (h : a.Everywhere WellFormed) :
    a.regrouped.shape = a.shape ↔ a.isFlat = true := by
  constructor
  · intro hshape
    rw [← isFlat_shape, ← hshape, isFlat_shape]
    exact isFlat_ofMembers (isFlat_of_mem_summands a)
  · intro hflat
    rw [regrouped, shape_ofMembers, shape_summands a h hflat, ← shape_ofMembers,
      shape_ofMembers_members (everywhere_iff.1 h).1]

/-! ## The tokens of a display -/

/-- The tokens are those of a display of type expressions with bars between them. -/
inductive Spells : List TypeExpr → List Token → Prop
  | named {span token} : token.kind = .identifier ∨ token.kind = .null →
      Spells [.named span token.lexeme] [token]
  | array {span element r word opening closing} : word.kind = .identifier →
      word.lexeme = "Array" → opening.kind = .lt → Spells [element] r → closing.kind = .gt →
      Spells [.array span element] (word :: opening :: (r ++ [closing]))
  | optional {span inner r mark} : Spells [inner] r → mark.kind = .question →
      Spells [.optional span inner] (r ++ [mark])
  | union {span members r} : Spells members r → Spells [.union span members] r
  | more {a b rest r r' bar} : Spells [a] r → bar.kind = .pipe → Spells (b :: rest) r' →
      Spells (a :: b :: rest) (r ++ bar :: r')

end TypeExpr

end ComponentLang
