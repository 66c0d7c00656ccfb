import ComponentLang.Proofs.Typing.Naming
import ComponentLang.Proofs.Typing.Settled
import Mathlib.Data.Finmap

/-!
# Scopes as finite maps

Whatever is done with scopes, they answer as a list of finite maps does, the innermost first. Defining
a name changes the first map, giving a name another type changes the first map that has it, and the
last map is never dropped. A scope lists the names that were defined in it since it was entered, each
once and in the order in which they came first.
-/
namespace ComponentLang

/-- What can be done with scopes. -/
inductive ScopeOp
  | push
  | pop
  | define (name : String) (type : Ty)
  | update (name : String) (type : Ty)
  | lookup (name : String)

/-- What there is to answer: whether the name to change is there, and the type of the name to look
for. -/
inductive ScopeAnswer
  | done
  | updated (found : Bool)
  | found (type : Option Ty)
  deriving DecidableEq

namespace ScopeOp

variable {α β : Type}

/-- One thing after the other is done, and each is answered. -/
def run (step : α → ScopeOp → α × ScopeAnswer) : α → List ScopeOp → α × List ScopeAnswer
  | a, [] => (a, [])
  | a, op :: rest =>
    let (next, answer) := step a op
    let (last, answers) := run step next rest
    (last, answer :: answers)

/-- Steps that keep two things related and answer alike do so for a whole run. -/
theorem run_related {R : α → β → Prop} {step : α → ScopeOp → α × ScopeAnswer}
    {step' : β → ScopeOp → β × ScopeAnswer}
    (h : ∀ a b, R a b → ∀ op, R (step a op).1 (step' b op).1 ∧ (step a op).2 = (step' b op).2)
    {a : α} {b : β} (hab : R a b) (ops : List ScopeOp) :
    R (run step a ops).1 (run step' b ops).1 ∧ (run step a ops).2 = (run step' b ops).2 := by
  induction ops generalizing a b with
  | nil => exact ⟨hab, rfl⟩
  | cons op rest ih =>
      obtain ⟨hnext, hanswer⟩ := h a b hab op
      obtain ⟨hlast, hanswers⟩ := ih hnext
      exact ⟨hlast, congrArg₂ List.cons hanswer hanswers⟩

end ScopeOp

/-- Leave the first of some layers, unless it is the only one. -/
def leaveFirst {α : Type} : List α → List α
  | [] => []
  | [last] => [last]
  | _ :: rest => rest

theorem map_leaveFirst {α β : Type} (f : α → β) (layers : List α) :
    (leaveFirst layers).map f = leaveFirst (layers.map f) := by
  obtain _ | ⟨first, _ | ⟨second, rest⟩⟩ := layers <;> rfl

/-! ## Finite maps -/

/-- Finite maps from names to types, the innermost first. -/
abbrev NameMaps := List (Finmap fun _ : String => Ty)

namespace NameMaps

/-- Write to the first map that has the name, if there is one. -/
def update? (name : String) (type : Ty) : NameMaps → Option NameMaps
  | [] => none
  | first :: rest =>
    if name ∈ first then some (first.insert name type :: rest)
    else (update? name type rest).map (first :: ·)

def perform (maps : NameMaps) : ScopeOp → NameMaps × ScopeAnswer
  | .push => (∅ :: maps, .done)
  | .pop => (leaveFirst maps, .done)
  | .define name type => (maps.modifyHead (Finmap.insert name type), .done)
  | .update name type => ((update? name type maps).getD maps, .updated (update? name type maps).isSome)
  | .lookup name => (maps, .found (maps.findSome? (Finmap.lookup name)))

end NameMaps

namespace TypedName

variable {name : String} {type : Ty} {names : List TypedName}

/-- The finite map that a list of names stands for. -/
def toMap (names : List TypedName) : Finmap fun _ : String => Ty :=
  (names.map fun t => (⟨t.name, t.type⟩ : Sigma fun _ : String => Ty)).toFinmap

theorem lookup_toMap (name : String) (names : List TypedName) :
    (toMap names).lookup name = lookup? name names := by
  induction names with
  | nil => rfl
  | cons t rest ih =>
      rw [toMap, List.map_cons, Finmap.toFinmap_cons, lookup?]
      split
      next h => rw [← h, Finmap.lookup_insert]
      next h =>
          rw [Finmap.lookup_insert_of_ne _ (Ne.symm h)]
          exact ih

theorem mem_toMap : name ∈ toMap names ↔ (lookup? name names).isSome := by
  rw [← Finmap.lookup_isSome, lookup_toMap]

theorem toMap_put (name : String) (type : Ty) (names : List TypedName) :
    toMap (put name type names) = (toMap names).insert name type := by
  refine Finmap.ext_lookup fun other => ?_
  rw [lookup_toMap, lookup?_put]
  split
  next h => rw [← h, Finmap.lookup_insert]
  next h => rw [Finmap.lookup_insert_of_ne _ (Ne.symm h), lookup_toMap]

end TypedName

namespace Scopes

open TypedName

variable {s : Scopes} {name : String}

/-- The scopes as finite maps. -/
def maps (s : Scopes) : NameMaps := (s.inner :: s.outer).map toMap

def perform (s : Scopes) : ScopeOp → Scopes × ScopeAnswer
  | .push => (s.push, .done)
  | .pop => (s.pop, .done)
  | .define name type => (s.define name type, .done)
  | .update name type => ((s.update? name type).getD s, .updated (s.update? name type).isSome)
  | .lookup name => (s, .found (s.lookup? name))

theorem length_maps (s : Scopes) : s.maps.length = s.depth := by
  rw [maps, List.length_map, List.length_cons, depth]

theorem layers_pop (s : Scopes) : s.pop.inner :: s.pop.outer = leaveFirst (s.inner :: s.outer) := by
  obtain ⟨inner, _ | ⟨first, rest⟩⟩ := s <;> rfl

theorem maps_pop (s : Scopes) : s.pop.maps = leaveFirst s.maps := by
  rw [maps, layers_pop, map_leaveFirst, maps]

theorem maps_define (s : Scopes) (name : String) (type : Ty) :
    (s.define name type).maps = s.maps.modifyHead (Finmap.insert name type) :=
  congrArg (· :: s.outer.map toMap) (toMap_put name type s.inner)

theorem map_toMap_updateFirst? (name : String) (type : Ty) (scopes : List (List TypedName)) :
    (updateFirst? name type scopes).map (List.map toMap) =
      NameMaps.update? name type (scopes.map toMap) := by
  induction scopes with
  | nil => rfl
  | cons first rest ih =>
      rw [updateFirst?, List.map_cons, NameMaps.update?]
      simp only [mem_toMap]
      split
      next => rw [Option.map_some, List.map_cons, toMap_put]
      next =>
          rw [← ih, Option.map_map, Option.map_map]
          rfl

theorem maps_update? (s : Scopes) (name : String) (type : Ty) :
    (s.update? name type).map maps = NameMaps.update? name type s.maps := by
  rw [maps, ← map_toMap_updateFirst?, updateFirst?, update?, definesHere]
  split
  next => rfl
  next =>
      rw [Option.map_map, Option.map_map]
      rfl

theorem lookup?_eq_maps (s : Scopes) (name : String) :
    s.lookup? name = s.maps.findSome? (Finmap.lookup name) := by
  rw [lookup?, maps, List.findSome?_map]
  refine congrArg (List.findSome? · (s.inner :: s.outer)) (funext fun names => ?_)
  exact (lookup_toMap name names).symm

/-- One thing done with the scopes is done with the maps, with the same answer. -/
theorem perform_maps (s : Scopes) (m : NameMaps) (h : s.maps = m) (op : ScopeOp) :
    (s.perform op).1.maps = (m.perform op).1 ∧ (s.perform op).2 = (m.perform op).2 := by
  subst h
  cases op with
  | push => exact ⟨rfl, rfl⟩
  | pop => exact ⟨maps_pop s, rfl⟩
  | define name type => exact ⟨maps_define s name type, rfl⟩
  | update name type =>
      have hupdate := maps_update? s name type
      refine ⟨?_, ?_⟩
      · show ((s.update? name type).getD s).maps = (NameMaps.update? name type s.maps).getD s.maps
        rw [← hupdate, Option.getD_map]
      · show ScopeAnswer.updated _ = ScopeAnswer.updated _
        rw [← hupdate, Option.isSome_map]
  | lookup name => exact ⟨rfl, congrArg ScopeAnswer.found (lookup?_eq_maps s name)⟩

/-! ## Names -/

/-- For each scope the names defined in it, again where they were. -/
def defining (defined : List (List String)) : ScopeOp → List (List String)
  | .push => [] :: defined
  | .pop => leaveFirst defined
  | .define name _ => defined.modifyHead (· ++ [name])
  | .update _ _ => defined
  | .lookup _ => defined

/-- A scope lists the names defined in it, each once where it comes first. -/
def Lists (s : Scopes) (defined : List (List String)) : Prop := s.names = defined.map List.eraseDups

/-- A name that is there already is not listed again, and another one comes last. -/
theorem eraseDups_append_singleton (items : List String) (x : String) :
    (items ++ [x]).eraseDups = items.eraseDups ++ if x ∈ items.eraseDups then [] else [x] := by
  rw [List.eraseDups_append, List.removeAll]
  by_cases h : x ∈ items <;> simp [h, List.eraseDups_cons]

theorem lists_perform {defined : List (List String)} (h : s.Lists defined) (op : ScopeOp) :
    (s.perform op).1.Lists (defining defined op) := by
  cases op with
  | push => exact congrArg ([] :: ·) h
  | pop =>
      show s.pop.names = (leaveFirst defined).map List.eraseDups
      rw [names, layers_pop, map_leaveFirst, ← names, h, map_leaveFirst]
  | define name type =>
      obtain _ | ⟨d, defined⟩ := defined
      · cases h
      · obtain ⟨hinner, houter⟩ := List.cons.inj h
        refine congrArg₂ List.cons ?_ houter
        show (put name type s.inner).map TypedName.name = (d ++ [name]).eraseDups
        rw [map_name_put, eraseDups_append_singleton, ← hinner]
  | update name type => exact (names_update s name type).trans h
  | lookup name => exact h

/-- So it is after whatever is done. -/
theorem lists_run {defined : List (List String)} (h : s.Lists defined) (ops : List ScopeOp) :
    (ScopeOp.run perform s ops).1.Lists (ops.foldl defining defined) := by
  induction ops generalizing s defined with
  | nil => exact h
  | cons op rest ih => exact ih (lists_perform h op)

/-! ## Other names -/

theorem lookup?_define_of_ne {other : String} (h : other ≠ name) (s : Scopes) (type : Ty) :
    (s.define name type).lookup? other = s.lookup? other := by
  rw [lookup?_define, if_neg (Ne.symm h)]

theorem lookup?_update?_of_ne {other : String} (h : other ≠ name) (s : Scopes) (type : Ty) :
    ((s.update? name type).getD s).lookup? other = s.lookup? other := by
  rw [lookup?_eq_entries, entries_update?_of_ne (Ne.symm h), ← lookup?_eq_entries]

/-- Whatever is done with scopes from the start on, they answer as finite maps to which the same is
done, and stand for these maps. There is always a scope, each lists its names once and in the order
in which they came first, and what is done about a name makes no difference to another. -/
theorem run_maps (ops : List ScopeOp) :
    let scopes := ScopeOp.run perform initial ops
    let maps := ScopeOp.run NameMaps.perform [∅] ops
    let defined := ops.foldl defining [[]]
    scopes.2 = maps.2 ∧ scopes.1.maps = maps.1 ∧
      1 ≤ scopes.1.depth ∧ scopes.1.depth = maps.1.length ∧
      scopes.1.names = defined.map List.eraseDups ∧ (∀ names ∈ scopes.1.names, names.Nodup) ∧
      ∀ name other type, other ≠ name →
        (scopes.1.define name type).lookup? other = scopes.1.lookup? other ∧
        ((scopes.1.update? name type).getD scopes.1).lookup? other = scopes.1.lookup? other := by
  intro scopes maps defined
  obtain ⟨hmaps, hanswers⟩ : scopes.1.maps = maps.1 ∧ scopes.2 = maps.2 :=
    ScopeOp.run_related perform_maps rfl ops
  have hnames : scopes.1.names = defined.map List.eraseDups :=
    lists_run (show Lists initial [[]] from rfl) ops
  refine ⟨hanswers, hmaps, Nat.succ_pos _, ?_, hnames, ?_, ?_⟩
  · rw [← hmaps, length_maps]
  · intro names hmem
    rw [hnames] at hmem
    obtain ⟨d, -, rfl⟩ := List.mem_map.1 hmem
    exact nodup_eraseDups d
  · intro name other type hne
    exact ⟨lookup?_define_of_ne hne _ type, lookup?_update?_of_ne hne _ type⟩

/-- A type that is given from an inner scope is there when the scope is left, and the last scope is
not left. -/
example : (ScopeOp.run perform initial [.define "count" .unknown, .push, .update "count" .int,
    .update "other" .int, .pop, .pop, .lookup "count"]).2 =
      [.done, .done, .updated true, .updated false, .done, .done, .found (some .int)] := by
  decide +kernel

end Scopes

end ComponentLang
