import ComponentLang.Typing.Ty

/-!
# Scopes

The types of the names in sight. Scopes nest; a name means its innermost entry. There is always
at least one scope.
-/
namespace ComponentLang

structure Scopes where
  inner : List TypedName
  outer : List (List TypedName)
  deriving DecidableEq

namespace Scopes

def initial : Scopes := ⟨[], []⟩

def push (s : Scopes) : Scopes := ⟨[], s.inner :: s.outer⟩

/-- Leave the innermost scope, unless it is the only one. -/
def pop (s : Scopes) : Scopes :=
  match s.outer with
  | [] => s
  | inner :: outer => ⟨inner, outer⟩

def depth (s : Scopes) : Nat := s.outer.length + 1

/-- Give a name a type in the innermost scope, in place of the type it had there. -/
def define (s : Scopes) (name : String) (type : Ty) : Scopes :=
  { s with inner := TypedName.put name type s.inner }

def lookup? (s : Scopes) (name : String) : Option Ty :=
  (s.inner :: s.outer).findSome? (TypedName.lookup? name)

/-- Whether the innermost scope itself has the name. -/
def definesHere (s : Scopes) (name : String) : Bool := (TypedName.lookup? name s.inner).isSome

/-- Give a name a type in the first of some scopes that has it. -/
def updateFirst? (name : String) (type : Ty) : List (List TypedName) → Option (List (List TypedName))
  | [] => none
  | scope :: rest =>
    if (TypedName.lookup? name scope).isSome then some (TypedName.put name type scope :: rest)
    else (updateFirst? name type rest).map (scope :: ·)

/-- Give a name another type where it is defined innermost, if it is defined at all. -/
def update? (s : Scopes) (name : String) (type : Ty) : Option Scopes :=
  if s.definesHere name then some (s.define name type)
  else (updateFirst? name type s.outer).map fun outer => { s with outer }

@[simp] theorem pop_push (s : Scopes) : s.push.pop = s := rfl

theorem lookup?_define (s : Scopes) (name other : String) (type : Ty) :
    (s.define name type).lookup? other = if name = other then some type else s.lookup? other := by
  unfold lookup? define
  simp only [List.findSome?_cons, TypedName.lookup?_put]
  by_cases h : name = other <;> simp [h]

end Scopes

end ComponentLang
