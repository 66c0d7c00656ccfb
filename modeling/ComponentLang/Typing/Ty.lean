/-!
# Types

Types are compared by their form: two arrays of integers have the same type wherever they come
from. A named type is a field of an object, and also what a scope holds for a variable.
-/
namespace ComponentLang

inductive Primitive where
  | int
  | float
  | bool
  | string
  | null
  deriving DecidableEq, Repr

def Primitive.all : List Primitive := [.int, .float, .bool, .string, .null]

def Primitive.name : Primitive → String
  | .int => "Int"
  | .float => "Float"
  | .bool => "Bool"
  | .string => "String"
  | .null => "Null"

mutual

inductive Ty where
  | primitive (p : Primitive)
  | array (element : Ty)
  | object (fields : List TypedName)
  | function (params : List Ty) (result : Ty) (isAsync : Bool)
  | union (members : List Ty)
  | optional (inner : Ty)
  /-- What a use of the component with this name is. -/
  | component (name : String)
  /-- Not checked: goes anywhere and takes anything. -/
  | any
  /-- The type of what is wrong already, or is not known yet. -/
  | unknown

structure TypedName where
  name : String
  type : Ty

end

namespace Ty

def int : Ty := .primitive .int
def float : Ty := .primitive .float
def bool : Ty := .primitive .bool
def string : Ty := .primitive .string
def null : Ty := .primitive .null

/-! ## Equality -/

mutual

def beq : Ty → Ty → Bool
  | .primitive p, .primitive q => p == q
  | .array a, .array b => beq a b
  | .object as, .object bs => beqFields as bs
  | .function ps r x, .function qs s y => beqAll ps qs && (beq r s && x == y)
  | .union as, .union bs => beqAll as bs
  | .optional a, .optional b => beq a b
  | .component a, .component b => a == b
  | .any, .any => true
  | .unknown, .unknown => true
  | _, _ => false

def beqAll : List Ty → List Ty → Bool
  | [], [] => true
  | a :: as, b :: bs => beq a b && beqAll as bs
  | _, _ => false

def beqFields : List TypedName → List TypedName → Bool
  | [], [] => true
  | ⟨x, a⟩ :: as, ⟨y, b⟩ :: bs => x == y && (beq a b && beqFields as bs)
  | _, _ => false

end

mutual

theorem beq_iff : ∀ a b : Ty, beq a b = true ↔ a = b
  | .primitive p, b => by cases b <;> simp [beq]
  | .array a, b => by cases b <;> simp [beq, beq_iff a]
  | .object as, b => by cases b <;> simp [beq, beqFields_iff as]
  | .function ps r x, b => by cases b <;> simp [beq, beqAll_iff ps, beq_iff r]
  | .union as, b => by cases b <;> simp [beq, beqAll_iff as]
  | .optional a, b => by cases b <;> simp [beq, beq_iff a]
  | .component x, b => by cases b <;> simp [beq]
  | .any, b => by cases b <;> simp [beq]
  | .unknown, b => by cases b <;> simp [beq]

theorem beqAll_iff : ∀ as bs : List Ty, beqAll as bs = true ↔ as = bs
  | [], bs => by cases bs <;> simp [beqAll]
  | a :: as, bs => by cases bs <;> simp [beqAll, beq_iff a, beqAll_iff as]

theorem beqFields_iff : ∀ as bs : List TypedName, beqFields as bs = true ↔ as = bs
  | [], bs => by cases bs <;> simp [beqFields]
  | ⟨x, a⟩ :: as, bs => by
      cases bs with
      | nil => simp [beqFields]
      | cons b bs =>
          obtain ⟨y, b⟩ := b
          simp [beqFields, beq_iff a, beqFields_iff as, and_assoc]

end

instance : DecidableEq Ty := fun a b => decidable_of_iff _ (beq_iff a b)

/-! ## Words -/

mutual

/-- The type in words. Grouping is not shown. -/
def display : Ty → String
  | .primitive p => p.name
  | .array element => "Array<" ++ display element ++ ">"
  | .object fields => "\x7b" ++ String.intercalate ", " (displayFields fields) ++ "\x7d"
  | .function params result isAsync =>
    (if isAsync then "async (" else "(") ++ String.intercalate ", " (displayAll params) ++
      ") => " ++ display result
  | .union members => String.intercalate " | " (displayAll members)
  | .optional inner => display inner ++ "?"
  | .component name => "Component<" ++ name ++ ">"
  | .any => "any"
  | .unknown => "unknown"

def displayAll : List Ty → List String
  | [] => []
  | t :: rest => display t :: displayAll rest

def displayFields : List TypedName → List String
  | [] => []
  | ⟨name, type⟩ :: rest => (name ++ ": " ++ display type) :: displayFields rest

end

/-! ## Unions -/

/-- What a type contributes to a union: the members of a union, and any other type itself. -/
def alternatives : Ty → List Ty
  | .union members => members
  | t => [t]

/-- The union of some types, each of its members once. A single type is its own union, and the
union of none is not known. -/
def unionOf (types : List Ty) : Ty :=
  match (types.flatMap alternatives).eraseDups with
  | [] => .unknown
  | [t] => t
  | members => .union members

mutual

/-- Whether every value of the type is a number. -/
def isNumeric : Ty → Bool
  | .primitive .int => true
  | .primitive .float => true
  | .union members => allNumeric members
  | _ => false

def allNumeric : List Ty → Bool
  | [] => true
  | t :: rest => isNumeric t && allNumeric rest

end

end Ty

namespace TypedName

instance : DecidableEq TypedName := fun a b =>
  decidable_of_iff (a.name = b.name ∧ a.type = b.type) (by cases a; cases b; simp)

/-- The type of a name, as given first. -/
def lookup? (name : String) : List TypedName → Option Ty
  | [] => none
  | t :: rest => if t.name = name then some t.type else lookup? name rest

/-- Give a name a type: at its place if the name is there, else at the end. -/
def put (name : String) (type : Ty) : List TypedName → List TypedName
  | [] => [⟨name, type⟩]
  | t :: rest => if t.name = name then ⟨name, type⟩ :: rest else t :: put name type rest

theorem lookup?_put (name other : String) (type : Ty) (names : List TypedName) :
    lookup? other (put name type names) =
      if name = other then some type else lookup? other names := by
  induction names with
  | nil => simp [put, lookup?]
  | cons t rest ih =>
      by_cases h : t.name = name <;> by_cases ho : name = other <;>
        simp_all [put, lookup?]

end TypedName

/-- The type of a field, if the type is an object that has it. -/
def Ty.field? (name : String) : Ty → Option Ty
  | .object fields => TypedName.lookup? name fields
  | _ => none

end ComponentLang
