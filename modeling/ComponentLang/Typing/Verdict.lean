import ComponentLang.Tree.Expr
import ComponentLang.Typing.Assignable
import ComponentLang.Typing.Fault

/-!
# The types of operations

The type of an operation from the types of its operands, and what is wrong with it, if anything.
Nothing is wrong with an operation on `any`, and nothing more with one on what is wrong already.
-/
namespace ComponentLang

structure Verdict where
  type : Ty
  fault : Option TypeFault
  deriving DecidableEq

namespace Verdict

/-- An operation with nothing wrong. -/
def ok (type : Ty) : Verdict := ⟨type, none⟩

/-- An operation without a type. -/
def fail (fault : TypeFault) : Verdict := ⟨.unknown, some fault⟩

end Verdict

namespace Ty

def ofLiteral : Literal → Ty
  | .number _ .int => .int
  | .number _ .float => .float
  | .string _ => .string
  | .bool _ => .bool
  | .null => .null

/-- Whether the type may stand where a number is asked for. -/
def passesAsNumber (t : Ty) : Bool := t.isNumeric || t = .any || t = .unknown

def ofUnary (op : UnaryOp) (operand : Ty) : Verdict :=
  match op with
  | .not => .ok .bool
  | .neg | .plus =>
    if operand.passesAsNumber then .ok operand else .fail (.notNumeric op operand)

/-- A comparison is a truth value, whatever is compared. -/
def ofComparison (left right : Ty) : Verdict :=
  if left = .unknown || right = .unknown then .ok .bool
  else if left.assignable right || right.assignable left then .ok .bool
  else ⟨.bool, some (.notComparable left right)⟩

/-- Adding to a string gives a string. Two integers give an integer, other numbers a float. -/
def ofArithmetic (op : BinaryOp) (left right : Ty) : Verdict :=
  if left = .unknown || right = .unknown then .ok .unknown
  else if op = .add && (left = .string || right = .string) then .ok .string
  else if left = .any || right = .any then .ok .any
  else if left.isNumeric && right.isNumeric then
    .ok (if left = .int && right = .int then .int else .float)
  else .fail (.notOperable op left right)

def ofBinary (op : BinaryOp) (left right : Ty) : Verdict :=
  if op = .and || op = .or then .ok .bool
  else if op.isComparison then ofComparison left right
  else ofArithmetic op left right

/-- The type of a property. An optional is looked through. -/
def ofMember (property : String) : Ty → Verdict
  | .any => .ok .any
  | .component _ => .ok .any
  | .unknown => .ok .unknown
  | .optional inner => ofMember property inner
  | .object fields =>
    match TypedName.lookup? property fields with
    | some type => .ok type
    | none => .fail (.noField property (.object fields))
  | .array _ => if property = "length" then .ok .int else .fail (.noArrayProperty property)
  | .primitive .string =>
    if property = "length" then .ok .int else .fail (.noStringProperty property)
  | other => .fail (.notAnObject property other)

def ofIndex (object index : Ty) : Verdict :=
  match object with
  | .any => .ok .any
  | .unknown => .ok .unknown
  | .object _ => .ok .any
  | .array element => if index.passesAsNumber then .ok element else .fail (.indexNotNumeric index)
  | .primitive .string =>
    if index.passesAsNumber then .ok .string else .fail (.indexNotNumeric index)
  | other => .fail (.notIndexable other)

/-- What is wrong with arguments, each with its place: those of a wrong type, from `position` on.
Arguments without a parameter, and parameters without an argument, are not looked at. -/
def argumentFaults (position : Nat) : List Ty → List (Ty × Span) → List (TypeFault × Span)
  | param :: params, (argument, span) :: arguments =>
    let later := argumentFaults (position + 1) params arguments
    if argument = .unknown || argument.assignable param then later
    else (.argumentType position param argument, span) :: later
  | _, _ => []

/-- The type of a call at `span`, and what is wrong with it and its arguments. -/
def ofCall (callee : Ty) (arguments : List (Ty × Span)) (span : Span) :
    Ty × List (TypeFault × Span) :=
  match callee with
  | .function params result _ =>
    let count :=
      if params.length = arguments.length then []
      else [(.argumentCount params.length arguments.length, span)]
    (result, count ++ argumentFaults 1 params arguments)
  | .any => (.any, [])
  | .unknown => (.unknown, [])
  | other => (.unknown, [(.notCallable other, span)])

/-- What a loop over a value of the type gives in each turn. -/
def ofElement : Ty → Ty
  | .array element => element
  | .primitive .string => .string
  | .unknown => .unknown
  | _ => .any

/-- What is wrong with storing a value, unless the value or the place is wrong already. -/
def storeFault? (value target : Ty) : Option TypeFault :=
  if value = .unknown || target = .unknown || value.assignable target then none
  else some (.notAssignable value target)

end Ty

end ComponentLang
