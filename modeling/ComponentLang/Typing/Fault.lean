import ComponentLang.Tree.Operator
import ComponentLang.Typing.Ty

/-!
# What can be wrong with types
-/
namespace ComponentLang

inductive TypeFault where
  | undefinedVariable (name : String)
  | unknownType (name : String)
  | unknownComponent (name : String)
  | notAssignable (value target : Ty)
  | notReturnable (value declared : Ty)
  | notNumeric (op : UnaryOp) (operand : Ty)
  | notComparable (left right : Ty)
  | notOperable (op : BinaryOp) (left right : Ty)
  | notCallable (callee : Ty)
  | argumentCount (expected found : Nat)
  /-- Positions count from one. -/
  | argumentType (position : Nat) (expected found : Ty)
  | noField (name : String) (object : Ty)
  | noArrayProperty (name : String)
  | noStringProperty (name : String)
  | notAnObject (name : String) (object : Ty)
  | notIndexable (object : Ty)
  | indexNotNumeric (index : Ty)
  deriving DecidableEq

def TypeFault.message : TypeFault → String
  | .undefinedVariable name => "Undefined variable: " ++ name
  | .unknownType name => "Unknown type: " ++ name
  | .unknownComponent name => "Unknown component <" ++ name ++ ">"
  | .notAssignable value target => "Cannot assign " ++ value.display ++ " to " ++ target.display
  | .notReturnable value declared =>
    "Cannot return " ++ value.display ++ " from a function declared to return " ++ declared.display
  | .notNumeric op operand =>
    "Unary " ++ op.spelling ++ " requires numeric type, got " ++ operand.display
  | .notComparable left right =>
    "Cannot compare incompatible types: " ++ left.display ++ " and " ++ right.display
  | .notOperable op left right =>
    "Incompatible types for operator " ++ op.spelling ++ ": " ++ left.display ++ " and " ++
      right.display
  | .notCallable callee => "Cannot call non-function value of type " ++ callee.display
  | .argumentCount expected found =>
    "Function expects " ++ toString expected ++ " arguments, got " ++ toString found
  | .argumentType position expected found =>
    "Argument " ++ toString position ++ " type mismatch: expected " ++ expected.display ++
      ", got " ++ found.display
  | .noField name object =>
    "Property '" ++ name ++ "' does not exist on type " ++ object.display
  | .noArrayProperty name => "Unknown array property: " ++ name
  | .noStringProperty name => "Unknown string property: " ++ name
  | .notAnObject name object =>
    "Cannot access property '" ++ name ++ "' of non-object type " ++ object.display
  | .notIndexable object => "Cannot index value of type " ++ object.display
  | .indexNotNumeric index => "Index must be numeric, got " ++ index.display

end ComponentLang
