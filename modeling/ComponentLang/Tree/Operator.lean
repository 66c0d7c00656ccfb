/-!
# Operators
-/
namespace ComponentLang

inductive BinaryOp where
  | add
  | sub
  | mul
  | div
  | mod
  | pow
  | eq
  | notEq
  | lt
  | ltEq
  | gt
  | gtEq
  | and
  | or
  deriving DecidableEq, Repr

namespace BinaryOp

def all : List BinaryOp :=
  [.add, .sub, .mul, .div, .mod, .pow, .eq, .notEq, .lt, .ltEq, .gt, .gtEq, .and, .or]

def spelling : BinaryOp → String
  | .add => "+"
  | .sub => "-"
  | .mul => "*"
  | .div => "/"
  | .mod => "%"
  | .pow => "**"
  | .eq => "=="
  | .notEq => "!="
  | .lt => "<"
  | .ltEq => "<="
  | .gt => ">"
  | .gtEq => ">="
  | .and => "&&"
  | .or => "||"

def name : BinaryOp → String
  | .add => "Add"
  | .sub => "Sub"
  | .mul => "Mul"
  | .div => "Div"
  | .mod => "Mod"
  | .pow => "Pow"
  | .eq => "Eq"
  | .notEq => "NotEq"
  | .lt => "Lt"
  | .ltEq => "LtEq"
  | .gt => "Gt"
  | .gtEq => "GtEq"
  | .and => "And"
  | .or => "Or"

def isArithmetic : BinaryOp → Bool
  | .add | .sub | .mul | .div | .mod | .pow => true
  | _ => false

def isComparison : BinaryOp → Bool
  | .eq | .notEq | .lt | .ltEq | .gt | .gtEq => true
  | _ => false

theorem mem_all (op : BinaryOp) : op ∈ all := by
  cases op <;> decide

end BinaryOp

inductive UnaryOp where
  | not
  | neg
  | plus
  deriving DecidableEq, Repr

namespace UnaryOp

def spelling : UnaryOp → String
  | .not => "!"
  | .neg => "-"
  | .plus => "+"

def name : UnaryOp → String
  | .not => "Not"
  | .neg => "Neg"
  | .plus => "Plus"

end UnaryOp

inductive AssignOp where
  | assign
  | add
  | sub
  | mul
  | div
  | mod
  deriving DecidableEq, Repr

namespace AssignOp

/-- The operator that a compound assignment applies to the old value. -/
def binary? : AssignOp → Option BinaryOp
  | .assign => none
  | .add => some .add
  | .sub => some .sub
  | .mul => some .mul
  | .div => some .div
  | .mod => some .mod

def name : AssignOp → String
  | .assign => "Assign"
  | .add => "Add"
  | .sub => "Sub"
  | .mul => "Mul"
  | .div => "Div"
  | .mod => "Mod"

end AssignOp

/-- The word that declares a variable. All three declare alike. -/
inductive VariableKind where
  | letVar
  | constVar
  | varVar
  deriving DecidableEq, Repr

def VariableKind.name : VariableKind → String
  | .letVar => "Let"
  | .constVar => "Const"
  | .varVar => "Var"

end ComponentLang
