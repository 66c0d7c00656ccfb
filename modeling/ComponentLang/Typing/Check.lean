import ComponentLang.Diagnostic
import ComponentLang.Tree.TypeExpr
import ComponentLang.Typing.Prelude
import ComponentLang.Typing.Table
import ComponentLang.Typing.Verdict

/-!
# Checking

What is known while a program is checked, and the steps that change it. A fault is reported once,
even if it is found again at the same place.
-/
namespace ComponentLang

/-- The type that a function says it returns, and the types that it has returned so far. -/
structure ReturnFrame where
  declared : Option Ty
  seen : List Ty
  deriving DecidableEq

/-- The state and methods of a component, with their types. -/
structure ComponentSummary where
  name : String
  state : List TypedName
  methods : List TypedName
  deriving DecidableEq

structure Checking where
  scopes : Scopes
  /-- The types of the values from outside, where they are given. -/
  external : List TypedName
  /-- The names of the components of the program. -/
  components : List String
  /-- The functions that are being checked, innermost first. -/
  returns : List ReturnFrame
  /-- What was found, newest first. -/
  diagnostics : List Diagnostic
  types : TypeTable
  summaries : List ComponentSummary

abbrev Check := StateM Checking

namespace Checking

/-- The state before a program. -/
def start (external : List TypedName) : Checking :=
  { scopes := Prelude.install .initial
    external
    components := []
    returns := []
    diagnostics := []
    types := .empty
    summaries := [] }

def addDiagnostic (c : Checking) (d : Diagnostic) : Checking :=
  if d ∈ c.diagnostics then c else { c with diagnostics := d :: c.diagnostics }

end Checking

namespace Check

def report (fault : TypeFault) (span : Span) : Check Unit :=
  modify fun c => c.addDiagnostic (.ofSpan .type fault.message span)

/-- Report what is wrong with an operation at `span`, and give its type. -/
def settle (verdict : Verdict) (span : Span) : Check Ty := do
  match verdict.fault with
  | some fault => report fault span
  | none => pure ()
  return verdict.type

/-- Report a value that is stored where it does not fit. -/
def expectStorable (value target : Ty) (span : Span) : Check Unit :=
  match Ty.storeFault? value target with
  | some fault => report fault span
  | none => pure ()

/-- Note the type of the expression with number `id`. -/
def record (id : Nat) (type : Ty) : Check Unit :=
  modify fun c => { c with types := c.types.insert id type }

def lookup? (name : String) : Check (Option Ty) := return (← get).scopes.lookup? name

def define (name : String) (type : Ty) : Check Unit :=
  modify fun c => { c with scopes := c.scopes.define name type }

/-- Give a variable another type where it is defined, if it is. -/
def update (name : String) (type : Ty) : Check Unit :=
  modify fun c => { c with scopes := (c.scopes.update? name type).getD c.scopes }

/-- The type of a variable at `span`; one that is not in sight is reported. -/
def variableType (name : String) (span : Span) : Check Ty := do
  match ← lookup? name with
  | some type => return type
  | none => settle (.fail (.undefinedVariable name)) span

def isComponent (name : String) : Check Bool := return (← get).components.contains name

def declareComponent (name : String) : Check Unit := do
  modify fun c => { c with components := c.components ++ [name] }
  define name (.component name)

/-- Check something in a scope of its own. -/
def inScope {α : Type} (check : Check α) : Check α := do
  modify fun c => { c with scopes := c.scopes.push }
  let result ← check
  modify fun c => { c with scopes := c.scopes.pop }
  return result

/-- Note what the innermost function returns, and report it if it is not what the function says.
Outside functions nothing is expected. -/
def noteReturn (type : Ty) (span : Span) : Check Unit := do
  let c ← get
  match c.returns with
  | [] => pure ()
  | frame :: outer =>
    set { c with returns := { frame with seen := frame.seen ++ [type] } :: outer }
    match frame.declared with
    | none => pure ()
    | some declared =>
      if type = .unknown || type.assignable declared then pure ()
      else report (.notReturnable type declared) span

/-- Check a function's body, and give the types that it returns. -/
def collectReturns (declared : Option Ty) (body : Check Unit) : Check (List Ty) := do
  modify fun c => { c with returns := ⟨declared, []⟩ :: c.returns }
  body
  let c ← get
  set { c with returns := c.returns.drop 1 }
  return (c.returns.head?.map ReturnFrame.seen).getD []

/-! ## Type expressions -/

/-- The type that a name in a type expression always means, if it has such a meaning. -/
def namedType? (name : String) : Option Ty :=
  if ["Int", "int", "number"].contains name then some .int
  else if ["Float", "float"].contains name then some .float
  else if ["Bool", "bool", "boolean"].contains name then some .bool
  else if ["String", "string"].contains name then some .string
  else if ["Null", "null"].contains name then some .null
  else if ["any", "Any"].contains name then some .any
  else if name = "unknown" then some .unknown
  else if name = "Array" then some (.array .any)
  else none

/-- The type that a name in a type expression means. -/
def namedType (name : String) (span : Span) : Check Ty := do
  match namedType? name with
  | some type => return type
  | none =>
    if ← isComponent name then return .component name
    else settle (.fail (.unknownType name)) span

mutual

/-- The type that a type expression means. -/
def resolve : TypeExpr → Check Ty
  | .named span name => namedType name span
  | .array _ element => return .array (← resolve element)
  | .optional _ inner => return .optional (← resolve inner)
  | .union _ members => return Ty.unionOf (← resolveAll members)

def resolveAll : List TypeExpr → Check (List Ty)
  | [] => return []
  | a :: rest => do
    let type ← resolve a
    return type :: (← resolveAll rest)

end

/-- The type that a type expression means, or `none` where nothing is written. -/
def resolve? : Option TypeExpr → Check (Option Ty)
  | none => return none
  | some a => return some (← resolve a)

end Check

end ComponentLang
