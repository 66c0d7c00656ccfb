import ComponentLang.Tree.Expr
import ComponentLang.Typing.Check

/-!
# The types of expressions

Checking an expression gives its type and notes the type of it and of every expression in it. The
value of a property is checked before its key. An array without items has items of no known type.
-/
namespace ComponentLang.Check

/-- The type of a value from outside: `any`, unless another is given. -/
def externalType (name : String) : Check Ty :=
  return (TypedName.lookup? name (← get).external).getD .any

/-- Report a tag that looks like a component and is none. A name in sight is taken for one. -/
def noteTag (name : String) (looksLikeComponent : Bool) (span : Span) : Check Unit := do
  let known := (← isComponent name) || (← lookup? name).isSome
  if looksLikeComponent && !known then report (.unknownComponent name) span

/-- The type of a tag that stands as a value. -/
def tagType (t : Tag) : Check Ty := do
  if t.isComponent && (← isComponent t.name) then return .component t.name else return .any

def reportAll : List (TypeFault × Span) → Check Unit
  | [] => pure ()
  | (fault, span) :: rest => do
    report fault span
    reportAll rest

mutual

/-- Check an expression, note its type and give it. -/
def expr (e : Expr) : Check Ty := do
  let type ← match e with
    | .literal _ value => pure (Ty.ofLiteral value)
    | .identifier node name => variableType name node.span
    | .valueBinding _ name => externalType name
    | .binary node left op right => do
      let l ← expr left
      let r ← expr right
      settle (Ty.ofBinary op l r) node.span
    | .unary node op operand => do
      let t ← expr operand
      settle (Ty.ofUnary op t) node.span
    | .await _ operand => expr operand
    | .call node callee arguments => do
      let t ← expr callee
      let types ← exprs arguments
      let (result, faults) := Ty.ofCall t (types.zip (arguments.map Expr.span)) node.span
      reportAll faults
      pure result
    | .member node object property => do
      let t ← expr object
      settle (Ty.ofMember property t) node.span
    | .index node object index => do
      let t ← expr object
      let i ← expr index
      settle (Ty.ofIndex t i) node.span
    | .array _ items => do
      let types ← exprs items
      pure (.array (Ty.unionOf types))
    | .object _ properties => do
      let fields ← propertyList [] properties
      pure (.object fields)
    | .conditional _ test consequent alternate => do
      let _ ← expr test
      let a ← expr consequent
      let b ← expr alternate
      pure (Ty.unionOf [a, b])
    | .tag _ t => do
      tag t
      tagType t
  record e.id type
  return type

def exprs : List Expr → Check (List Ty)
  | [] => return []
  | e :: rest => do
    let type ← expr e
    return type :: (← exprs rest)

/-- The fields of an object after those known already. A computed key adds no field. -/
def propertyList (fields : List TypedName) : List Property → Check (List TypedName)
  | [] => return fields
  | .named key value :: rest => do
    let type ← expr value
    propertyList (TypedName.put key type fields) rest
  | .computed key value :: rest => do
    let _ ← expr value
    let _ ← expr key
    propertyList fields rest

def tag (t : Tag) : Check Unit := do
  noteTag t.name t.isComponent t.span
  match t with
  | ⟨_, attributes, _, children, _, _⟩ => do
    attributeList attributes
    markups children

def attributeList : List Attribute → Check Unit
  | [] => pure ()
  | ⟨_, some value, _, _⟩ :: rest => do
    let _ ← expr value
    attributeList rest
  | ⟨_, none, _, _⟩ :: rest => attributeList rest

def markup : Markup → Check Unit
  | .tag t => tag t
  | .text .. => pure ()
  | .expr e => do
    let _ ← expr e

def markups : List Markup → Check Unit
  | [] => pure ()
  | m :: rest => do
    markup m
    markups rest

end

def expr? : Option Expr → Check Unit
  | none => pure ()
  | some e => do
    let _ ← expr e

end ComponentLang.Check
