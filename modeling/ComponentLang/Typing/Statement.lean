import ComponentLang.Tree.Stmt
import ComponentLang.Typing.Infer

/-!
# Checking statements and declarations

Bodies are checked in scopes of their own. A function is in sight in its own body with what it
says of its type; when the body is checked, its type is settled by what the body returns. The
variables and plain assignments of a component are its state.
-/
namespace ComponentLang.Check

/-! ## Variables -/

/-- The type that a variable is declared with, if its declaration settles one. -/
def declaredType (annotated : Option Ty) (init : Option Ty) : Ty :=
  (annotated <|> init).getD .unknown

def variableDecl (decl : VariableDecl) : Check Unit := do
  let annotated ← resolve? decl.typeExpr
  let init ← match decl.init with
    | none => pure none
    | some e => some <$> expr e
  match annotated, init, decl.init with
  | some target, some value, some e => expectStorable value target e.span
  | _, _, _ => pure ()
  define decl.name (declaredType annotated init)

/-- The type of the left side of an assignment. -/
def assignmentTarget (target : Expr) : Check Ty := do
  match target with
  | .identifier node name =>
    let type ← variableType name node.span
    record node.id type
    return type
  | _ => expr target

/-- The type that an assignment stores. -/
def assignedType (op : AssignOp) (target value : Ty) (span : Span) : Check Ty :=
  match op.binary? with
  | none => return value
  | some op => settle (Ty.ofBinary op target value) span

/-- A variable without a known type takes the first known type that is stored in it. -/
def adopt (target : Expr) (type : Ty) : Check Unit :=
  match target with
  | .identifier _ name => if type = .unknown then pure () else update name type
  | _ => pure ()

def assignment (target : Expr) (op : AssignOp) (value : Expr) : Check Unit := do
  let targetType ← assignmentTarget target
  let valueType ← expr value
  let stored ← assignedType op targetType valueType value.span
  if targetType = .unknown then adopt target stored
  else expectStorable stored targetType value.span

/-! ## Functions -/

def paramTypes : List Param → Check (List Ty)
  | [] => return []
  | p :: rest => do
    let type ← resolve? p.typeExpr
    return type.getD .any :: (← paramTypes rest)

/-- The type of a function by what is written of it alone. -/
def signature (f : Function) : Check Ty := do
  let params ← paramTypes f.params
  let result ← resolve? f.returnType
  return .function params (result.getD .any) f.isAsync

def defineAll : List Param → List Ty → Check Unit
  | p :: params, type :: types => do
    define p.name type
    defineAll params types
  | _, _ => pure ()

/-- The result type of a function from what it says and the types that it returns. -/
def resultType (declared : Option Ty) (seen : List Ty) : Ty :=
  declared.getD (if seen.isEmpty then .null else Ty.unionOf seen)

/-- Check a function of which `body` checks the body, define it and give its type. -/
def functionType (name : String) (params : List Param) (returnType : Option TypeExpr)
    (isAsync : Bool) (body : Check Unit) : Check Ty := do
  let types ← paramTypes params
  let declared ← resolve? returnType
  define name (.function types (declared.getD .any) isAsync)
  let seen ← inScope do
    defineAll params types
    collectReturns declared body
  let type := Ty.function types (resultType declared seen) isAsync
  define name type
  return type

/-- The names that an import brings into sight. Nothing is known of their types. -/
def importNames : List String → Check Unit
  | [] => pure ()
  | name :: rest => do
    define name .any
    importNames rest

def importDecl (item : Import) : Check Unit := importNames (item.names ++ item.default.toList)

/-- Bring the methods of a component into sight. -/
def declareMethods : List Stmt → Check Unit
  | [] => pure ()
  | .functionDecl _ f :: rest => do
    define f.name (← signature f)
    declareMethods rest
  | _ :: rest => declareMethods rest

/-- Note what a component consists of, at the end of its scope. -/
def summarize (name : String) (state : List String) (methods : List TypedName) : Check Unit :=
  modify fun c =>
    let types := state.filterMap fun n => (c.scopes.lookup? n).map fun t => ⟨n, t⟩
    { c with summaries := c.summaries ++ [⟨name, types, methods⟩] }

/-! ## Statements -/

mutual

def stmt (s : Stmt) : Check Unit := do
  match s with
  | .expression _ e =>
    let _ ← expr e
  | .block b => block b
  | .variableDecl _ decl => variableDecl decl
  | .assignment _ target op value => assignment target op value
  | .ifElse _ test consequent alternate =>
    let _ ← expr test
    block consequent
    stmt? alternate
  | .whileLoop _ test body =>
    let _ ← expr test
    block body
  | .forLoop _ init test update body =>
    inScope do
      stmt? init
      expr? test
      stmt? update
      block body
  | .forIn _ name iterable body =>
    let type ← expr iterable
    inScope do
      define name (Ty.ofElement type)
      block body
  | .returnStmt span value =>
    match value with
    | none => noteReturn .null span
    | some e => noteReturn (← expr e) e.span
  | .breakStmt _ => pure ()
  | .continueStmt _ => pure ()
  | .tryStmt _ b handler cleanup =>
    block b
    handler? handler
    block? cleanup
  | .throwStmt _ value =>
    let _ ← expr value
  | .asyncBlock _ b handler cleanup =>
    block b
    handler? handler
    block? cleanup
  | .functionDecl _ f =>
    let _ ← function f
  | .importDecl _ item => importDecl item
  | .exportDecl _ item => exportDecl item
  | .error .. => pure ()

def stmt? : Option Stmt → Check Unit
  | none => pure ()
  | some s => stmt s

def stmts : List Stmt → Check Unit
  | [] => pure ()
  | s :: rest => do
    stmt s
    stmts rest

def block (b : Block) : Check Unit :=
  match b with
  | ⟨statements, _⟩ => inScope (stmts statements)

def block? : Option Block → Check Unit
  | none => pure ()
  | some b => block b

def handler? : Option CatchClause → Check Unit
  | none => pure ()
  | some ⟨param, body⟩ =>
    inScope do
      importNames param.toList
      block body

def function (f : Function) : Check Ty :=
  match f with
  | ⟨name, params, returnType, ⟨statements, _⟩, isAsync, _, _⟩ =>
    functionType name params returnType isAsync (stmts statements)

/-- Check the members of a component that are not methods, and give the names of its state. -/
def members : List Stmt → Check (List String)
  | [] => return []
  | s :: rest => do
    match s with
    | .functionDecl .. => members rest
    | .variableDecl _ decl =>
      variableDecl decl
      return decl.name :: (← members rest)
    | .assignment _ (.identifier node name) .assign value =>
      if (← get).scopes.definesHere name then
        stmt s
        members rest
      else
        let type ← expr value
        record node.id type
        define name type
        return name :: (← members rest)
    | _ =>
      stmt s
      members rest

/-- Check the methods of a component, and give their types. -/
def methods : List Stmt → Check (List TypedName)
  | [] => return []
  | s :: rest => do
    match s with
    | .functionDecl _ f =>
      let type ← function f
      return ⟨f.name, type⟩ :: (← methods rest)
    | _ => methods rest

def component (c : Component) : Check Unit :=
  match c with
  | ⟨name, _, statements, body, _⟩ =>
    inScope do
      declareMethods statements
      let state ← members statements
      let methods ← methods statements
      markups body
      summarize name state methods

def exportDecl (e : Export) : Check Unit :=
  match e with
  | ⟨_, .function f, _⟩ => do
    let _ ← function f
  | ⟨_, .component c, _⟩ => component c
  | ⟨_, .statement s, _⟩ => stmt s

end

end ComponentLang.Check
