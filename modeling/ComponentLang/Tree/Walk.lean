import ComponentLang.Tree.Stmt

/-!
# Walking a program

The parts of a program in the order in which they are written, each before what is in it. A walk
may leave out what is in some of the parts: `descend` says into which parts it goes.
-/
namespace ComponentLang

inductive TreePart where
  | program (program : Program)
  | importDecl (item : Import)
  | exportDecl (item : Export)
  | component (component : Component)
  | function (function : Function)
  | block (block : Block)
  | stmt (stmt : Stmt)
  | expr (expr : Expr)
  /-- A use of a variable, after the expression that it is. -/
  | identifier (node : Node) (name : String)
  /-- A use of a value from outside, after the expression that it is. -/
  | valueBinding (node : Node) (name : String)
  | markup (markup : Markup)
  | tag (tag : Tag)
  | attribute (item : Attribute)
  | text (content : String) (span : Span)

namespace TreePart

def name : TreePart → String
  | .program .. => "program"
  | .importDecl .. => "import"
  | .exportDecl .. => "export"
  | .component .. => "component"
  | .function .. => "function"
  | .block .. => "block"
  | .stmt .. => "stmt"
  | .expr .. => "expr"
  | .identifier .. => "identifier"
  | .valueBinding .. => "value_binding"
  | .markup .. => "markup"
  | .tag .. => "tag"
  | .attribute .. => "attribute"
  | .text .. => "text"

/-- The name of a value from outside, at its use. -/
def bindingName? : TreePart → Option String
  | .valueBinding _ name => some name
  | _ => none

end TreePart

namespace Walk

/-- A part, and what is in it if the walk goes into it. -/
def enter (descend : TreePart → Bool) (part : TreePart) (inside : List TreePart) : List TreePart :=
  part :: if descend part then inside else []

/-! ## Expressions and markup -/

mutual

def expr (descend : TreePart → Bool) (e : Expr) : List TreePart :=
  enter descend (.expr e) <|
    match e with
    | .literal .. => []
    | .identifier node name => [.identifier node name]
    | .valueBinding node name => [.valueBinding node name]
    | .binary _ left _ right => expr descend left ++ expr descend right
    | .unary _ _ operand => expr descend operand
    | .await _ operand => expr descend operand
    | .call _ callee arguments => expr descend callee ++ exprs descend arguments
    | .member _ object _ => expr descend object
    | .index _ object index => expr descend object ++ expr descend index
    | .array _ items => exprs descend items
    | .object _ properties => propertyList descend properties
    | .conditional _ test consequent alternate =>
      expr descend test ++ (expr descend consequent ++ expr descend alternate)
    | .tag _ t => tag descend t

def exprs (descend : TreePart → Bool) : List Expr → List TreePart
  | [] => []
  | e :: rest => expr descend e ++ exprs descend rest

def propertyList (descend : TreePart → Bool) : List Property → List TreePart
  | [] => []
  | .named _ value :: rest => expr descend value ++ propertyList descend rest
  | .computed key value :: rest =>
    expr descend key ++ (expr descend value ++ propertyList descend rest)

def tag (descend : TreePart → Bool) (t : Tag) : List TreePart :=
  enter descend (.tag t) <|
    match t with
    | ⟨_, attributes, _, children, _, _⟩ =>
      attributeList descend attributes ++ markups descend children

def attributeList (descend : TreePart → Bool) : List Attribute → List TreePart
  | [] => []
  | a :: rest =>
    enter descend (.attribute a) (match a with
      | ⟨_, some value, _, _⟩ => expr descend value
      | ⟨_, none, _, _⟩ => []) ++ attributeList descend rest

def markup (descend : TreePart → Bool) (m : Markup) : List TreePart :=
  enter descend (.markup m) <|
    match m with
    | .tag t => tag descend t
    | .text content span => [.text content span]
    | .expr e => expr descend e

def markups (descend : TreePart → Bool) : List Markup → List TreePart
  | [] => []
  | m :: rest => markup descend m ++ markups descend rest

end

def expr? (descend : TreePart → Bool) : Option Expr → List TreePart
  | none => []
  | some e => expr descend e

/-! ## Statements -/

mutual

def stmt (descend : TreePart → Bool) (s : Stmt) : List TreePart :=
  enter descend (.stmt s) <|
    match s with
    | .expression _ e => expr descend e
    | .block b => block descend b
    | .variableDecl _ decl => expr? descend decl.init
    | .assignment _ target _ value => expr descend target ++ expr descend value
    | .ifElse _ test consequent alternate =>
      expr descend test ++ (block descend consequent ++ stmt? descend alternate)
    | .whileLoop _ test body => expr descend test ++ block descend body
    | .forLoop _ init test update body =>
      stmt? descend init ++ (expr? descend test ++
        (stmt? descend update ++ block descend body))
    | .forIn _ _ iterable body => expr descend iterable ++ block descend body
    | .returnStmt _ value => expr? descend value
    | .breakStmt _ => []
    | .continueStmt _ => []
    | .tryStmt _ b handler cleanup =>
      block descend b ++ (handler? descend handler ++ block? descend cleanup)
    | .throwStmt _ value => expr descend value
    | .asyncBlock _ b handler cleanup =>
      block descend b ++ (handler? descend handler ++ block? descend cleanup)
    | .functionDecl _ f => function descend f
    | .importDecl _ item => [.importDecl item]
    | .exportDecl _ item => exportDecl descend item
    | .error .. => []

def stmt? (descend : TreePart → Bool) : Option Stmt → List TreePart
  | none => []
  | some s => stmt descend s

def stmts (descend : TreePart → Bool) : List Stmt → List TreePart
  | [] => []
  | s :: rest => stmt descend s ++ stmts descend rest

def block (descend : TreePart → Bool) (b : Block) : List TreePart :=
  enter descend (.block b) <|
    match b with
    | ⟨statements, _⟩ => stmts descend statements

def block? (descend : TreePart → Bool) : Option Block → List TreePart
  | none => []
  | some b => block descend b

def handler? (descend : TreePart → Bool) : Option CatchClause → List TreePart
  | none => []
  | some ⟨_, body⟩ => block descend body

def function (descend : TreePart → Bool) (f : Function) : List TreePart :=
  enter descend (.function f) <|
    match f with
    | ⟨_, _, _, body, _, _, _⟩ => block descend body

def component (descend : TreePart → Bool) (c : Component) : List TreePart :=
  enter descend (.component c) <|
    match c with
    | ⟨_, _, statements, body, _⟩ => stmts descend statements ++ markups descend body

def exportDecl (descend : TreePart → Bool) (e : Export) : List TreePart :=
  enter descend (.exportDecl e) <|
    match e with
    | ⟨_, .function f, _⟩ => function descend f
    | ⟨_, .component c, _⟩ => component descend c
    | ⟨_, .statement s, _⟩ => stmt descend s

end

def program (descend : TreePart → Bool) (p : Program) : List TreePart :=
  enter descend (.program p) <|
    p.imports.map .importDecl ++ (p.exports.flatMap (exportDecl descend) ++
      (p.functions.flatMap (function descend) ++ (p.components.flatMap (component descend) ++
        p.statements.flatMap (stmt descend))))

end Walk

/-- All parts of a program. -/
def Program.parts (p : Program) : List TreePart := Walk.program (fun _ => true) p

/-- The names of the values that a program takes from outside, in the order of first use. -/
def Program.bindings (p : Program) : List String :=
  (p.parts.filterMap TreePart.bindingName?).eraseDups

end ComponentLang
