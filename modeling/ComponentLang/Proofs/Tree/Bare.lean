import ComponentLang.Typing.Program

/-!
# Trees without annotations

A program without its annotations: no type is written for its variables and parameters, nor for what
its functions return. Expressions and markup have no annotations in them. Two programs are the same
but for their annotations when they are the same without them.
-/
namespace ComponentLang

def VariableDecl.bare (decl : VariableDecl) : VariableDecl := { decl with typeExpr := none }

def Param.bare (param : Param) : Param := { param with typeExpr := none }

namespace Bare

mutual

def stmt : Stmt → Stmt
  | .expression span e => .expression span e
  | .block b => .block (block b)
  | .variableDecl span decl => .variableDecl span decl.bare
  | .assignment span target op value => .assignment span target op value
  | .ifElse span test consequent alternate =>
    .ifElse span test (block consequent) (stmt? alternate)
  | .whileLoop span test body => .whileLoop span test (block body)
  | .forLoop span init test update body =>
    .forLoop span (stmt? init) test (stmt? update) (block body)
  | .forIn span name iterable body => .forIn span name iterable (block body)
  | .returnStmt span value => .returnStmt span value
  | .breakStmt span => .breakStmt span
  | .continueStmt span => .continueStmt span
  | .tryStmt span b handler cleanup => .tryStmt span (block b) (handler? handler) (block? cleanup)
  | .throwStmt span value => .throwStmt span value
  | .asyncBlock span b handler cleanup =>
    .asyncBlock span (block b) (handler? handler) (block? cleanup)
  | .functionDecl span f => .functionDecl span (function f)
  | .importDecl span item => .importDecl span item
  | .exportDecl span item => .exportDecl span (exportDecl item)
  | .error span message => .error span message

def stmt? : Option Stmt → Option Stmt
  | none => none
  | some s => some (stmt s)

def stmts : List Stmt → List Stmt
  | [] => []
  | s :: rest => stmt s :: stmts rest

def block : Block → Block
  | ⟨statements, span⟩ => ⟨stmts statements, span⟩

def block? : Option Block → Option Block
  | none => none
  | some b => some (block b)

def handler? : Option CatchClause → Option CatchClause
  | none => none
  | some ⟨param, body⟩ => some ⟨param, block body⟩

def function : Function → Function
  | ⟨name, params, _, ⟨statements, blockSpan⟩, isAsync, modifiers, span⟩ =>
    ⟨name, params.map Param.bare, none, ⟨stmts statements, blockSpan⟩, isAsync, modifiers, span⟩

def component : Component → Component
  | ⟨name, modifiers, statements, body, span⟩ => ⟨name, modifiers, stmts statements, body, span⟩

def exportDecl : Export → Export
  | ⟨isDefault, .function f, span⟩ => ⟨isDefault, .function (function f), span⟩
  | ⟨isDefault, .component c, span⟩ => ⟨isDefault, .component (component c), span⟩
  | ⟨isDefault, .statement s, span⟩ => ⟨isDefault, .statement (stmt s), span⟩

end

theorem name_function (f : Function) : (function f).name = f.name := by
  obtain ⟨name, params, returnType, ⟨statements, blockSpan⟩, isAsync, modifiers, span⟩ := f
  rfl

theorem name_component (c : Component) : (component c).name = c.name := by
  obtain ⟨name, modifiers, statements, body, span⟩ := c
  rfl

theorem component?_exportDecl (e : Export) :
    (exportDecl e).item.component? = e.item.component?.map component := by
  obtain ⟨isDefault, item, span⟩ := e
  cases item <;> rfl

theorem function?_exportDecl (e : Export) :
    (exportDecl e).item.function? = e.item.function?.map function := by
  obtain ⟨isDefault, item, span⟩ := e
  cases item <;> rfl

end Bare

/-- The program without its annotations. -/
def Program.bare (p : Program) : Program where
  imports := p.imports
  exports := p.exports.map Bare.exportDecl
  functions := p.functions.map Bare.function
  components := p.components.map Bare.component
  statements := p.statements.map Bare.stmt

namespace Program

theorem allComponents_bare (p : Program) :
    p.bare.allComponents = p.allComponents.map Bare.component := by
  simp only [allComponents, bare, List.map_append, List.filterMap_map, List.map_filterMap,
    Function.comp_def, Bare.component?_exportDecl]

theorem allFunctions_bare (p : Program) :
    p.bare.allFunctions = p.allFunctions.map Bare.function := by
  simp only [allFunctions, bare, List.map_append, List.filterMap_map, List.map_filterMap,
    Function.comp_def, Bare.function?_exportDecl]

end Program

end ComponentLang
