import ComponentLang.Tree.Expr

/-!
# Statements, declarations and programs

A statement that could not be read leaves an `error` in its place, with the message that was
reported for it.
-/
namespace ComponentLang

structure VariableDecl where
  kind : VariableKind
  name : String
  typeExpr : Option TypeExpr
  init : Option Expr

structure Param where
  name : String
  typeExpr : Option TypeExpr
  span : Span

/-- What a program takes from another: some names, or one default name. -/
structure Import where
  names : List String
  default : Option String
  source : String
  span : Span

mutual

inductive Stmt where
  | expression (span : Span) (expr : Expr)
  | block (block : Block)
  | variableDecl (span : Span) (decl : VariableDecl)
  | assignment (span : Span) (target : Expr) (op : AssignOp) (value : Expr)
  /-- The alternate is another `ifElse` or a block. -/
  | ifElse (span : Span) (test : Expr) (consequent : Block) (alternate : Option Stmt)
  | whileLoop (span : Span) (test : Expr) (body : Block)
  | forLoop (span : Span) (init : Option Stmt) (test : Option Expr) (update : Option Stmt)
      (body : Block)
  | forIn (span : Span) (name : String) (iterable : Expr) (body : Block)
  | returnStmt (span : Span) (value : Option Expr)
  | breakStmt (span : Span)
  | continueStmt (span : Span)
  | tryStmt (span : Span) (block : Block) (handler : Option CatchClause)
      (cleanup : Option Block)
  | throwStmt (span : Span) (value : Expr)
  | asyncBlock (span : Span) (block : Block) (handler : Option CatchClause)
      (cleanup : Option Block)
  | functionDecl (span : Span) (function : Function)
  | importDecl (span : Span) (item : Import)
  | exportDecl (span : Span) (item : Export)
  | error (span : Span) (message : String)

structure Block where
  statements : List Stmt
  span : Span

structure CatchClause where
  param : Option String
  body : Block

/-- A function, or a method of a component. -/
structure Function where
  name : String
  params : List Param
  returnType : Option TypeExpr
  body : Block
  isAsync : Bool
  modifiers : List String
  span : Span

/-- A component: its state, methods and other statements in order, and its markup. -/
structure Component where
  name : String
  modifiers : List String
  statements : List Stmt
  body : List Markup
  span : Span

inductive ExportItem where
  | function (function : Function)
  | component (component : Component)
  | statement (statement : Stmt)

structure Export where
  isDefault : Bool
  item : ExportItem
  span : Span

end

namespace Stmt

def span : Stmt → Span
  | .expression span _ => span
  | .block b => b.span
  | .variableDecl span _ => span
  | .assignment span _ _ _ => span
  | .ifElse span _ _ _ => span
  | .whileLoop span _ _ => span
  | .forLoop span _ _ _ _ => span
  | .forIn span _ _ _ => span
  | .returnStmt span _ => span
  | .breakStmt span => span
  | .continueStmt span => span
  | .tryStmt span _ _ _ => span
  | .throwStmt span _ => span
  | .asyncBlock span _ _ _ => span
  | .functionDecl span _ => span
  | .importDecl span _ => span
  | .exportDecl span _ => span
  | .error span _ => span

def kindName : Stmt → String
  | .expression .. => "ExpressionStatement"
  | .block .. => "BlockStatement"
  | .variableDecl .. => "VariableDeclaration"
  | .assignment .. => "Assignment"
  | .ifElse .. => "IfStatement"
  | .whileLoop .. => "WhileStatement"
  | .forLoop .. => "ForStatement"
  | .forIn .. => "ForInStatement"
  | .returnStmt .. => "ReturnStatement"
  | .breakStmt .. => "BreakStatement"
  | .continueStmt .. => "ContinueStatement"
  | .tryStmt .. => "TryStatement"
  | .throwStmt .. => "ThrowStatement"
  | .asyncBlock .. => "AsyncBlock"
  | .functionDecl .. => "FunctionDeclaration"
  | .importDecl .. => "ImportDeclaration"
  | .exportDecl .. => "ExportDeclaration"
  | .error .. => "Error"

end Stmt

/-- One unit of source. -/
structure Program where
  imports : List Import
  exports : List Export
  functions : List Function
  components : List Component
  statements : List Stmt

def Program.empty : Program := ⟨[], [], [], [], []⟩

end ComponentLang
