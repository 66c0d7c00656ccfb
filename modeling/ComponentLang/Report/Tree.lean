import ComponentLang.Report.Outline
import ComponentLang.Tree.Stmt

/-!
# Outlines of trees

How the parts of a program are named and ordered in its outline.
-/
namespace ComponentLang.Report

open Outline (number bool option word quoted list wrap record)

def span (s : Span) : Outline :=
  record "Span" [⟨"start", number s.start⟩, ⟨"end", number s.stop⟩, ⟨"line", number s.line⟩,
    ⟨"column", number s.column⟩]

def texts (items : List String) : Outline := list (items.map quoted)

/-! ## Type expressions -/

/-- A part with its kind and place. -/
def typeExprNode (kind : Outline) (s : Span) : Outline :=
  record "TypeExpr" [⟨"kind", kind⟩, ⟨"span", span s⟩]

mutual

def typeExpr : TypeExpr → Outline
  | .named s name => typeExprNode (wrap "Named" (quoted name)) s
  | .array s element => typeExprNode (wrap "Array" (typeExpr element)) s
  | .optional s inner => typeExprNode (wrap "Optional" (typeExpr inner)) s
  | .union s members => typeExprNode (wrap "Union" (list (typeExprs members))) s

def typeExprs : List TypeExpr → List Outline
  | [] => []
  | a :: rest => typeExpr a :: typeExprs rest

end

/-! ## Expressions and markup -/

def literal : Literal → Outline
  | .number text kind =>
    record "Number" [⟨"raw", quoted text⟩, ⟨"kind", word kind.name⟩]
  | .string value => wrap "String" (quoted value)
  | .bool value => wrap "Bool" (bool value)
  | .null => word "Null"

def exprNode (node : Node) (kind : Outline) : Outline :=
  record "Expr" [⟨"id", wrap "NodeId" (number node.id)⟩, ⟨"kind", kind⟩, ⟨"span", span node.span⟩]

def styleDecl (s : StyleDecl) : Outline :=
  record "StyleDecl" [⟨"property", quoted s.property⟩, ⟨"value", quoted s.value⟩]

mutual

def expr : Expr → Outline
  | .literal node value => exprNode node (wrap "Literal" (literal value))
  | .identifier node name => exprNode node (wrap "Identifier" (quoted name))
  | .valueBinding node name => exprNode node (wrap "ValueBinding" (quoted name))
  | .binary node left op right =>
    exprNode node (record "Binary" [⟨"left", expr left⟩, ⟨"op", word op.name⟩,
      ⟨"right", expr right⟩])
  | .unary node op operand =>
    exprNode node (record "Unary" [⟨"op", word op.name⟩, ⟨"operand", expr operand⟩])
  | .await node operand => exprNode node (wrap "Await" (expr operand))
  | .call node callee arguments =>
    exprNode node (record "Call" [⟨"callee", expr callee⟩, ⟨"arguments", list (exprs arguments)⟩])
  | .member node object property =>
    exprNode node (record "Member" [⟨"object", expr object⟩, ⟨"property", quoted property⟩])
  | .index node object index =>
    exprNode node (record "Index" [⟨"object", expr object⟩, ⟨"index", expr index⟩])
  | .array node items => exprNode node (wrap "Array" (list (exprs items)))
  | .object node properties => exprNode node (wrap "Object" (list (propertyList properties)))
  | .conditional node test consequent alternate =>
    exprNode node (record "Conditional" [⟨"test", expr test⟩, ⟨"consequent", expr consequent⟩,
      ⟨"alternate", expr alternate⟩])
  | .tag node t => exprNode node (wrap "Tag" (tag t))

def exprs : List Expr → List Outline
  | [] => []
  | e :: rest => expr e :: exprs rest

def propertyList : List Property → List Outline
  | [] => []
  | .named key value :: rest =>
    record "ObjectProperty" [⟨"key", wrap "Named" (quoted key)⟩, ⟨"value", expr value⟩] ::
      propertyList rest
  | .computed key value :: rest =>
    record "ObjectProperty" [⟨"key", wrap "Computed" (expr key)⟩, ⟨"value", expr value⟩] ::
      propertyList rest

def tag : Tag → Outline
  | ⟨name, attributes, styles, children, selfClosing, s⟩ =>
    record "Tag" [⟨"name", quoted name⟩, ⟨"attributes", list (attributeList attributes)⟩,
      ⟨"styles", list (styles.map styleDecl)⟩, ⟨"children", list (markups children)⟩,
      ⟨"self_closing", bool selfClosing⟩, ⟨"span", span s⟩]

def attributeList : List Attribute → List Outline
  | [] => []
  | ⟨name, value, event, s⟩ :: rest =>
    record "Attribute" [⟨"name", quoted name⟩, ⟨"value", expr? value⟩, ⟨"event", bool event⟩,
      ⟨"span", span s⟩] :: attributeList rest

def expr? : Option Expr → Outline
  | none => word "None"
  | some e => wrap "Some" (expr e)

def markup : Markup → Outline
  | .tag t => wrap "Tag" (tag t)
  | .text content s =>
    wrap "Text" (record "Text" [⟨"content", quoted content⟩, ⟨"span", span s⟩])
  | .expr e => wrap "Expr" (expr e)

def markups : List Markup → List Outline
  | [] => []
  | m :: rest => markup m :: markups rest

end

/-! ## Statements and declarations -/

def stmtNode (kind : Outline) (s : Span) : Outline :=
  record "Stmt" [⟨"kind", kind⟩, ⟨"span", span s⟩]

def variableDecl (decl : VariableDecl) : Outline :=
  record "VariableDecl" [⟨"kind", word decl.kind.name⟩, ⟨"name", quoted decl.name⟩,
    ⟨"ty", option typeExpr decl.typeExpr⟩, ⟨"init", expr? decl.init⟩]

def importDecl (i : Import) : Outline :=
  record "Import" [⟨"names", texts i.names⟩, ⟨"default", option quoted i.default⟩,
    ⟨"source", quoted i.source⟩, ⟨"span", span i.span⟩]

def param (p : Param) : Outline :=
  record "Param" [⟨"name", quoted p.name⟩, ⟨"ty", option typeExpr p.typeExpr⟩,
    ⟨"span", span p.span⟩]

mutual

def stmt : Stmt → Outline
  | .expression s e => stmtNode (wrap "Expression" (expr e)) s
  | .block b => stmtNode (wrap "Block" (block b)) b.span
  | .variableDecl s decl => stmtNode (wrap "Variable" (variableDecl decl)) s
  | .assignment s target op value =>
    stmtNode (record "Assignment" [⟨"target", expr target⟩, ⟨"op", word op.name⟩,
      ⟨"value", expr value⟩]) s
  | .ifElse s test consequent alternate =>
    stmtNode (record "If" [⟨"test", expr test⟩, ⟨"consequent", block consequent⟩,
      ⟨"alternate", stmt? alternate⟩]) s
  | .whileLoop s test body =>
    stmtNode (record "While" [⟨"test", expr test⟩, ⟨"body", block body⟩]) s
  | .forLoop s init test update body =>
    stmtNode (record "For" [⟨"init", stmt? init⟩, ⟨"test", expr? test⟩, ⟨"update", stmt? update⟩,
      ⟨"body", block body⟩]) s
  | .forIn s name iterable body =>
    stmtNode (record "ForIn" [⟨"variable", quoted name⟩, ⟨"iterable", expr iterable⟩,
      ⟨"body", block body⟩]) s
  | .returnStmt s value => stmtNode (wrap "Return" (expr? value)) s
  | .breakStmt s => stmtNode (word "Break") s
  | .continueStmt s => stmtNode (word "Continue") s
  | .tryStmt s b handler cleanup =>
    stmtNode (record "Try" [⟨"block", block b⟩, ⟨"catch", handler? handler⟩,
      ⟨"finally", block? cleanup⟩]) s
  | .throwStmt s value => stmtNode (wrap "Throw" (expr value)) s
  | .asyncBlock s b handler cleanup =>
    stmtNode (record "Async" [⟨"block", block b⟩, ⟨"catch", handler? handler⟩,
      ⟨"finally", block? cleanup⟩]) s
  | .functionDecl s f => stmtNode (wrap "Function" (function f)) s
  | .importDecl s i => stmtNode (wrap "Import" (importDecl i)) s
  | .exportDecl s e => stmtNode (wrap "Export" (exportDecl e)) s
  | .error s message => stmtNode (wrap "Error" (quoted message)) s

def stmt? : Option Stmt → Outline
  | none => word "None"
  | some s => wrap "Some" (stmt s)

def stmts : List Stmt → List Outline
  | [] => []
  | s :: rest => stmt s :: stmts rest

def block : Block → Outline
  | ⟨statements, s⟩ => record "Block" [⟨"statements", list (stmts statements)⟩, ⟨"span", span s⟩]

def block? : Option Block → Outline
  | none => word "None"
  | some b => wrap "Some" (block b)

def handler? : Option CatchClause → Outline
  | none => word "None"
  | some ⟨param, body⟩ =>
    wrap "Some" (record "CatchClause" [⟨"param", option quoted param⟩, ⟨"body", block body⟩])

def function : Function → Outline
  | ⟨name, params, returnType, body, isAsync, modifiers, s⟩ =>
    record "Function" [⟨"name", quoted name⟩, ⟨"params", list (params.map param)⟩,
      ⟨"return_type", option typeExpr returnType⟩, ⟨"body", block body⟩,
      ⟨"is_async", bool isAsync⟩, ⟨"modifiers", texts modifiers⟩, ⟨"span", span s⟩]

def component : Component → Outline
  | ⟨name, modifiers, statements, body, s⟩ =>
    record "Component" [⟨"name", quoted name⟩, ⟨"modifiers", texts modifiers⟩,
      ⟨"statements", list (stmts statements)⟩, ⟨"body", list (markups body)⟩, ⟨"span", span s⟩]

def exportItem : ExportItem → Outline
  | .function f => wrap "Function" (function f)
  | .component c => wrap "Component" (component c)
  | .statement s => wrap "Statement" (stmt s)

def exportDecl : Export → Outline
  | ⟨isDefault, item, s⟩ =>
    record "Export" [⟨"is_default", bool isDefault⟩, ⟨"item", exportItem item⟩, ⟨"span", span s⟩]

end

def program (p : Program) : Outline :=
  record "Program" [⟨"imports", list (p.imports.map importDecl)⟩,
    ⟨"exports", list (p.exports.map exportDecl)⟩, ⟨"functions", list (p.functions.map function)⟩,
    ⟨"components", list (p.components.map component)⟩,
    ⟨"statements", list (p.statements.map stmt)⟩]

end ComponentLang.Report
