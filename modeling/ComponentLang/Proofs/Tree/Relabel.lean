import ComponentLang.Tree.Stmt

/-!
# Trees with other nodes

A tree keeps its form and its words when its nodes are changed. Two readings of the same tokens
give trees that differ in their nodes only: in the numbers, if numbers were given out before, and
in the places, if the tokens stand elsewhere.
-/
namespace ComponentLang

namespace Relabel

variable (ν : Node → Node)

/-! ## Expressions and markup -/

mutual

def expr : Expr → Expr
  | .literal node value => .literal (ν node) value
  | .identifier node name => .identifier (ν node) name
  | .valueBinding node name => .valueBinding (ν node) name
  | .binary node left op right => .binary (ν node) (expr left) op (expr right)
  | .unary node op operand => .unary (ν node) op (expr operand)
  | .await node operand => .await (ν node) (expr operand)
  | .call node callee arguments => .call (ν node) (expr callee) (exprs arguments)
  | .member node object property => .member (ν node) (expr object) property
  | .index node object index => .index (ν node) (expr object) (expr index)
  | .array node items => .array (ν node) (exprs items)
  | .object node properties => .object (ν node) (propertyList properties)
  | .conditional node test consequent alternate =>
    .conditional (ν node) (expr test) (expr consequent) (expr alternate)
  | .tag node t => .tag (ν node) (tag t)

def exprs : List Expr → List Expr
  | [] => []
  | e :: rest => expr e :: exprs rest

def property : Property → Property
  | .named key value => .named key (expr value)
  | .computed key value => .computed (expr key) (expr value)

def propertyList : List Property → List Property
  | [] => []
  | p :: rest => property p :: propertyList rest

def tag : Tag → Tag
  | ⟨name, attributes, styles, children, selfClosing, span⟩ =>
    ⟨name, attributeList attributes, styles, markups children, selfClosing, span⟩

def tagAttribute : Attribute → Attribute
  | ⟨name, value, event, span⟩ => ⟨name, expr? value, event, span⟩

def attributeList : List Attribute → List Attribute
  | [] => []
  | a :: rest => tagAttribute a :: attributeList rest

def expr? : Option Expr → Option Expr
  | none => none
  | some e => some (expr e)

def markup : Markup → Markup
  | .tag t => .tag (tag t)
  | .text content span => .text content span
  | .expr e => .expr (expr e)

def markups : List Markup → List Markup
  | [] => []
  | m :: rest => markup m :: markups rest

end

theorem exprs_eq_map (es : List Expr) : exprs ν es = es.map (expr ν) := by
  induction es with
  | nil => rfl
  | cons e rest ih => rw [exprs, ih, List.map_cons]

theorem propertyList_eq_map (ps : List Property) : propertyList ν ps = ps.map (property ν) := by
  induction ps with
  | nil => rfl
  | cons p rest ih => rw [propertyList, ih, List.map_cons]

theorem attributeList_eq_map (as : List Attribute) :
    attributeList ν as = as.map (tagAttribute ν) := by
  induction as with
  | nil => rfl
  | cons a rest ih => rw [attributeList, ih, List.map_cons]

theorem markups_eq_map (ms : List Markup) : markups ν ms = ms.map (markup ν) := by
  induction ms with
  | nil => rfl
  | cons m rest ih => rw [markups, ih, List.map_cons]

theorem node_expr (e : Expr) : (expr ν e).node = ν e.node := by
  cases e <;> rfl

theorem span_tag (t : Tag) : (tag ν t).span = t.span := by
  cases t
  rfl

theorem isAssignable_expr (e : Expr) : (expr ν e).isAssignable = e.isAssignable := by
  cases e <;> rfl

mutual

theorem expr_id : ∀ e : Expr, expr id e = e
  | .literal .. | .identifier .. | .valueBinding .. => rfl
  | .binary _ left _ right => by rw [expr, expr_id left, expr_id right, id_eq]
  | .unary _ _ operand => by rw [expr, expr_id operand, id_eq]
  | .await _ operand => by rw [expr, expr_id operand, id_eq]
  | .call _ callee arguments => by rw [expr, expr_id callee, exprs_id arguments, id_eq]
  | .member _ object _ => by rw [expr, expr_id object, id_eq]
  | .index _ object index => by rw [expr, expr_id object, expr_id index, id_eq]
  | .array _ items => by rw [expr, exprs_id items, id_eq]
  | .object _ properties => by rw [expr, propertyList_id properties, id_eq]
  | .conditional _ test consequent alternate => by
    rw [expr, expr_id test, expr_id consequent, expr_id alternate, id_eq]
  | .tag _ t => by rw [expr, tag_id t, id_eq]

theorem exprs_id : ∀ es : List Expr, exprs id es = es
  | [] => rfl
  | e :: rest => by rw [exprs, expr_id e, exprs_id rest]

theorem property_id : ∀ p : Property, property id p = p
  | .named _ value => by rw [property, expr_id value]
  | .computed key value => by rw [property, expr_id key, expr_id value]

theorem propertyList_id : ∀ ps : List Property, propertyList id ps = ps
  | [] => rfl
  | p :: rest => by rw [propertyList, property_id p, propertyList_id rest]

theorem tag_id : ∀ t : Tag, tag id t = t
  | ⟨_, attributes, _, children, _, _⟩ => by
    rw [tag, attributeList_id attributes, markups_id children]

theorem tagAttribute_id : ∀ a : Attribute, tagAttribute id a = a
  | ⟨_, value, _, _⟩ => by rw [tagAttribute, expr?_id value]

theorem attributeList_id : ∀ as : List Attribute, attributeList id as = as
  | [] => rfl
  | a :: rest => by rw [attributeList, tagAttribute_id a, attributeList_id rest]

theorem expr?_id : ∀ e : Option Expr, expr? id e = e
  | none => rfl
  | some e => by rw [expr?, expr_id e]

theorem markup_id : ∀ m : Markup, markup id m = m
  | .tag t => by rw [markup, tag_id t]
  | .text .. => rfl
  | .expr e => by rw [markup, expr_id e]

theorem markups_id : ∀ ms : List Markup, markups id ms = ms
  | [] => rfl
  | m :: rest => by rw [markups, markup_id m, markups_id rest]

end

/-! ## Statements and declarations -/

def variableDecl (d : VariableDecl) : VariableDecl := { d with init := expr? ν d.init }

mutual

def stmt : Stmt → Stmt
  | .expression span e => .expression span (expr ν e)
  | .block b => .block (block b)
  | .variableDecl span decl => .variableDecl span (variableDecl ν decl)
  | .assignment span target op value => .assignment span (expr ν target) op (expr ν value)
  | .ifElse span test consequent alternate =>
    .ifElse span (expr ν test) (block consequent) (stmt? alternate)
  | .whileLoop span test body => .whileLoop span (expr ν test) (block body)
  | .forLoop span init test update body =>
    .forLoop span (stmt? init) (expr? ν test) (stmt? update) (block body)
  | .forIn span name iterable body => .forIn span name (expr ν iterable) (block body)
  | .returnStmt span value => .returnStmt span (expr? ν value)
  | .breakStmt span => .breakStmt span
  | .continueStmt span => .continueStmt span
  | .tryStmt span b handler cleanup =>
    .tryStmt span (block b) (handler? handler) (block? cleanup)
  | .throwStmt span value => .throwStmt span (expr ν value)
  | .asyncBlock span b handler cleanup =>
    .asyncBlock span (block b) (handler? handler) (block? cleanup)
  | .functionDecl span f => .functionDecl span (function f)
  | .importDecl span item => .importDecl span item
  | .exportDecl span item => .exportDecl span (exportDecl item)
  | .error span message => .error span message

def stmt? : Option Stmt → Option Stmt
  | none => none
  | some s => some (stmt s)

def stmts : List Stmt → List Stmt
  | [] => []
  | s :: rest => stmt s :: stmts rest

def block : Block → Block
  | ⟨statements, span⟩ => ⟨stmts statements, span⟩

def block? : Option Block → Option Block
  | none => none
  | some b => some (block b)

def handler : CatchClause → CatchClause
  | ⟨param, body⟩ => ⟨param, block body⟩

def handler? : Option CatchClause → Option CatchClause
  | none => none
  | some clause => some (handler clause)

def function : Function → Function
  | ⟨name, params, returnType, body, isAsync, modifiers, span⟩ =>
    ⟨name, params, returnType, block body, isAsync, modifiers, span⟩

def component : Component → Component
  | ⟨name, modifiers, statements, body, span⟩ =>
    ⟨name, modifiers, stmts statements, markups ν body, span⟩

def exportDecl : Export → Export
  | ⟨isDefault, .function f, span⟩ => ⟨isDefault, .function (function f), span⟩
  | ⟨isDefault, .component c, span⟩ => ⟨isDefault, .component (component c), span⟩
  | ⟨isDefault, .statement s, span⟩ => ⟨isDefault, .statement (stmt s), span⟩

end

theorem stmts_eq_map (ss : List Stmt) : stmts ν ss = ss.map (stmt ν) := by
  induction ss with
  | nil => rfl
  | cons s rest ih => rw [stmts, ih, List.map_cons]

theorem block?_eq_map (b : Option Block) : block? ν b = b.map (block ν) := by
  cases b <;> rfl

theorem handler?_eq_map (h : Option CatchClause) : handler? ν h = h.map (handler ν) := by
  cases h <;> rfl

theorem variableDecl_id (d : VariableDecl) : variableDecl id d = d := by
  rw [variableDecl, expr?_id]

mutual

theorem stmt_id : ∀ s : Stmt, stmt id s = s
  | .expression .. | .throwStmt .. => by rw [stmt, expr_id]
  | .returnStmt .. => by rw [stmt, expr?_id]
  | .variableDecl .. => by rw [stmt, variableDecl_id]
  | .assignment .. => by rw [stmt, expr_id, expr_id]
  | .breakStmt .. | .continueStmt .. | .importDecl .. | .error .. => rfl
  | .block b => by rw [stmt, block_id b]
  | .ifElse _ _ consequent alternate => by
    rw [stmt, expr_id, block_id consequent, stmt?_id alternate]
  | .whileLoop _ _ body => by rw [stmt, expr_id, block_id body]
  | .forLoop _ init _ update body => by
    rw [stmt, expr?_id, stmt?_id init, stmt?_id update, block_id body]
  | .forIn _ _ _ body => by rw [stmt, expr_id, block_id body]
  | .tryStmt _ b h cleanup => by rw [stmt, block_id b, handler?_id h, block?_id cleanup]
  | .asyncBlock _ b h cleanup => by rw [stmt, block_id b, handler?_id h, block?_id cleanup]
  | .functionDecl _ f => by rw [stmt, function_id f]
  | .exportDecl _ item => by rw [stmt, exportDecl_id item]

theorem stmt?_id : ∀ s : Option Stmt, stmt? id s = s
  | none => rfl
  | some s => by rw [stmt?, stmt_id s]

theorem stmts_id : ∀ ss : List Stmt, stmts id ss = ss
  | [] => rfl
  | s :: rest => by rw [stmts, stmt_id s, stmts_id rest]

theorem block_id : ∀ b : Block, block id b = b
  | ⟨statements, _⟩ => by rw [block, stmts_id statements]

theorem block?_id : ∀ b : Option Block, block? id b = b
  | none => rfl
  | some b => by rw [block?, block_id b]

theorem handler?_id : ∀ h : Option CatchClause, handler? id h = h
  | none => rfl
  | some ⟨_, body⟩ => by rw [handler?, handler, block_id body]

theorem function_id : ∀ f : Function, function id f = f
  | ⟨_, _, _, body, _, _, _⟩ => by rw [function, block_id body]

theorem component_id : ∀ c : Component, component id c = c
  | ⟨_, _, statements, _, _⟩ => by rw [component, stmts_id statements, markups_id]

theorem exportDecl_id : ∀ e : Export, exportDecl id e = e
  | ⟨_, .function f, _⟩ => by rw [exportDecl, function_id f]
  | ⟨_, .component c, _⟩ => by rw [exportDecl, component_id c]
  | ⟨_, .statement s, _⟩ => by rw [exportDecl, stmt_id s]

end

end Relabel

end ComponentLang
