import ComponentLang.Tree.Stmt

/-!
# Trees elsewhere

A tree keeps its form and its words when its nodes are numbered otherwise and when it stands
elsewhere. All numbers are changed by `ν` and all places by `μ`, those of statements, types and
texts too.
-/
namespace ComponentLang

namespace Remap

variable (ν : Nat → Nat) (μ : Span → Span)

def node (n : Node) : Node := ⟨ν n.id, μ n.span⟩

/-! ## Types -/

mutual

def typeExpr : TypeExpr → TypeExpr
  | .named span name => .named (μ span) name
  | .array span element => .array (μ span) (typeExpr element)
  | .optional span inner => .optional (μ span) (typeExpr inner)
  | .union span members => .union (μ span) (typeExprs members)

def typeExprs : List TypeExpr → List TypeExpr
  | [] => []
  | a :: rest => typeExpr a :: typeExprs rest

end

/-! ## Expressions and markup -/

mutual

def expr : Expr → Expr
  | .literal n value => .literal (node ν μ n) value
  | .identifier n name => .identifier (node ν μ n) name
  | .valueBinding n name => .valueBinding (node ν μ n) name
  | .binary n left op right => .binary (node ν μ n) (expr left) op (expr right)
  | .unary n op operand => .unary (node ν μ n) op (expr operand)
  | .await n operand => .await (node ν μ n) (expr operand)
  | .call n callee arguments => .call (node ν μ n) (expr callee) (exprs arguments)
  | .member n object property => .member (node ν μ n) (expr object) property
  | .index n object index => .index (node ν μ n) (expr object) (expr index)
  | .array n items => .array (node ν μ n) (exprs items)
  | .object n properties => .object (node ν μ n) (propertyList properties)
  | .conditional n test consequent alternate =>
    .conditional (node ν μ n) (expr test) (expr consequent) (expr alternate)
  | .tag n t => .tag (node ν μ n) (tag t)

def exprs : List Expr → List Expr
  | [] => []
  | e :: rest => expr e :: exprs rest

def property : Property → Property
  | .named key value => .named key (expr value)
  | .computed key value => .computed (expr key) (expr value)

def propertyList : List Property → List Property
  | [] => []
  | p :: rest => property p :: propertyList rest

def tag : Tag → Tag
  | ⟨name, attributes, styles, children, selfClosing, span⟩ =>
    ⟨name, attributeList attributes, styles, markups children, selfClosing, μ span⟩

def tagAttribute : Attribute → Attribute
  | ⟨name, value, event, span⟩ => ⟨name, expr? value, event, μ span⟩

def attributeList : List Attribute → List Attribute
  | [] => []
  | a :: rest => tagAttribute a :: attributeList rest

def expr? : Option Expr → Option Expr
  | none => none
  | some e => some (expr e)

def markup : Markup → Markup
  | .tag t => .tag (tag t)
  | .text content span => .text content (μ span)
  | .expr e => .expr (expr e)

def markups : List Markup → List Markup
  | [] => []
  | m :: rest => markup m :: markups rest

end

/-! ## Statements and declarations -/

def variableDecl (d : VariableDecl) : VariableDecl :=
  { d with typeExpr := d.typeExpr.map (typeExpr μ), init := expr? ν μ d.init }

def param (p : Param) : Param := ⟨p.name, p.typeExpr.map (typeExpr μ), μ p.span⟩

def importDecl (item : Import) : Import := { item with span := μ item.span }

mutual

def stmt : Stmt → Stmt
  | .expression span e => .expression (μ span) (expr ν μ e)
  | .block b => .block (block b)
  | .variableDecl span decl => .variableDecl (μ span) (variableDecl ν μ decl)
  | .assignment span target op value =>
    .assignment (μ span) (expr ν μ target) op (expr ν μ value)
  | .ifElse span test consequent alternate =>
    .ifElse (μ span) (expr ν μ test) (block consequent) (stmt? alternate)
  | .whileLoop span test body => .whileLoop (μ span) (expr ν μ test) (block body)
  | .forLoop span init test update body =>
    .forLoop (μ span) (stmt? init) (expr? ν μ test) (stmt? update) (block body)
  | .forIn span name iterable body => .forIn (μ span) name (expr ν μ iterable) (block body)
  | .returnStmt span value => .returnStmt (μ span) (expr? ν μ value)
  | .breakStmt span => .breakStmt (μ span)
  | .continueStmt span => .continueStmt (μ span)
  | .tryStmt span b handler cleanup =>
    .tryStmt (μ span) (block b) (handler? handler) (block? cleanup)
  | .throwStmt span value => .throwStmt (μ span) (expr ν μ value)
  | .asyncBlock span b handler cleanup =>
    .asyncBlock (μ span) (block b) (handler? handler) (block? cleanup)
  | .functionDecl span f => .functionDecl (μ span) (function f)
  | .importDecl span item => .importDecl (μ span) (importDecl μ item)
  | .exportDecl span item => .exportDecl (μ span) (exportDecl item)
  | .error span message => .error (μ span) message

def stmt? : Option Stmt → Option Stmt
  | none => none
  | some s => some (stmt s)

def stmts : List Stmt → List Stmt
  | [] => []
  | s :: rest => stmt s :: stmts rest

def block : Block → Block
  | ⟨statements, span⟩ => ⟨stmts statements, μ span⟩

def block? : Option Block → Option Block
  | none => none
  | some b => some (block b)

def handler : CatchClause → CatchClause
  | ⟨param, body⟩ => ⟨param, block body⟩

def handler? : Option CatchClause → Option CatchClause
  | none => none
  | some clause => some (handler clause)

def function : Function → Function
  | ⟨name, params, returnType, body, isAsync, modifiers, span⟩ =>
    ⟨name, params.map (param μ), returnType.map (typeExpr μ), block body, isAsync, modifiers,
      μ span⟩

def component : Component → Component
  | ⟨name, modifiers, statements, body, span⟩ =>
    ⟨name, modifiers, stmts statements, markups ν μ body, μ span⟩

def exportItem : ExportItem → ExportItem
  | .function f => .function (function f)
  | .component c => .component (component c)
  | .statement s => .statement (stmt s)

def exportDecl : Export → Export
  | ⟨isDefault, item, span⟩ => ⟨isDefault, exportItem item, μ span⟩

end

/-! ## Small lemmas -/

theorem typeExprs_eq_map (as : List TypeExpr) : typeExprs μ as = as.map (typeExpr μ) := by
  induction as with
  | nil => rfl
  | cons a rest ih => rw [typeExprs, ih, List.map_cons]

theorem exprs_eq_map (es : List Expr) : exprs ν μ es = es.map (expr ν μ) := by
  induction es with
  | nil => rfl
  | cons e rest ih => rw [exprs, ih, List.map_cons]

theorem propertyList_eq_map (ps : List Property) :
    propertyList ν μ ps = ps.map (property ν μ) := by
  induction ps with
  | nil => rfl
  | cons p rest ih => rw [propertyList, ih, List.map_cons]

theorem attributeList_eq_map (as : List Attribute) :
    attributeList ν μ as = as.map (tagAttribute ν μ) := by
  induction as with
  | nil => rfl
  | cons a rest ih => rw [attributeList, ih, List.map_cons]

theorem markups_eq_map (ms : List Markup) : markups ν μ ms = ms.map (markup ν μ) := by
  induction ms with
  | nil => rfl
  | cons m rest ih => rw [markups, ih, List.map_cons]

theorem stmts_eq_map (ss : List Stmt) : stmts ν μ ss = ss.map (stmt ν μ) := by
  induction ss with
  | nil => rfl
  | cons s rest ih => rw [stmts, ih, List.map_cons]

@[simp] theorem node_expr (e : Expr) : (expr ν μ e).node = node ν μ e.node := by
  cases e <;> rfl

@[simp] theorem span_expr (e : Expr) : (expr ν μ e).span = μ e.span := by
  rw [Expr.span, node_expr]
  rfl

@[simp] theorem span_tag (t : Tag) : (tag ν μ t).span = μ t.span := by
  cases t
  rfl

@[simp] theorem name_tag (t : Tag) : (tag ν μ t).name = t.name := by
  cases t
  rfl

@[simp] theorem span_typeExpr (a : TypeExpr) : (typeExpr μ a).span = μ a.span := by
  cases a <;> rfl

@[simp] theorem isAssignable_expr (e : Expr) : (expr ν μ e).isAssignable = e.isAssignable := by
  cases e <;> rfl

end Remap

/-- The program with other numbers and places. -/
def Program.remap (ν : Nat → Nat) (μ : Span → Span) (p : Program) : Program where
  imports := p.imports.map (Remap.importDecl μ)
  exports := p.exports.map (Remap.exportDecl ν μ)
  functions := p.functions.map (Remap.function ν μ)
  components := p.components.map (Remap.component ν μ)
  statements := p.statements.map (Remap.stmt ν μ)

/-! ## No change -/

namespace Remap

mutual

theorem typeExpr_id : ∀ a : TypeExpr, typeExpr id a = a
  | .named .. => rfl
  | .array _ element => by rw [typeExpr, typeExpr_id element, id_eq]
  | .optional _ inner => by rw [typeExpr, typeExpr_id inner, id_eq]
  | .union _ members => by rw [typeExpr, typeExprs_id members, id_eq]

theorem typeExprs_id : ∀ as : List TypeExpr, typeExprs id as = as
  | [] => rfl
  | a :: rest => by rw [typeExprs, typeExpr_id a, typeExprs_id rest]

end

theorem node_id (n : Node) : node id id n = n := rfl

mutual

theorem expr_id : ∀ e : Expr, expr id id e = e
  | .literal .. | .identifier .. | .valueBinding .. => rfl
  | .binary _ left _ right => by rw [expr, expr_id left, expr_id right, node_id]
  | .unary _ _ operand => by rw [expr, expr_id operand, node_id]
  | .await _ operand => by rw [expr, expr_id operand, node_id]
  | .call _ callee arguments => by rw [expr, expr_id callee, exprs_id arguments, node_id]
  | .member _ object _ => by rw [expr, expr_id object, node_id]
  | .index _ object index => by rw [expr, expr_id object, expr_id index, node_id]
  | .array _ items => by rw [expr, exprs_id items, node_id]
  | .object _ properties => by rw [expr, propertyList_id properties, node_id]
  | .conditional _ test consequent alternate => by
    rw [expr, expr_id test, expr_id consequent, expr_id alternate, node_id]
  | .tag _ t => by rw [expr, tag_id t, node_id]

theorem exprs_id : ∀ es : List Expr, exprs id id es = es
  | [] => rfl
  | e :: rest => by rw [exprs, expr_id e, exprs_id rest]

theorem property_id : ∀ p : Property, property id id p = p
  | .named _ value => by rw [property, expr_id value]
  | .computed key value => by rw [property, expr_id key, expr_id value]

theorem propertyList_id : ∀ ps : List Property, propertyList id id ps = ps
  | [] => rfl
  | p :: rest => by rw [propertyList, property_id p, propertyList_id rest]

theorem tag_id : ∀ t : Tag, tag id id t = t
  | ⟨_, attributes, _, children, _, _⟩ => by
    rw [tag, attributeList_id attributes, markups_id children, id_eq]

theorem tagAttribute_id : ∀ a : Attribute, tagAttribute id id a = a
  | ⟨_, value, _, _⟩ => by rw [tagAttribute, expr?_id value, id_eq]

theorem attributeList_id : ∀ as : List Attribute, attributeList id id as = as
  | [] => rfl
  | a :: rest => by rw [attributeList, tagAttribute_id a, attributeList_id rest]

theorem expr?_id : ∀ e : Option Expr, expr? id id e = e
  | none => rfl
  | some e => by rw [expr?, expr_id e]

theorem markup_id : ∀ m : Markup, markup id id m = m
  | .tag t => by rw [markup, tag_id t]
  | .text .. => rfl
  | .expr e => by rw [markup, expr_id e]

theorem markups_id : ∀ ms : List Markup, markups id id ms = ms
  | [] => rfl
  | m :: rest => by rw [markups, markup_id m, markups_id rest]

end

theorem map_typeExpr_id (a : Option TypeExpr) : a.map (typeExpr id) = a := by
  rw [show typeExpr id = id from funext typeExpr_id, Option.map_id_fun, id_eq]

theorem map_param_id (ps : List Param) : ps.map (param id) = ps := by
  have hparam : param id = id := by
    funext p
    rw [param, map_typeExpr_id, id_eq, id_eq]
  rw [hparam, List.map_id_fun, id_eq]

theorem variableDecl_id (d : VariableDecl) : variableDecl id id d = d := by
  rw [variableDecl, map_typeExpr_id, expr?_id]

mutual

theorem stmt_id : ∀ s : Stmt, stmt id id s = s
  | .expression .. | .throwStmt .. => by rw [stmt, expr_id, id_eq]
  | .returnStmt .. => by rw [stmt, expr?_id, id_eq]
  | .variableDecl .. => by rw [stmt, variableDecl_id, id_eq]
  | .assignment .. => by rw [stmt, expr_id, expr_id, id_eq]
  | .breakStmt .. | .continueStmt .. | .importDecl .. | .error .. => rfl
  | .block b => by rw [stmt, block_id b]
  | .ifElse _ _ consequent alternate => by
    rw [stmt, expr_id, block_id consequent, stmt?_id alternate, id_eq]
  | .whileLoop _ _ body => by rw [stmt, expr_id, block_id body, id_eq]
  | .forLoop _ init _ update body => by
    rw [stmt, expr?_id, stmt?_id init, stmt?_id update, block_id body, id_eq]
  | .forIn _ _ _ body => by rw [stmt, expr_id, block_id body, id_eq]
  | .tryStmt _ b h cleanup => by
    rw [stmt, block_id b, handler?_id h, block?_id cleanup, id_eq]
  | .asyncBlock _ b h cleanup => by
    rw [stmt, block_id b, handler?_id h, block?_id cleanup, id_eq]
  | .functionDecl _ f => by rw [stmt, function_id f, id_eq]
  | .exportDecl _ item => by rw [stmt, exportDecl_id item, id_eq]

theorem stmt?_id : ∀ s : Option Stmt, stmt? id id s = s
  | none => rfl
  | some s => by rw [stmt?, stmt_id s]

theorem stmts_id : ∀ ss : List Stmt, stmts id id ss = ss
  | [] => rfl
  | s :: rest => by rw [stmts, stmt_id s, stmts_id rest]

theorem block_id : ∀ b : Block, block id id b = b
  | ⟨statements, _⟩ => by rw [block, stmts_id statements, id_eq]

theorem block?_id : ∀ b : Option Block, block? id id b = b
  | none => rfl
  | some b => by rw [block?, block_id b]

theorem handler?_id : ∀ h : Option CatchClause, handler? id id h = h
  | none => rfl
  | some ⟨_, body⟩ => by rw [handler?, handler, block_id body]

theorem function_id : ∀ f : Function, function id id f = f
  | ⟨_, _, _, body, _, _, _⟩ => by
    rw [function, map_param_id, map_typeExpr_id, block_id body, id_eq]

theorem component_id : ∀ c : Component, component id id c = c
  | ⟨_, _, statements, _, _⟩ => by rw [component, stmts_id statements, markups_id, id_eq]

theorem exportItem_id : ∀ item : ExportItem, exportItem id id item = item
  | .function f => by rw [exportItem, function_id f]
  | .component c => by rw [exportItem, component_id c]
  | .statement s => by rw [exportItem, stmt_id s]

theorem exportDecl_id : ∀ e : Export, exportDecl id id e = e
  | ⟨_, item, _⟩ => by rw [exportDecl, exportItem_id item, id_eq]

end

end Remap

theorem Program.remap_id (p : Program) : p.remap id id = p := by
  have himports : Remap.importDecl id = id := rfl
  rw [remap, himports, funext Remap.exportDecl_id, funext Remap.function_id,
    funext Remap.component_id, funext Remap.stmt_id]
  simp

/-! ## One change after another -/

namespace Remap

variable {ν κ : Nat → Nat} {μ ρ : Span → Span}

mutual

theorem typeExpr_typeExpr : ∀ a : TypeExpr, typeExpr ρ (typeExpr μ a) = typeExpr (ρ ∘ μ) a
  | .named .. => rfl
  | .array _ element => by
    simp only [typeExpr, typeExpr_typeExpr element, Function.comp_apply]
  | .optional _ inner => by simp only [typeExpr, typeExpr_typeExpr inner, Function.comp_apply]
  | .union _ members => by simp only [typeExpr, typeExprs_typeExprs members, Function.comp_apply]

theorem typeExprs_typeExprs :
    ∀ as : List TypeExpr, typeExprs ρ (typeExprs μ as) = typeExprs (ρ ∘ μ) as
  | [] => rfl
  | a :: rest => by rw [typeExprs, typeExprs, typeExprs, typeExpr_typeExpr a,
      typeExprs_typeExprs rest]

end

theorem node_node (n : Node) : node κ ρ (node ν μ n) = node (κ ∘ ν) (ρ ∘ μ) n := rfl

mutual

theorem expr_expr : ∀ e : Expr, expr κ ρ (expr ν μ e) = expr (κ ∘ ν) (ρ ∘ μ) e
  | .literal .. | .identifier .. | .valueBinding .. => rfl
  | .binary _ left _ right => by simp only [expr, node_node, expr_expr left, expr_expr right]
  | .unary _ _ operand => by simp only [expr, node_node, expr_expr operand]
  | .await _ operand => by simp only [expr, node_node, expr_expr operand]
  | .call _ callee arguments => by
    simp only [expr, node_node, expr_expr callee, exprs_exprs arguments]
  | .member _ object _ => by simp only [expr, node_node, expr_expr object]
  | .index _ object index => by simp only [expr, node_node, expr_expr object, expr_expr index]
  | .array _ items => by simp only [expr, node_node, exprs_exprs items]
  | .object _ properties => by simp only [expr, node_node, propertyList_propertyList properties]
  | .conditional _ test consequent alternate => by
    simp only [expr, node_node, expr_expr test, expr_expr consequent, expr_expr alternate]
  | .tag _ t => by simp only [expr, node_node, tag_tag t]

theorem exprs_exprs : ∀ es : List Expr, exprs κ ρ (exprs ν μ es) = exprs (κ ∘ ν) (ρ ∘ μ) es
  | [] => rfl
  | e :: rest => by simp only [exprs, expr_expr e, exprs_exprs rest]

theorem property_property :
    ∀ p : Property, property κ ρ (property ν μ p) = property (κ ∘ ν) (ρ ∘ μ) p
  | .named _ value => by simp only [property, expr_expr value]
  | .computed key value => by simp only [property, expr_expr key, expr_expr value]

theorem propertyList_propertyList : ∀ ps : List Property,
    propertyList κ ρ (propertyList ν μ ps) = propertyList (κ ∘ ν) (ρ ∘ μ) ps
  | [] => rfl
  | p :: rest => by simp only [propertyList, property_property p, propertyList_propertyList rest]

theorem tag_tag : ∀ t : Tag, tag κ ρ (tag ν μ t) = tag (κ ∘ ν) (ρ ∘ μ) t
  | ⟨_, attributes, _, children, _, _⟩ => by
    simp only [tag, attributeList_attributeList attributes, markups_markups children,
      Function.comp_apply]

theorem tagAttribute_tagAttribute : ∀ a : Attribute,
    tagAttribute κ ρ (tagAttribute ν μ a) = tagAttribute (κ ∘ ν) (ρ ∘ μ) a
  | ⟨_, value, _, _⟩ => by simp only [tagAttribute, expr?_expr? value, Function.comp_apply]

theorem attributeList_attributeList : ∀ as : List Attribute,
    attributeList κ ρ (attributeList ν μ as) = attributeList (κ ∘ ν) (ρ ∘ μ) as
  | [] => rfl
  | a :: rest => by
    simp only [attributeList, tagAttribute_tagAttribute a, attributeList_attributeList rest]

theorem expr?_expr? : ∀ e : Option Expr, expr? κ ρ (expr? ν μ e) = expr? (κ ∘ ν) (ρ ∘ μ) e
  | none => rfl
  | some e => by simp only [expr?, expr_expr e]

theorem markup_markup :
    ∀ m : Markup, markup κ ρ (markup ν μ m) = markup (κ ∘ ν) (ρ ∘ μ) m
  | .tag t => by simp only [markup, tag_tag t]
  | .text .. => rfl
  | .expr e => by simp only [markup, expr_expr e]

theorem markups_markups :
    ∀ ms : List Markup, markups κ ρ (markups ν μ ms) = markups (κ ∘ ν) (ρ ∘ μ) ms
  | [] => rfl
  | m :: rest => by simp only [markups, markup_markup m, markups_markups rest]

end

theorem typeExpr?_typeExpr? (a : Option TypeExpr) :
    (a.map (typeExpr μ)).map (typeExpr ρ) = a.map (typeExpr (ρ ∘ μ)) := by
  rw [Option.map_map]
  congr 1
  funext a
  exact typeExpr_typeExpr a

theorem variableDecl_variableDecl (d : VariableDecl) :
    variableDecl κ ρ (variableDecl ν μ d) = variableDecl (κ ∘ ν) (ρ ∘ μ) d := by
  simp only [variableDecl, typeExpr?_typeExpr?, expr?_expr?]

theorem param_param (p : Param) : param ρ (param μ p) = param (ρ ∘ μ) p := by
  simp only [param, typeExpr?_typeExpr?, Function.comp_apply]

theorem params_params (ps : List Param) :
    (ps.map (param μ)).map (param ρ) = ps.map (param (ρ ∘ μ)) := by
  rw [List.map_map]
  congr 1
  funext p
  exact param_param p

mutual

theorem stmt_stmt : ∀ s : Stmt, stmt κ ρ (stmt ν μ s) = stmt (κ ∘ ν) (ρ ∘ μ) s
  | .expression .. | .throwStmt .. => by simp only [stmt, expr_expr, Function.comp_apply]
  | .returnStmt .. => by simp only [stmt, expr?_expr?, Function.comp_apply]
  | .variableDecl .. => by simp only [stmt, variableDecl_variableDecl, Function.comp_apply]
  | .assignment .. => by simp only [stmt, expr_expr, Function.comp_apply]
  | .breakStmt .. | .continueStmt .. | .importDecl .. | .error .. => rfl
  | .block b => by simp only [stmt, block_block b]
  | .ifElse _ _ consequent alternate => by
    simp only [stmt, expr_expr, block_block consequent, stmt?_stmt? alternate,
      Function.comp_apply]
  | .whileLoop _ _ body => by simp only [stmt, expr_expr, block_block body, Function.comp_apply]
  | .forLoop _ init _ update body => by
    simp only [stmt, expr?_expr?, stmt?_stmt? init, stmt?_stmt? update, block_block body,
      Function.comp_apply]
  | .forIn _ _ _ body => by simp only [stmt, expr_expr, block_block body, Function.comp_apply]
  | .tryStmt _ b h cleanup => by
    simp only [stmt, block_block b, handler?_handler? h, block?_block? cleanup,
      Function.comp_apply]
  | .asyncBlock _ b h cleanup => by
    simp only [stmt, block_block b, handler?_handler? h, block?_block? cleanup,
      Function.comp_apply]
  | .functionDecl _ f => by simp only [stmt, function_function f, Function.comp_apply]
  | .exportDecl _ item => by simp only [stmt, exportDecl_exportDecl item, Function.comp_apply]

theorem stmt?_stmt? : ∀ s : Option Stmt, stmt? κ ρ (stmt? ν μ s) = stmt? (κ ∘ ν) (ρ ∘ μ) s
  | none => rfl
  | some s => by simp only [stmt?, stmt_stmt s]

theorem stmts_stmts : ∀ ss : List Stmt, stmts κ ρ (stmts ν μ ss) = stmts (κ ∘ ν) (ρ ∘ μ) ss
  | [] => rfl
  | s :: rest => by simp only [stmts, stmt_stmt s, stmts_stmts rest]

theorem block_block : ∀ b : Block, block κ ρ (block ν μ b) = block (κ ∘ ν) (ρ ∘ μ) b
  | ⟨statements, _⟩ => by simp only [block, stmts_stmts statements, Function.comp_apply]

theorem block?_block? :
    ∀ b : Option Block, block? κ ρ (block? ν μ b) = block? (κ ∘ ν) (ρ ∘ μ) b
  | none => rfl
  | some b => by simp only [block?, block_block b]

theorem handler_handler :
    ∀ h : CatchClause, handler κ ρ (handler ν μ h) = handler (κ ∘ ν) (ρ ∘ μ) h
  | ⟨_, body⟩ => by simp only [handler, block_block body]

theorem handler?_handler? :
    ∀ h : Option CatchClause, handler? κ ρ (handler? ν μ h) = handler? (κ ∘ ν) (ρ ∘ μ) h
  | none => rfl
  | some clause => by simp only [handler?, handler_handler clause]

theorem function_function :
    ∀ f : Function, function κ ρ (function ν μ f) = function (κ ∘ ν) (ρ ∘ μ) f
  | ⟨_, _, _, body, _, _, _⟩ => by
    simp only [function, params_params, typeExpr?_typeExpr?, block_block body,
      Function.comp_apply]

theorem component_component :
    ∀ c : Component, component κ ρ (component ν μ c) = component (κ ∘ ν) (ρ ∘ μ) c
  | ⟨_, _, statements, _, _⟩ => by
    simp only [component, stmts_stmts statements, markups_markups, Function.comp_apply]

theorem exportItem_exportItem :
    ∀ item : ExportItem, exportItem κ ρ (exportItem ν μ item) = exportItem (κ ∘ ν) (ρ ∘ μ) item
  | .function f => by simp only [exportItem, function_function f]
  | .component c => by simp only [exportItem, component_component c]
  | .statement s => by simp only [exportItem, stmt_stmt s]

theorem exportDecl_exportDecl :
    ∀ e : Export, exportDecl κ ρ (exportDecl ν μ e) = exportDecl (κ ∘ ν) (ρ ∘ μ) e
  | ⟨_, item, _⟩ => by simp only [exportDecl, exportItem_exportItem item, Function.comp_apply]

end

end Remap

namespace Program

variable {ν κ : Nat → Nat} {μ ρ : Span → Span}

/-- Two changes are one. -/
theorem remap_remap (p : Program) :
    (p.remap ν μ).remap κ ρ = p.remap (κ ∘ ν) (ρ ∘ μ) := by
  have himports : Remap.importDecl ρ ∘ Remap.importDecl μ = Remap.importDecl (ρ ∘ μ) := rfl
  have hexports : Remap.exportDecl κ ρ ∘ Remap.exportDecl ν μ =
      Remap.exportDecl (κ ∘ ν) (ρ ∘ μ) := funext Remap.exportDecl_exportDecl
  have hfunctions : Remap.function κ ρ ∘ Remap.function ν μ =
      Remap.function (κ ∘ ν) (ρ ∘ μ) := funext Remap.function_function
  have hcomponents : Remap.component κ ρ ∘ Remap.component ν μ =
      Remap.component (κ ∘ ν) (ρ ∘ μ) := funext Remap.component_component
  have hstatements : Remap.stmt κ ρ ∘ Remap.stmt ν μ = Remap.stmt (κ ∘ ν) (ρ ∘ μ) :=
    funext Remap.stmt_stmt
  simp only [remap, List.map_map, himports, hexports, hfunctions, hcomponents, hstatements]

end Program

end ComponentLang
