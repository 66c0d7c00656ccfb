import ComponentLang.Proofs.Typing.Turns

/-!
# Methods in other places

It does not matter where the methods stand among the members of a component. Programs that differ in
nothing else are the same when every component has its methods last, and such programs are checked
alike.
-/
namespace ComponentLang

open Check

namespace MethodsLast

/-- The members of a component, its methods last. -/
def arrange (ss : List Stmt) : List Stmt := (ss.filter fun s => !isMethod s) ++ ss.filter isMethod

mutual

def stmt : Stmt → Stmt
  | .block b => .block (block b)
  | .ifElse span test consequent alternate =>
    .ifElse span test (block consequent) (stmt? alternate)
  | .whileLoop span test body => .whileLoop span test (block body)
  | .forLoop span init test update body =>
    .forLoop span (stmt? init) test (stmt? update) (block body)
  | .forIn span name iterable body => .forIn span name iterable (block body)
  | .tryStmt span b handler cleanup => .tryStmt span (block b) (handler? handler) (block? cleanup)
  | .asyncBlock span b handler cleanup =>
    .asyncBlock span (block b) (handler? handler) (block? cleanup)
  | .functionDecl span f => .functionDecl span (function f)
  | .exportDecl span item => .exportDecl span (exportDecl item)
  | s => s

def stmt? : Option Stmt → Option Stmt
  | none => none
  | some s => some (stmt s)

def stmts : List Stmt → List Stmt
  | [] => []
  | s :: rest => stmt s :: stmts rest

def block : Block → Block
  | ⟨statements, span⟩ => ⟨stmts statements, span⟩

def block? : Option Block → Option Block
  | none => none
  | some b => some (block b)

def handler? : Option CatchClause → Option CatchClause
  | none => none
  | some ⟨param, body⟩ => some ⟨param, block body⟩

def function : Function → Function
  | ⟨name, params, returnType, ⟨statements, blockSpan⟩, isAsync, modifiers, span⟩ =>
    ⟨name, params, returnType, ⟨stmts statements, blockSpan⟩, isAsync, modifiers, span⟩

def component : Component → Component
  | ⟨name, modifiers, statements, body, span⟩ =>
    ⟨name, modifiers, arrange (stmts statements), body, span⟩

def exportDecl : Export → Export
  | ⟨isDefault, .function f, span⟩ => ⟨isDefault, .function (function f), span⟩
  | ⟨isDefault, .component c, span⟩ => ⟨isDefault, .component (component c), span⟩
  | ⟨isDefault, .statement s, span⟩ => ⟨isDefault, .statement (stmt s), span⟩

end

end MethodsLast

/-- The program in which every component has its methods last. -/
def Program.methodsLast (p : Program) : Program where
  imports := p.imports
  exports := p.exports.map MethodsLast.exportDecl
  functions := p.functions.map MethodsLast.function
  components := p.components.map MethodsLast.component
  statements := p.statements.map MethodsLast.stmt

namespace Check

/-! ## Members by themselves -/

/-- What a member does to the check of those after it has nothing to do with what they are. -/
theorem members_congr (s : Stmt) {rest others : List Stmt} (h : members others = members rest) :
    members (s :: others) = members (s :: rest) := by
  cases hordinary : isOrdinary s with
  | true => rw [members_of_ordinary hordinary, members_of_ordinary hordinary, h]
  | false =>
    cases s with
    | functionDecl | variableDecl => rw [Check.members, Check.members, h]
    | assignment span target op value =>
        cases target with
        | identifier node name =>
            cases op with
            | assign => rw [Check.members, Check.members, h]
            | _ => cases hordinary
        | _ => cases hordinary
    | _ => cases hordinary

theorem members_filter (ss : List Stmt) :
    members (ss.filter fun s => !isMethod s) = members ss := by
  induction ss with
  | nil => rfl
  | cons s rest ih =>
      cases hmethod : isMethod s with
      | true =>
          rw [List.filter_cons_of_neg (by simp [hmethod]), ih]
          cases s with
          | functionDecl span f => rw [Check.members]
          | _ => cases hmethod
      | false =>
          rw [List.filter_cons_of_pos (by simp [hmethod])]
          exact members_congr s ih

theorem declareMethods_filter (ss : List Stmt) :
    declareMethods (ss.filter isMethod) = declareMethods ss := by
  induction ss with
  | nil => rfl
  | cons s rest ih =>
      cases hmethod : isMethod s with
      | false =>
          rw [List.filter_cons_of_neg (by simp [hmethod]), ih, declareMethods_of_not_method hmethod]
      | true =>
          rw [List.filter_cons_of_pos hmethod]
          cases s with
          | functionDecl span f => rw [declareMethods, declareMethods, ih]
          | _ => cases hmethod

theorem methods_filter (ss : List Stmt) : methods (ss.filter isMethod) = methods ss := by
  induction ss with
  | nil => rfl
  | cons s rest ih =>
      cases hmethod : isMethod s with
      | false =>
          rw [List.filter_cons_of_neg (by simp [hmethod]), ih, methods_of_not_method hmethod]
      | true =>
          rw [List.filter_cons_of_pos hmethod]
          cases s with
          | functionDecl span f => rw [Check.methods, Check.methods, ih]
          | _ => cases hmethod

theorem members_arrange (ss : List Stmt) : members (MethodsLast.arrange ss) = members ss := by
  rw [← members_filter, ← members_filter ss]
  simp [MethodsLast.arrange]

theorem filter_arrange (ss : List Stmt) :
    (MethodsLast.arrange ss).filter isMethod = ss.filter isMethod := by
  simp [MethodsLast.arrange]

theorem declareMethods_arrange (ss : List Stmt) :
    declareMethods (MethodsLast.arrange ss) = declareMethods ss := by
  rw [← declareMethods_filter, filter_arrange, declareMethods_filter]

theorem methods_arrange (ss : List Stmt) : methods (MethodsLast.arrange ss) = methods ss := by
  rw [← methods_filter, filter_arrange, methods_filter]

/-! ## Programs with their methods last -/

theorem signature_methodsLast (f : Function) : signature (MethodsLast.function f) = signature f := by
  obtain ⟨name, params, returnType, ⟨statements, blockSpan⟩, isAsync, modifiers, span⟩ := f
  rfl

theorem name_methodsLast (f : Function) : (MethodsLast.function f).name = f.name := by
  obtain ⟨name, params, returnType, ⟨statements, blockSpan⟩, isAsync, modifiers, span⟩ := f
  rfl

theorem declareMethods_methodsLast (ss : List Stmt) :
    declareMethods (MethodsLast.stmts ss) = declareMethods ss := by
  induction ss with
  | nil => rfl
  | cons s rest ih =>
      cases s with
      | functionDecl span f =>
          rw [MethodsLast.stmts, MethodsLast.stmt, declareMethods, declareMethods, ih,
            signature_methodsLast, name_methodsLast]
      | _ => exact ih

mutual

theorem stmt_methodsLast : ∀ s : Stmt, stmt (MethodsLast.stmt s) = stmt s
  | .block b => by rw [MethodsLast.stmt, Check.stmt, Check.stmt, block_methodsLast b]
  | .ifElse span test consequent alternate => by
    rw [MethodsLast.stmt, Check.stmt, Check.stmt, block_methodsLast consequent,
      stmt?_methodsLast alternate]
  | .whileLoop span test body => by
    rw [MethodsLast.stmt, Check.stmt, Check.stmt, block_methodsLast body]
  | .forLoop span init test update body => by
    rw [MethodsLast.stmt, Check.stmt, Check.stmt, stmt?_methodsLast init, stmt?_methodsLast update,
      block_methodsLast body]
  | .forIn span name iterable body => by
    rw [MethodsLast.stmt, Check.stmt, Check.stmt, block_methodsLast body]
  | .tryStmt span b handler cleanup => by
    rw [MethodsLast.stmt, Check.stmt, Check.stmt, block_methodsLast b, handler?_methodsLast handler,
      block?_methodsLast cleanup]
  | .asyncBlock span b handler cleanup => by
    rw [MethodsLast.stmt, Check.stmt, Check.stmt, block_methodsLast b, handler?_methodsLast handler,
      block?_methodsLast cleanup]
  | .functionDecl span f => by
    rw [MethodsLast.stmt, Check.stmt, Check.stmt, function_methodsLast f]
  | .exportDecl span item => by
    rw [MethodsLast.stmt, Check.stmt, Check.stmt, exportDecl_methodsLast item]
  | .expression .. | .variableDecl .. | .assignment .. | .returnStmt .. | .breakStmt _
  | .continueStmt _ | .throwStmt .. | .importDecl .. | .error .. => rfl

theorem stmt?_methodsLast : ∀ s : Option Stmt, stmt? (MethodsLast.stmt? s) = stmt? s
  | none => rfl
  | some s => stmt_methodsLast s

theorem stmts_methodsLast : ∀ ss : List Stmt, stmts (MethodsLast.stmts ss) = stmts ss
  | [] => rfl
  | s :: rest => by
    rw [MethodsLast.stmts, Check.stmts, Check.stmts, stmt_methodsLast s, stmts_methodsLast rest]

theorem block_methodsLast : ∀ b : Block, block (MethodsLast.block b) = block b
  | ⟨statements, span⟩ => by
    rw [MethodsLast.block, Check.block, Check.block, stmts_methodsLast statements]

theorem block?_methodsLast : ∀ b : Option Block, block? (MethodsLast.block? b) = block? b
  | none => rfl
  | some b => block_methodsLast b

theorem handler?_methodsLast : ∀ handler : Option CatchClause,
    handler? (MethodsLast.handler? handler) = handler? handler
  | none => rfl
  | some ⟨param, body⟩ => by
    rw [MethodsLast.handler?, Check.handler?, Check.handler?, block_methodsLast body]

theorem function_methodsLast : ∀ f : Function, function (MethodsLast.function f) = function f
  | ⟨name, params, returnType, ⟨statements, blockSpan⟩, isAsync, modifiers, span⟩ => by
    rw [MethodsLast.function, Check.function, Check.function, stmts_methodsLast statements]

theorem members_methodsLast : ∀ ss : List Stmt, members (MethodsLast.stmts ss) = members ss
  | [] => rfl
  | s :: rest => by
    have hrest := members_methodsLast rest
    have hs := stmt_methodsLast s
    rw [MethodsLast.stmts]
    cases hordinary : isOrdinary s with
    | true =>
      have hordinary' : isOrdinary (MethodsLast.stmt s) = true := by
        cases s <;> exact hordinary
      rw [members_of_ordinary hordinary, members_of_ordinary hordinary', hs, hrest]
    | false =>
      cases s with
      | functionDecl span f => rw [MethodsLast.stmt, Check.members, Check.members, hrest]
      | variableDecl | assignment => exact members_congr _ hrest
      | _ => cases hordinary

theorem methods_methodsLast : ∀ ss : List Stmt, methods (MethodsLast.stmts ss) = methods ss
  | [] => rfl
  | s :: rest => by
    have hrest := methods_methodsLast rest
    cases s with
    | functionDecl span f =>
      rw [MethodsLast.stmts, MethodsLast.stmt, Check.methods, Check.methods, hrest,
        function_methodsLast f, name_methodsLast]
    | _ => exact hrest

theorem component_methodsLast : ∀ k : Component,
    component (MethodsLast.component k) = component k
  | ⟨name, modifiers, statements, body, span⟩ => by
    rw [MethodsLast.component, Check.component, Check.component, declareMethods_arrange,
      members_arrange, methods_arrange, declareMethods_methodsLast,
      members_methodsLast statements, methods_methodsLast statements]

theorem exportDecl_methodsLast : ∀ e : Export,
    exportDecl (MethodsLast.exportDecl e) = exportDecl e
  | ⟨isDefault, .function f, span⟩ => by
    rw [MethodsLast.exportDecl, Check.exportDecl, Check.exportDecl, function_methodsLast f]
  | ⟨isDefault, .component k, span⟩ => by
    rw [MethodsLast.exportDecl, Check.exportDecl, Check.exportDecl, component_methodsLast k]
  | ⟨isDefault, .statement s, span⟩ => by
    rw [MethodsLast.exportDecl, Check.exportDecl, Check.exportDecl, stmt_methodsLast s]

end

theorem name_component_methodsLast (k : Component) : (MethodsLast.component k).name = k.name := by
  obtain ⟨name, modifiers, statements, body, span⟩ := k
  rfl

theorem component?_methodsLast (e : Export) :
    (MethodsLast.exportDecl e).item.component? = e.item.component?.map MethodsLast.component := by
  obtain ⟨isDefault, item, span⟩ := e
  cases item <;> rfl

theorem function?_methodsLast (e : Export) :
    (MethodsLast.exportDecl e).item.function? = e.item.function?.map MethodsLast.function := by
  obtain ⟨isDefault, item, span⟩ := e
  cases item <;> rfl

theorem declareFunction_methodsLast (f : Function) :
    declareFunction (MethodsLast.function f) = declareFunction f := by
  rw [declareFunction, declareFunction, name_methodsLast, signature_methodsLast]

theorem declareVariable_methodsLast (s : Stmt) :
    declareVariable (MethodsLast.stmt s) = declareVariable s := by
  cases s <;> rfl

/-- Where the methods stand makes no difference to a check. -/
theorem program_methodsLast (p : Program) : program p.methodsLast = program p := by
  have hcomponents : p.methodsLast.allComponents = p.allComponents.map MethodsLast.component := by
    simp only [Program.allComponents, Program.methodsLast, List.map_append, List.filterMap_map,
      List.map_filterMap, Function.comp_def, component?_methodsLast]
  have hfunctions : p.methodsLast.allFunctions = p.allFunctions.map MethodsLast.function := by
    simp only [Program.allFunctions, Program.methodsLast, List.map_append, List.filterMap_map,
      List.map_filterMap, Function.comp_def, function?_methodsLast]
  have hdeclare : declare p.methodsLast = declare p := by
    unfold declare
    rw [hcomponents, hfunctions]
    simp only [Program.methodsLast, each_map, name_component_methodsLast,
      declareFunction_methodsLast, declareVariable_methodsLast]
  unfold program
  rw [hdeclare]
  simp only [Program.methodsLast, each_map, function_methodsLast, stmt_methodsLast,
    exportDecl_methodsLast, component_methodsLast]

end Check

/-- Moving methods among the members of their components, in whatever components, without changing
their order leaves all that is found as it is. -/
theorem check_of_methodsLast_eq {p q : Program} (h : q.methodsLast = p.methodsLast)
    (external : List TypedName) :
    (q.check external).diagnostics = (p.check external).diagnostics ∧
      (q.check external).types = (p.check external).types ∧
      (q.check external).components = (p.check external).components := by
  have hprogram : Check.program q = Check.program p := by
    rw [← program_methodsLast q, h, program_methodsLast]
  unfold Program.check
  rw [hprogram]
  exact ⟨rfl, rfl, rfl⟩

end ComponentLang
