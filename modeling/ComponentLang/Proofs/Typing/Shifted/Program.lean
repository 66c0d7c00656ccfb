import ComponentLang.Proofs.Tree.Shape
import ComponentLang.Proofs.Typing.Shifted

/-!
# Checking programs elsewhere

A program that is numbered otherwise and stands elsewhere is checked beside the program itself. So
programs of one shape have the same to report, and have the same types noted for the expressions
that correspond in them.
-/
namespace ComponentLang

namespace Check

variable {ν : Nat → Nat} {μ : Span → Span}

/-! ## Variables -/

theorem shifts_declaredWith (decl : VariableDecl) :
    Shifts ν (declaredWith decl) (declaredWith (Remap.variableDecl ν μ decl)) := by
  obtain ⟨kind, name, typeExpr, init⟩ := decl
  unfold declaredWith Remap.variableDecl
  refine (shifts_resolve? typeExpr).bind fun annotated => ?_
  cases init with
  | none =>
      refine (shifts_pure none).bind fun found => ?_
      cases annotated <;> cases found <;> exact shifts_pure _
  | some e =>
      refine ((shifts_expr e).map some).bind fun found => ?_
      cases annotated with
      | none => exact (shifts_pure ()).bind fun _ => shifts_pure _
      | some target =>
          cases found with
          | none => exact (shifts_pure ()).bind fun _ => shifts_pure _
          | some value => exact (shifts_expectStorable _ _ _ _).bind fun _ => shifts_pure _

theorem shifts_variableDecl (decl : VariableDecl) :
    Shifts ν (variableDecl decl) (variableDecl (Remap.variableDecl ν μ decl)) := by
  rw [variableDecl_eq, variableDecl_eq]
  exact (shifts_declaredWith decl).bind fun _ => shifts_define decl.name _

theorem shifts_assignmentTarget (target : Expr) :
    Shifts ν (assignmentTarget target) (assignmentTarget (Remap.expr ν μ target)) := by
  cases target with
  | identifier n name =>
      exact (shifts_variableType name _ _).bind fun _ => shifts_noted n.id _
  | _ => exact shifts_expr _

theorem shifts_assignedType (op : AssignOp) (target value : Ty) (span span' : Span) :
    Shifts ν (assignedType op target value span) (assignedType op target value span') := by
  unfold assignedType
  split
  · exact shifts_pure _
  · exact shifts_settle _ span span'

theorem shifts_adopt (target : Expr) (type : Ty) :
    Shifts ν (adopt target type) (adopt (Remap.expr ν μ target) type) := by
  cases target with
  | identifier n name => exact shifts_ite (shifts_pure ()) (shifts_update name type)
  | _ => exact shifts_pure ()

theorem shifts_assignment (target : Expr) (op : AssignOp) (value : Expr) :
    Shifts ν (assignment target op value)
      (assignment (Remap.expr ν μ target) op (Remap.expr ν μ value)) := by
  unfold assignment
  exact (shifts_assignmentTarget target).bind fun targetType => (shifts_expr value).bind fun _ =>
    (shifts_assignedType op _ _ _ _).bind fun _ =>
      shifts_ite (shifts_adopt target _) (shifts_expectStorable _ _ _ _)

/-! ## Functions -/

theorem shifts_paramTypes (params : List Param) :
    Shifts ν (paramTypes params) (paramTypes (params.map (Remap.param μ))) := by
  induction params with
  | nil => exact shifts_pure _
  | cons param rest ih =>
      exact (shifts_resolve? param.typeExpr).bind fun _ => ih.bind fun _ => shifts_pure _

theorem shifts_defineAll (params : List Param) (types : List Ty) :
    Shifts ν (defineAll params types) (defineAll (params.map (Remap.param μ)) types) := by
  induction params generalizing types with
  | nil => exact shifts_pure ()
  | cons param rest ih =>
      cases types with
      | nil => exact shifts_pure ()
      | cons type types => exact (shifts_define param.name type).bind fun _ => ih types

theorem shifts_functionType (name : String) (params : List Param) (returnType : Option TypeExpr)
    (isAsync : Bool) {body body' : Check Unit} (h : Shifts ν body body') :
    Shifts ν (functionType name params returnType isAsync body)
      (functionType name (params.map (Remap.param μ)) (returnType.map (Remap.typeExpr μ)) isAsync
        body') := by
  unfold functionType
  exact (shifts_paramTypes params).bind fun types => (shifts_resolve? returnType).bind fun _ =>
    (shifts_define name _).bind fun _ =>
      (shifts_inScope ((shifts_defineAll params types).bind fun _ =>
        shifts_collectReturns _ h)).bind fun _ => (shifts_define name _).bind fun _ => shifts_pure _

theorem shifts_importNames (names : List String) :
    Shifts ν (importNames names) (importNames names) := by
  induction names with
  | nil => exact shifts_pure ()
  | cons name rest ih => exact (shifts_define name .any).bind fun _ => ih

theorem shifts_importDecl (item : Import) :
    Shifts ν (importDecl item) (importDecl (Remap.importDecl μ item)) :=
  shifts_importNames _

/-! ## Members of components -/

theorem isMethod_remap (s : Stmt) : isMethod (Remap.stmt ν μ s) = isMethod s := by
  cases s <;> rfl

theorem isOrdinary_remap (s : Stmt) : isOrdinary (Remap.stmt ν μ s) = isOrdinary s := by
  cases s with
  | assignment span target op value => cases target <;> cases op <;> rfl
  | _ => rfl

theorem name_function_remap (f : Function) : (Remap.function ν μ f).name = f.name := by
  cases f
  rfl

theorem name_component_remap (c : Component) : (Remap.component ν μ c).name = c.name := by
  cases c
  rfl

theorem shifts_declareFunction (f : Function) :
    Shifts ν (declareFunction f) (declareFunction (Remap.function ν μ f)) := by
  obtain ⟨name, params, returnType, body, isAsync, modifiers, span⟩ := f
  unfold declareFunction signature Remap.function
  exact ((shifts_paramTypes params).bind fun _ => (shifts_resolve? returnType).bind fun _ =>
    shifts_pure _).bind fun _ => shifts_define name _

theorem shifts_declareMethods (ss : List Stmt) :
    Shifts ν (declareMethods ss) (declareMethods (Remap.stmts ν μ ss)) := by
  induction ss with
  | nil => exact shifts_pure ()
  | cons s rest ih =>
      rw [Remap.stmts]
      cases hmethod : isMethod s with
      | false =>
          rw [declareMethods_of_not_method hmethod,
            declareMethods_of_not_method ((isMethod_remap s).trans hmethod)]
          exact ih
      | true =>
          cases s with
          | functionDecl span f => exact (shifts_declareFunction f).bind fun _ => ih
          | _ => cases hmethod

theorem shifts_summarize (name : String) (state : List String) (methods : List TypedName) :
    Shifts ν (summarize name state methods) (summarize name state methods) := by
  refine shifts_modify fun c d h => ?_
  dsimp only
  rw [h.scopes, h.summaries]
  exact { h with scopes := rfl, summaries := rfl }

/-! ## Statements -/

mutual

theorem shifts_stmt : ∀ s : Stmt, Shifts ν (stmt s) (stmt (Remap.stmt ν μ s))
  | .expression span e => by
    simp only [Remap.stmt, Check.stmt]
    exact (shifts_expr e).bind fun _ => shifts_pure ()
  | .block b => by
    simp only [Remap.stmt, Check.stmt]
    exact shifts_block b
  | .variableDecl span decl => by
    simp only [Remap.stmt, Check.stmt]
    exact shifts_variableDecl decl
  | .assignment span target op value => by
    simp only [Remap.stmt, Check.stmt]
    exact shifts_assignment target op value
  | .ifElse span test consequent alternate => by
    simp only [Remap.stmt, Check.stmt]
    exact (shifts_expr test).bind fun _ => (shifts_block consequent).bind fun _ =>
      shifts_stmt? alternate
  | .whileLoop span test body => by
    simp only [Remap.stmt, Check.stmt]
    exact (shifts_expr test).bind fun _ => shifts_block body
  | .forLoop span init test update body => by
    simp only [Remap.stmt, Check.stmt]
    exact shifts_inScope ((shifts_stmt? init).bind fun _ => (shifts_expr? test).bind fun _ =>
      (shifts_stmt? update).bind fun _ => shifts_block body)
  | .forIn span name iterable body => by
    simp only [Remap.stmt, Check.stmt]
    exact (shifts_expr iterable).bind fun _ => shifts_inScope
      ((shifts_define name _).bind fun _ => shifts_block body)
  | .returnStmt span none => by
    simp only [Remap.stmt, Remap.expr?, Check.stmt]
    exact shifts_noteReturn .null _ _
  | .returnStmt span (some e) => by
    simp only [Remap.stmt, Remap.expr?, Check.stmt]
    exact (shifts_expr e).bind fun _ => shifts_noteReturn _ _ _
  | .breakStmt span | .continueStmt span | .error span message => by
    simp only [Remap.stmt, Check.stmt]
    exact shifts_pure ()
  | .tryStmt span b handler cleanup | .asyncBlock span b handler cleanup => by
    simp only [Remap.stmt, Check.stmt]
    exact (shifts_block b).bind fun _ => (shifts_handler? handler).bind fun _ =>
      shifts_block? cleanup
  | .throwStmt span value => by
    simp only [Remap.stmt, Check.stmt]
    exact (shifts_expr value).bind fun _ => shifts_pure ()
  | .functionDecl span f => by
    simp only [Remap.stmt, Check.stmt]
    exact (shifts_function f).bind fun _ => shifts_pure ()
  | .importDecl span item => by
    simp only [Remap.stmt, Check.stmt]
    exact shifts_importDecl item
  | .exportDecl span item => by
    simp only [Remap.stmt, Check.stmt]
    exact shifts_exportDecl item
termination_by structural s => s

theorem shifts_stmt? : ∀ s : Option Stmt, Shifts ν (stmt? s) (stmt? (Remap.stmt? ν μ s))
  | none => shifts_pure ()
  | some s => shifts_stmt s
termination_by structural s => s

theorem shifts_stmts : ∀ ss : List Stmt, Shifts ν (stmts ss) (stmts (Remap.stmts ν μ ss))
  | [] => shifts_pure ()
  | s :: rest => by
    simp only [Remap.stmts, Check.stmts]
    exact (shifts_stmt s).bind fun _ => shifts_stmts rest
termination_by structural ss => ss

theorem shifts_block : ∀ b : Block, Shifts ν (block b) (block (Remap.block ν μ b))
  | ⟨statements, span⟩ => by
    simp only [Remap.block, Check.block]
    exact shifts_inScope (shifts_stmts statements)
termination_by structural b => b

theorem shifts_block? : ∀ b : Option Block, Shifts ν (block? b) (block? (Remap.block? ν μ b))
  | none => shifts_pure ()
  | some b => shifts_block b
termination_by structural b => b

theorem shifts_handler? : ∀ clause : Option CatchClause,
    Shifts ν (handler? clause) (handler? (Remap.handler? ν μ clause))
  | none => shifts_pure ()
  | some ⟨param, body⟩ => by
    simp only [Remap.handler?, Remap.handler, Check.handler?]
    exact shifts_inScope ((shifts_importNames _).bind fun _ => shifts_block body)
termination_by structural clause => clause

theorem shifts_function : ∀ f : Function, Shifts ν (function f) (function (Remap.function ν μ f))
  | ⟨name, params, returnType, ⟨statements, blockSpan⟩, isAsync, modifiers, span⟩ => by
    simp only [Remap.function, Remap.block, Check.function]
    exact shifts_functionType name params returnType isAsync (shifts_stmts statements)
termination_by structural f => f

theorem shifts_members : ∀ ss : List Stmt, Shifts ν (members ss) (members (Remap.stmts ν μ ss))
  | [] => shifts_pure _
  | s :: rest => by
    rw [Remap.stmts]
    cases hordinary : isOrdinary s with
    | true =>
      rw [members_of_ordinary hordinary,
        members_of_ordinary ((isOrdinary_remap s).trans hordinary)]
      exact (shifts_stmt s).bind fun _ => shifts_members rest
    | false =>
      cases s with
      | functionDecl span f =>
        simp only [Remap.stmt, Check.members]
        exact shifts_members rest
      | variableDecl span decl =>
        simp only [Remap.stmt, Check.members]
        exact (shifts_variableDecl decl).bind fun _ => (shifts_members rest).bind fun _ =>
          shifts_pure _
      | assignment span target op value =>
        cases target with
        | identifier n name =>
          cases op with
          | assign =>
            simp only [Remap.stmt, Remap.expr, Check.members, Check.stmt]
            have hdeclared : Shifts ν (do
                let type ← expr value
                record n.id type
                define name type
                return name :: (← members rest)) (do
                let type ← expr (Remap.expr ν μ value)
                record (ν n.id) type
                define name type
                return name :: (← members (Remap.stmts ν μ rest))) :=
              (shifts_expr value).bind fun type =>
                (shifts_modify fun _ _ h => h.record n.id type).bind fun _ =>
                  (shifts_define name type).bind fun _ => (shifts_members rest).bind fun _ =>
                    shifts_pure _
            exact shifts_whether (fun c => c.scopes.definesHere name) (fun _ _ h => by rw [h.scopes])
              ((shifts_assignment (.identifier n name) .assign value).bind fun _ =>
                shifts_members rest) hdeclared
          | _ => cases hordinary
        | _ => cases hordinary
      | _ => cases hordinary
termination_by structural ss => ss

theorem shifts_methods : ∀ ss : List Stmt, Shifts ν (methods ss) (methods (Remap.stmts ν μ ss))
  | [] => shifts_pure _
  | s :: rest => by
    rw [Remap.stmts]
    cases hmethod : isMethod s with
    | false =>
      rw [methods_of_not_method hmethod, methods_of_not_method ((isMethod_remap s).trans hmethod)]
      exact shifts_methods rest
    | true =>
      cases s with
      | functionDecl span f =>
        simp only [Remap.stmt, Check.methods, name_function_remap]
        exact (shifts_function f).bind fun _ => (shifts_methods rest).bind fun _ => shifts_pure _
      | _ => cases hmethod
termination_by structural ss => ss

theorem shifts_component : ∀ c : Component,
    Shifts ν (component c) (component (Remap.component ν μ c))
  | ⟨name, modifiers, statements, body, span⟩ => by
    simp only [Remap.component, Check.component]
    exact shifts_inScope ((shifts_declareMethods statements).bind fun _ =>
      (shifts_members statements).bind fun _ => (shifts_methods statements).bind fun _ =>
        (shifts_markups body).bind fun _ => shifts_summarize _ _ _)
termination_by structural c => c

theorem shifts_exportDecl : ∀ e : Export,
    Shifts ν (exportDecl e) (exportDecl (Remap.exportDecl ν μ e))
  | ⟨isDefault, .function f, span⟩ => by
    simp only [Remap.exportDecl, Remap.exportItem, Check.exportDecl]
    exact (shifts_function f).bind fun _ => shifts_pure ()
  | ⟨isDefault, .component c, span⟩ => by
    simp only [Remap.exportDecl, Remap.exportItem, Check.exportDecl]
    exact shifts_component c
  | ⟨isDefault, .statement s, span⟩ => by
    simp only [Remap.exportDecl, Remap.exportItem, Check.exportDecl]
    exact shifts_stmt s
termination_by structural e => e

end

/-! ## Programs -/

theorem shifts_declareVariable (s : Stmt) :
    Shifts ν (declareVariable s) (declareVariable (Remap.stmt ν μ s)) := by
  cases s with
  | variableDecl span decl => exact shifts_define decl.name _
  | _ => exact shifts_pure ()

theorem component?_exportDecl_remap (e : Export) :
    (Remap.exportDecl ν μ e).item.component? = e.item.component?.map (Remap.component ν μ) := by
  obtain ⟨isDefault, item, span⟩ := e
  cases item <;> rfl

theorem function?_exportDecl_remap (e : Export) :
    (Remap.exportDecl ν μ e).item.function? = e.item.function?.map (Remap.function ν μ) := by
  obtain ⟨isDefault, item, span⟩ := e
  cases item <;> rfl

theorem allComponents_remap (p : Program) :
    (p.remap ν μ).allComponents = p.allComponents.map (Remap.component ν μ) := by
  simp only [Program.allComponents, Program.remap, List.map_append, List.filterMap_map,
    List.map_filterMap, Function.comp_def, component?_exportDecl_remap]

theorem allFunctions_remap (p : Program) :
    (p.remap ν μ).allFunctions = p.allFunctions.map (Remap.function ν μ) := by
  simp only [Program.allFunctions, Program.remap, List.map_append, List.filterMap_map,
    List.map_filterMap, Function.comp_def, function?_exportDecl_remap]

theorem shifts_declare (p : Program) : Shifts ν (declare p) (declare (p.remap ν μ)) := by
  have hcomponent (c : Component) : Shifts ν (declareComponent c.name)
      (declareComponent (Remap.component ν μ c).name) := by
    rw [name_component_remap]
    exact shifts_declareComponent c.name
  unfold declare
  rw [allComponents_remap, allFunctions_remap]
  exact (shifts_each shifts_importDecl p.imports).bind fun _ =>
    (shifts_each hcomponent _).bind fun _ => (shifts_each shifts_declareFunction _).bind fun _ =>
      shifts_each shifts_declareVariable p.statements

theorem shifts_program (p : Program) : Shifts ν (program p) (program (p.remap ν μ)) := by
  have hfunction (f : Function) : Shifts ν (do let _ ← function f) (do
      let _ ← function (Remap.function ν μ f)) :=
    (shifts_function f).bind fun _ => shifts_pure ()
  exact (shifts_declare p).bind fun _ => (shifts_each hfunction p.functions).bind fun _ =>
    (shifts_each shifts_stmt p.statements).bind fun _ =>
      (shifts_each shifts_exportDecl p.exports).bind fun _ =>
        shifts_each shifts_component p.components

end Check

open Check Checking

/-! ## Programs of one shape -/

theorem Checking.shifted_start (ν : Nat → Nat) (external : List TypedName) :
    Shifted ν (start external).types.entries (start external).types.entries (start external)
      (start external) :=
  ⟨rfl, rfl, rfl, rfl, rfl, ⟨[], rfl, rfl⟩, rfl⟩

theorem exists_mem_check_diagnostics (p : Program) (external : List TypedName) (message : String) :
    (∃ d ∈ (p.check external).diagnostics, d.message = message) ↔
      message ∈ ((program p).run (start external)).2.messages :=
  exists_congr fun _ => and_congr_left fun _ => List.mem_reverse

/-- Of programs of one shape the same is found: the same is reported, in other places perhaps, and
the types of the expressions that correspond are the same. -/
theorem check_eq_of_shape_eq {p p' : Program} (hshape : p.shape = p'.shape) (hp : p.visited.Nodup)
    (hp' : p'.visited.Nodup) (external : List TypedName) :
    (∀ message, (∃ d ∈ (p'.check external).diagnostics, d.message = message) ↔
      ∃ d ∈ (p.check external).diagnostics, d.message = message) ∧
      p'.visited.map (p'.check external).types.get? =
        p.visited.map (p.check external).types.get? := by
  have hrenumbers := Program.renumbers hshape
  obtain ⟨ν, hν⟩ := exists_map_eq hp hrenumbers.length
  have hshifts : Shifts ν (program p) (program p') :=
    Shifts.of_common (hrenumbers.holds ν hν ▸ shifts_program p) (shifts_program p')
  obtain ⟨-, hfound⟩ := hshifts _ _ _ _ (shifted_start ν external)
  refine ⟨fun message => ?_, ?_⟩
  · rw [exists_mem_check_diagnostics, exists_mem_check_diagnostics, hfound.messages]
  · exact hfound.map_get? (grows_check p external) hν fun _ hm _ hn heq =>
      List.inj_on_of_nodup_map (hν ▸ hp') hm hn heq

end ComponentLang
