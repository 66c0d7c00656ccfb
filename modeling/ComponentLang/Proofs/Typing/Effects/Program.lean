import ComponentLang.Analysis
import ComponentLang.Proofs.Grammar.Ledger.Program
import ComponentLang.Proofs.Typing.Effects

/-!
# What checking a program leaves behind

Statements are followed like expressions. The members of a component are checked in two turns, its
methods after the others. In the end there is a type for every expression of a program, and for
nothing else.
-/
namespace ComponentLang.Check

open Walk TreePart

/-! ## Variables -/

theorem leaves_variableDecl (decl : VariableDecl) :
    Leaves (numbers (Walk.expr? everywhere decl.init)) (variableDecl decl) := by
  obtain ⟨kind, name, typeExpr, init⟩ := decl
  unfold variableDecl
  apply leaves_then (leaves_resolve? typeExpr)
  intro annotated
  cases init with
  | none =>
    refine (leaves_then (leaves_pure none) fun init => ?_).of_eq numbers_nil.symm
    dsimp only
    split
    · next heq => cases heq
    · exact leaves_define name _
  | some e =>
    refine (leaves_map (leaves_expr e)).before fun init => ?_
    dsimp only
    split
    · exact leaves_then leaves_expectStorable fun _ => leaves_define name _
    · exact leaves_define name _

theorem leaves_assignmentTarget (target : Expr) :
    Leaves (numbers (Walk.expr everywhere target)) (assignmentTarget target) := by
  unfold assignmentTarget
  split
  next node name =>
    exact (leaves_then (leaves_variableType name _) (leaves_noted _)).of_eq
      (numbers_identifier node name).symm
  next => exact leaves_expr target

theorem leaves_assignedType (op : AssignOp) (target value : Ty) (span : Span) :
    LeavesNothing (assignedType op target value span) := by
  unfold assignedType
  split
  · exact leaves_pure _
  · exact leaves_settle Ty.spares_ofBinary

theorem leaves_adopt (target : Expr) (type : Ty) : LeavesNothing (adopt target type) := by
  unfold adopt
  split
  · split
    · exact leaves_pure ()
    · exact leaves_update _ _
  · exact leaves_pure ()

theorem leaves_assignment (target : Expr) (op : AssignOp) (value : Expr) :
    Leaves (numbers (Walk.expr everywhere target) ∪ numbers (Walk.expr everywhere value))
      (assignment target op value) := by
  unfold assignment
  apply (leaves_assignmentTarget target).bind
  intro targetType
  apply (leaves_expr value).before
  intro valueType
  apply leaves_then (leaves_assignedType op targetType valueType _)
  intro stored
  split
  · exact leaves_adopt target stored
  · exact leaves_expectStorable

/-! ## Functions -/

theorem leaves_paramTypes (params : List Param) : LeavesNothing (paramTypes params) := by
  induction params with
  | nil => exact leaves_pure _
  | cons param rest ih =>
      exact leaves_then (leaves_resolve? param.typeExpr) fun _ =>
        leaves_then ih fun _ => leaves_pure _

theorem leaves_signature (f : Function) : LeavesNothing (signature f) := by
  unfold signature
  apply leaves_then (leaves_paramTypes f.params)
  intro params
  exact leaves_then (leaves_resolve? f.returnType) fun _ => leaves_pure _

theorem leaves_defineAll (params : List Param) (types : List Ty) :
    LeavesNothing (defineAll params types) := by
  induction params generalizing types with
  | nil => exact leaves_pure ()
  | cons param rest ih =>
      cases types with
      | nil => exact leaves_pure ()
      | cons type types => exact leaves_then (leaves_define param.name type) fun _ => ih types

theorem leaves_functionType {ids : Set Nat} {name : String} {params : List Param}
    {returnType : Option TypeExpr} {isAsync : Bool} {body : Check Unit} (h : Leaves ids body) :
    Leaves ids (functionType name params returnType isAsync body) := by
  unfold functionType
  apply leaves_then (leaves_paramTypes params)
  intro types
  apply leaves_then (leaves_resolve? returnType)
  intro declared
  apply leaves_then (leaves_define name _)
  intro _
  have hbody : Leaves ids (inScope do
      defineAll params types
      collectReturns declared body) :=
    leaves_inScope (leaves_then (leaves_defineAll params types) fun _ => leaves_collectReturns h)
  apply hbody.before
  intro seen
  exact leaves_then (leaves_define name _) fun _ => leaves_pure _

theorem leaves_importNames (names : List String) : LeavesNothing (importNames names) := by
  induction names with
  | nil => exact leaves_pure ()
  | cons name rest ih => exact leaves_then (leaves_define name .any) fun _ => ih

theorem leaves_importDecl (item : Import) : LeavesNothing (importDecl item) :=
  leaves_importNames _

theorem leaves_declareMethods (ss : List Stmt) : LeavesNothing (declareMethods ss) := by
  fun_induction declareMethods ss with
  | case1 => exact leaves_pure ()
  | case2 span f rest ih =>
      exact leaves_then (leaves_signature f) fun type => leaves_then (leaves_define f.name type)
        fun _ => ih
  | case3 s rest _ ih => exact ih

theorem leaves_summarize (name : String) (state : List String) (methods : List TypedName) :
    LeavesNothing (summarize name state methods) :=
  fun _ => Checking.grows_of_eq rfl rfl (List.prefix_append _ _)

/-! ## Statements -/

/-- Whether a member of a component is a method. -/
def isMethod : Stmt → Bool
  | .functionDecl .. => true
  | _ => false

theorem isMethod_eq_false {s : Stmt} (h : ∀ span f, s = .functionDecl span f → False) :
    isMethod s = false := by
  cases s with
  | functionDecl span f => exact (h span f rfl).elim
  | _ => rfl

/-- Whether a member of a component is checked like any other statement. -/
def isOrdinary : Stmt → Bool
  | .functionDecl .. | .variableDecl .. | .assignment _ (.identifier ..) .assign _ => false
  | _ => true

theorem declareMethods_of_not_method {s : Stmt} (h : isMethod s = false) (rest : List Stmt) :
    declareMethods (s :: rest) = declareMethods rest := by
  cases s with
  | functionDecl span f => cases h
  | _ => rfl

theorem methods_of_not_method {s : Stmt} (h : isMethod s = false) (rest : List Stmt) :
    methods (s :: rest) = methods rest := by
  cases s with
  | functionDecl span f => cases h
  | _ => rfl

theorem members_of_ordinary {s : Stmt} (h : isOrdinary s = true) (rest : List Stmt) :
    members (s :: rest) = (do stmt s; members rest) := by
  cases s with
  | functionDecl | variableDecl => cases h
  | assignment span target op value =>
      cases target with
      | identifier =>
          cases op with
          | assign => cases h
          | _ => rfl
      | _ => rfl
  | _ => rfl

/-- A plain assignment among the members of a component, by whether the component has the name. -/
theorem members_assignment (span : Span) (node : Node) (name : String) (value : Expr)
    (rest : List Stmt) (c : Checking) :
    (members (.assignment span (.identifier node name) .assign value :: rest)).run c =
      (if c.scopes.definesHere name then (do
        stmt (.assignment span (.identifier node name) .assign value)
        members rest).run c
      else (do
        let type ← expr value
        record node.id type
        define name type
        return name :: (← members rest)).run c) := by
  rw [Check.members]
  change (if _ then _ else _ : Check (List String)).run c = _
  split <;> rfl

/-- The members of a component are its methods and the others. -/
theorem numbers_stmts_filter (ss : List Stmt) :
    numbers (Walk.stmts everywhere (ss.filter fun s => !isMethod s)) ∪
      numbers (Walk.stmts everywhere (ss.filter isMethod)) =
        numbers (Walk.stmts everywhere ss) := by
  induction ss with
  | nil => exact Set.union_self _
  | cons s rest ih =>
      rw [Walk.stmts, numbers_append, ← ih]
      cases h : isMethod s
      · simp only [List.filter_cons, h, Bool.not_false, if_true, if_false, Walk.stmts,
          numbers_append, Bool.false_eq_true]
        ac_rfl
      · simp only [List.filter_cons, h, Bool.not_true, if_true, if_false, Walk.stmts,
          numbers_append, Bool.false_eq_true]
        ac_rfl

mutual

theorem leaves_stmt : ∀ s : Stmt, Leaves (numbers (Walk.stmt everywhere s)) (stmt s)
  | .expression span e => by
    rw [Check.stmt]
    exact ((leaves_expr e).before fun _ => leaves_pure ()).of_eq (numbers_cons _ rfl).symm
  | .block b => by
    rw [Check.stmt]
    exact (leaves_block b).of_eq (numbers_cons _ rfl).symm
  | .variableDecl span decl => by
    rw [Check.stmt]
    exact (leaves_variableDecl decl).of_eq (numbers_cons _ rfl).symm
  | .assignment span target op value => by
    rw [Check.stmt]
    refine (leaves_assignment target op value).of_eq ?_
    rw [← numbers_append]
    exact (numbers_cons _ rfl).symm
  | .ifElse span test consequent alternate => by
    rw [Check.stmt]
    refine ((leaves_expr test).bind fun _ => (leaves_block consequent).bind fun _ =>
      leaves_stmt? alternate).of_eq ?_
    rw [← numbers_append, ← numbers_append]
    exact (numbers_cons _ rfl).symm
  | .whileLoop span test body => by
    rw [Check.stmt]
    refine ((leaves_expr test).bind fun _ => leaves_block body).of_eq ?_
    rw [← numbers_append]
    exact (numbers_cons _ rfl).symm
  | .forLoop span init test update body => by
    rw [Check.stmt]
    refine (leaves_inScope ((leaves_stmt? init).bind fun _ => (leaves_expr? test).bind fun _ =>
      (leaves_stmt? update).bind fun _ => leaves_block body)).of_eq ?_
    rw [← numbers_append, ← numbers_append, ← numbers_append]
    exact (numbers_cons _ rfl).symm
  | .forIn span name iterable body => by
    rw [Check.stmt]
    refine ((leaves_expr iterable).bind fun type => leaves_inScope
      (leaves_then (leaves_define name _) fun _ => leaves_block body)).of_eq ?_
    rw [← numbers_append]
    exact (numbers_cons _ rfl).symm
  | .returnStmt span none => by
    rw [Check.stmt]
    exact (leaves_noteReturn _ _).of_eq ((numbers_cons _ rfl).trans numbers_nil).symm
  | .returnStmt span (some e) => by
    rw [Check.stmt]
    exact ((leaves_expr e).before fun type => leaves_noteReturn type _).of_eq
      (numbers_cons _ rfl).symm
  | .breakStmt span | .continueStmt span | .error span message => by
    rw [Check.stmt]
    exact (leaves_pure ()).of_eq ((numbers_cons _ rfl).trans numbers_nil).symm
  | .tryStmt span b handler cleanup | .asyncBlock span b handler cleanup => by
    rw [Check.stmt]
    refine ((leaves_block b).bind fun _ => (leaves_handler? handler).bind fun _ =>
      leaves_block? cleanup).of_eq ?_
    rw [← numbers_append, ← numbers_append]
    exact (numbers_cons _ rfl).symm
  | .throwStmt span value => by
    rw [Check.stmt]
    exact ((leaves_expr value).before fun _ => leaves_pure ()).of_eq (numbers_cons _ rfl).symm
  | .functionDecl span f => by
    rw [Check.stmt]
    exact ((leaves_function f).before fun _ => leaves_pure ()).of_eq (numbers_cons _ rfl).symm
  | .importDecl span item => by
    rw [Check.stmt]
    exact (leaves_importDecl item).of_eq
      (((numbers_cons _ rfl).trans (numbers_cons _ rfl)).trans numbers_nil).symm
  | .exportDecl span item => by
    rw [Check.stmt]
    exact (leaves_exportDecl item).of_eq (numbers_cons _ rfl).symm

theorem leaves_stmt? : ∀ s : Option Stmt, Leaves (numbers (Walk.stmt? everywhere s)) (stmt? s)
  | none => (leaves_pure ()).of_eq numbers_nil.symm
  | some s => leaves_stmt s

theorem leaves_stmts : ∀ ss : List Stmt, Leaves (numbers (Walk.stmts everywhere ss)) (stmts ss)
  | [] => (leaves_pure ()).of_eq numbers_nil.symm
  | s :: rest => by
    rw [Check.stmts]
    refine ((leaves_stmt s).bind fun _ => leaves_stmts rest).of_eq ?_
    rw [Walk.stmts, numbers_append]

theorem leaves_block : ∀ b : Block, Leaves (numbers (Walk.block everywhere b)) (block b)
  | ⟨statements, span⟩ => by
    rw [Check.block]
    exact (leaves_inScope (leaves_stmts statements)).of_eq (numbers_cons _ rfl).symm

theorem leaves_block? : ∀ b : Option Block,
    Leaves (numbers (Walk.block? everywhere b)) (block? b)
  | none => (leaves_pure ()).of_eq numbers_nil.symm
  | some b => leaves_block b

theorem leaves_handler? : ∀ handler : Option CatchClause,
    Leaves (numbers (Walk.handler? everywhere handler)) (handler? handler)
  | none => (leaves_pure ()).of_eq numbers_nil.symm
  | some ⟨param, body⟩ => by
    rw [Check.handler?]
    exact leaves_inScope (leaves_then (leaves_importNames _) fun _ => leaves_block body)

theorem leaves_function : ∀ f : Function,
    Leaves (numbers (Walk.function everywhere f)) (function f)
  | ⟨name, params, returnType, ⟨statements, blockSpan⟩, isAsync, modifiers, span⟩ => by
    rw [Check.function]
    exact (leaves_functionType (leaves_stmts statements)).of_eq
      ((numbers_cons _ rfl).trans (numbers_cons _ rfl)).symm

theorem leaves_members : ∀ ss : List Stmt,
    Leaves (numbers (Walk.stmts everywhere (ss.filter fun s => !isMethod s))) (members ss)
  | [] => (leaves_pure _).of_eq numbers_nil.symm
  | s :: rest => by
    unfold Check.members
    split
    · exact leaves_members rest
    next span decl =>
      refine ((leaves_variableDecl decl).bind fun _ => (leaves_members rest).before fun _ =>
        leaves_pure _).of_eq ?_
      rw [← numbers_append]
      exact (numbers_cons _ rfl).symm
    next span node name value =>
      have hids : numbers (Walk.stmts everywhere
            ((.assignment span (.identifier node name) .assign value :: rest).filter
              fun s => !isMethod s)) =
          {node.id} ∪ (numbers (Walk.expr everywhere value) ∪
            numbers (Walk.stmts everywhere (rest.filter fun s => !isMethod s))) := by
        rw [← numbers_identifier node name, ← numbers_append, ← numbers_append,
          ← List.append_assoc]
        exact numbers_cons _ rfl
      refine leaves_get_bind fun c => ?_
      split
      · rw [Check.stmt]
        refine ((leaves_assignment _ _ value).bind fun _ => leaves_members rest).of_eq ?_
        rw [hids, numbers_identifier, Set.union_assoc]
      · refine ((leaves_expr value).bind fun type => (leaves_record node.id type).bind fun _ =>
          leaves_then (leaves_define name type) fun _ =>
            (leaves_members rest).before fun _ => leaves_pure _).of_eq ?_
        rw [hids]
        ac_rfl
    next hmethod _ _ =>
      refine ((leaves_stmt s).bind fun _ => leaves_members rest).of_eq ?_
      rw [List.filter_cons_of_pos (by rw [isMethod_eq_false hmethod]; rfl), Walk.stmts,
        numbers_append]

theorem leaves_methods : ∀ ss : List Stmt,
    Leaves (numbers (Walk.stmts everywhere (ss.filter isMethod))) (methods ss)
  | [] => (leaves_pure _).of_eq numbers_nil.symm
  | s :: rest => by
    cases s with
    | functionDecl span f =>
      rw [Check.methods]
      refine ((leaves_function f).bind fun type => (leaves_methods rest).before fun _ =>
        leaves_pure _).of_eq ?_
      rw [← numbers_append]
      exact (numbers_cons _ rfl).symm
    | _ => exact leaves_methods rest

theorem leaves_component : ∀ c : Component,
    Leaves (numbers (Walk.component everywhere c)) (component c)
  | ⟨name, modifiers, statements, body, span⟩ => by
    rw [Check.component]
    refine (leaves_inScope (leaves_then (leaves_declareMethods statements) fun _ =>
      (leaves_members statements).bind fun state => (leaves_methods statements).bind fun methods =>
        (leaves_markups body).before fun _ => leaves_summarize name state methods)).of_eq ?_
    rw [← Set.union_assoc, numbers_stmts_filter, ← numbers_append]
    exact (numbers_cons _ rfl).symm

theorem leaves_exportDecl : ∀ e : Export,
    Leaves (numbers (Walk.exportDecl everywhere e)) (exportDecl e)
  | ⟨isDefault, .function f, span⟩ => by
    rw [Check.exportDecl]
    exact ((leaves_function f).before fun _ => leaves_pure ()).of_eq (numbers_cons _ rfl).symm
  | ⟨isDefault, .component c, span⟩ => by
    rw [Check.exportDecl]
    exact (leaves_component c).of_eq (numbers_cons _ rfl).symm
  | ⟨isDefault, .statement s, span⟩ => by
    rw [Check.exportDecl]
    exact (leaves_stmt s).of_eq (numbers_cons _ rfl).symm

end

/-! ## Programs -/

theorem leaves_declareFunction (f : Function) : LeavesNothing (declareFunction f) :=
  leaves_then (leaves_signature f) fun type => leaves_define f.name type

theorem leaves_declareVariable (s : Stmt) : LeavesNothing (declareVariable s) := by
  unfold declareVariable
  split
  · exact leaves_define _ _
  · exact leaves_pure ()

/-- What notes nothing for an item notes nothing for a list. -/
theorem leavesNothing_each {α : Type} {check : α → Check Unit}
    (h : ∀ a, LeavesNothing (check a)) (items : List α) : LeavesNothing (each check items) :=
  (leaves_each h items).of_eq (by simp)

theorem leaves_declare (p : Program) : LeavesNothing (declare p) := by
  unfold declare
  apply leaves_then (leavesNothing_each leaves_importDecl p.imports)
  intro _
  apply leaves_then (leavesNothing_each (fun c => leaves_declareComponent c.name) p.allComponents)
  intro _
  apply leaves_then (leavesNothing_each leaves_declareFunction p.allFunctions)
  intro _
  exact leavesNothing_each leaves_declareVariable p.statements

theorem leaves_program (p : Program) : Leaves {id | id ∈ p.visited} (program p) := by
  have hfunction : ∀ f : Function, Leaves (numbers (Walk.function everywhere f))
      (do let _ ← function f) :=
    fun f => (leaves_function f).before fun _ => leaves_pure ()
  unfold program
  refine (leaves_then (leaves_declare p) fun _ => (leaves_each hfunction p.functions).bind fun _ =>
    (leaves_each leaves_stmt p.statements).bind fun _ =>
      (leaves_each leaves_exportDecl p.exports).bind fun _ =>
        leaves_each leaves_component p.components).of_eq ?_
  have himports : numbers (p.imports.map .importDecl) = ∅ := by
    simp [numbers, number?, List.filterMap_map, Function.comp_def]
  have hparts : {id | id ∈ p.visited} = numbers (p.imports.map .importDecl ++
      (p.exports.flatMap (Walk.exportDecl everywhere) ++
        (p.functions.flatMap (Walk.function everywhere) ++
          (p.components.flatMap (Walk.component everywhere) ++
            p.statements.flatMap (Walk.stmt everywhere))))) :=
    numbers_cons _ rfl
  rw [hparts, numbers_append, himports, Set.empty_union]
  simp only [numbers_append, numbers_flatMap]
  ac_rfl

end ComponentLang.Check

namespace ComponentLang

open Checking Check Grammar

theorem grows_check (p : Program) (external : List TypedName) :
    Grows {id | id ∈ p.visited} (.start external) ((Check.program p).run (.start external)).2 :=
  leaves_program p (.start external)

/-- The types that are found for a program are those of the expressions that stand anywhere in it.
Their numbers are the numbers to which a walk of the program comes, each once if the program was
read from tokens. -/
theorem check_types_complete (tokens : List Token) (external : List TypedName) :
    let program := (parse tokens).program
    let types := (program.check external).types
    (∀ id, (types.get? id).isSome ↔ ∃ e, program.Contains (.expr e) ∧ e.id = id) ∧
    (∀ id, (types.get? id).isSome ↔ id ∈ program.visited) ∧
    program.visited.Nodup := by
  intro program types
  have hnoted : types.numbers = {id | id ∈ program.visited} := by
    rw [← Set.empty_union {id | id ∈ program.visited}, ← TypeTable.numbers_empty]
    exact (grows_check program external).numbers
  have hvisited : ∀ id, (types.get? id).isSome ↔ id ∈ program.visited :=
    fun id => Set.ext_iff.1 hnoted id
  refine ⟨fun id => ?_, hvisited, nodup_visited tokens⟩
  rw [hvisited, Program.mem_visited]

end ComponentLang
