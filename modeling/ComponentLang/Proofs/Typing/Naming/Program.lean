import ComponentLang.Proofs.Tree.Bare
import ComponentLang.Proofs.Typing.Naming
import ComponentLang.Proofs.Typing.Twins.Program

/-!
# What is reported about the names in programs

A program is checked beside itself without its annotations. Where scopes are opened and what is
defined in them does not depend on types, and neither do the statements that are checked. So what is
reported about names is the same for programs that differ in their annotations only.
-/
namespace ComponentLang

namespace Check

/-! ## Variables -/

theorem echoes_declaredWith (decl : VariableDecl) :
    Echoes (declaredWith decl) (declaredWith decl.bare) := by
  obtain ⟨kind, name, typeExpr, init⟩ := decl
  unfold declaredWith VariableDecl.bare
  refine ((quiet_resolve? typeExpr).echoes (quiet_resolve? none)).bind fun annotated annotated' => ?_
  cases init
  case' none => refine (echoes_pure none none).bind fun found found' => Quiet.echoes ?_ ?_
  case' some e => refine (echoes_expr e).map.bind fun found found' => Quiet.echoes ?_ ?_
  all_goals
    dsimp only
    split
    · exact (quiet_expectStorable _ _ _).bind fun _ => quiet_pure _
    · exact quiet_pure _

theorem echoes_variableDecl (decl : VariableDecl) :
    Echoes (variableDecl decl) (variableDecl decl.bare) := by
  rw [variableDecl_eq, variableDecl_eq]
  exact (echoes_declaredWith decl).bind fun _ _ => echoes_define decl.name _ _

theorem echoes_assignmentTarget (target : Expr) :
    Echoes (assignmentTarget target) (assignmentTarget target) := by
  unfold assignmentTarget
  split
  · exact (echoes_variableType _ _).bind fun _ _ => echoes_noted _ _ _
  · exact echoes_expr target

theorem quiet_assignedType (op : AssignOp) (target value : Ty) (span : Span) :
    Quiet (assignedType op target value span) := by
  unfold assignedType
  split
  · exact quiet_pure _
  · exact quiet_settle (Ty.aboutTypes_ofBinary _ _ _) span

theorem quiet_adopt (target : Expr) (type : Ty) : Quiet (adopt target type) := by
  unfold adopt
  split
  · split
    · exact quiet_pure ()
    · exact quiet_update _ _
  · exact quiet_pure ()

theorem quiet_keep (target : Expr) (span : Span) (types : Ty × Ty) :
    Quiet (keep target span types) := by
  unfold keep
  split
  · exact quiet_adopt _ _
  · exact quiet_expectStorable _ _ _

/-- Whether the value is taken for the variable's type or compared with it, both sides are checked. -/
theorem echoes_assignment (target : Expr) (op : AssignOp) (value : Expr) :
    Echoes (assignment target op value) (assignment target op value) := by
  have hassigned : Echoes (assigned target op value) (assigned target op value) := by
    unfold assigned
    exact (echoes_assignmentTarget target).bind fun _ _ => (echoes_expr value).bind fun _ _ =>
      ((quiet_assignedType _ _ _ _).bind fun _ => quiet_pure _).echoes
        ((quiet_assignedType _ _ _ _).bind fun _ => quiet_pure _)
  rw [assignment_eq]
  exact hassigned.bind fun _ _ => (quiet_keep _ _ _).echoes (quiet_keep _ _ _)

/-! ## Functions -/

theorem quiet_paramTypes (params : List Param) : Quiet (paramTypes params) := by
  induction params with
  | nil => exact quiet_pure _
  | cons param rest ih =>
      exact (quiet_resolve? param.typeExpr).bind fun _ => ih.bind fun _ => quiet_pure _

/-- There is a type for each parameter, whatever is written of it. -/
theorem length_paramTypes (params : List Param) (c : Checking) :
    ((paramTypes params).run c).1.length = params.length := by
  induction params generalizing c with
  | nil => rfl
  | cons param rest ih => exact congrArg Nat.succ (ih ((resolve? param.typeExpr).run c).2)

theorem quiet_signature (f : Function) : Quiet (signature f) := by
  unfold signature
  exact (quiet_paramTypes f.params).bind fun _ => (quiet_resolve? f.returnType).bind fun _ =>
    quiet_pure _

theorem echoes_defineAll {params : List Param} {types types' : List Ty}
    (h : types.length = params.length) (h' : types'.length = params.length) :
    Echoes (defineAll params types) (defineAll (params.map Param.bare) types') := by
  induction params generalizing types types' with
  | nil => exact echoes_pure () ()
  | cons param rest ih =>
      obtain ⟨type, later, rfl⟩ := List.exists_cons_of_length_eq_add_one h
      obtain ⟨type', later', rfl⟩ := List.exists_cons_of_length_eq_add_one h'
      exact (echoes_define param.name type type').bind fun _ _ =>
        ih (Nat.succ.inj h) (Nat.succ.inj h')

theorem echoes_functionType {name : String} {params : List Param} {returnType : Option TypeExpr}
    {isAsync : Bool} {body body' : Check Unit} (h : Echoes body body') :
    Echoes (functionType name params returnType isAsync body)
      (functionType name (params.map Param.bare) none isAsync body') := by
  unfold functionType
  refine ((quiet_paramTypes params).echoes (quiet_paramTypes _)).bind_run fun c c' =>
    ((quiet_resolve? returnType).echoes (quiet_resolve? none)).bind fun declared declared' =>
      (echoes_define name _ _).bind fun _ _ => (echoes_inScope ?_).bind fun _ _ =>
        (echoes_define name _ _).bind fun _ _ => echoes_pure _ _
  have hlength := length_paramTypes (params.map Param.bare) c'
  rw [List.length_map] at hlength
  exact (echoes_defineAll (length_paramTypes params c) hlength).bind fun _ _ =>
    echoes_collectReturns h

theorem echoes_importNames (names : List String) :
    Echoes (importNames names) (importNames names) := by
  induction names with
  | nil => exact echoes_pure () ()
  | cons name rest ih => exact (echoes_define name .any .any).bind fun _ _ => ih

theorem echoes_importDecl (item : Import) : Echoes (importDecl item) (importDecl item) :=
  echoes_importNames _

/-! ## Members of components -/

theorem isMethod_bare (s : Stmt) : isMethod (Bare.stmt s) = isMethod s := by
  cases s <;> rfl

theorem isOrdinary_bare (s : Stmt) : isOrdinary (Bare.stmt s) = isOrdinary s := by
  cases s <;> rfl

theorem echoes_declareFunction (f : Function) :
    Echoes (declareFunction f) (declareFunction (Bare.function f)) := by
  unfold declareFunction
  rw [Bare.name_function]
  exact ((quiet_signature f).echoes (quiet_signature _)).bind fun _ _ => echoes_define f.name _ _

theorem echoes_declareMethods (ss : List Stmt) :
    Echoes (declareMethods ss) (declareMethods (Bare.stmts ss)) := by
  induction ss with
  | nil => exact echoes_pure () ()
  | cons s rest ih =>
      rw [Bare.stmts]
      cases hmethod : isMethod s with
      | false =>
          rw [declareMethods_of_not_method hmethod,
            declareMethods_of_not_method ((isMethod_bare s).trans hmethod)]
          exact ih
      | true =>
          cases s with
          | functionDecl span f => exact (echoes_declareFunction f).bind fun _ _ => ih
          | _ => cases hmethod

theorem quiet_summarize (name : String) (state : List String) (methods : List TypedName) :
    Quiet (summarize name state methods) :=
  quiet_modify fun _ => ⟨rfl, rfl, rfl⟩

/-! ## Statements -/

mutual

theorem echoes_stmt : ∀ s : Stmt, Echoes (stmt s) (stmt (Bare.stmt s))
  | .expression span e => by
    simp only [Bare.stmt, Check.stmt]
    exact (echoes_expr e).bind fun _ _ => echoes_pure () ()
  | .block b => by
    simp only [Bare.stmt, Check.stmt]
    exact echoes_block b
  | .variableDecl span decl => by
    simp only [Bare.stmt, Check.stmt]
    exact echoes_variableDecl decl
  | .assignment span target op value => by
    simp only [Bare.stmt, Check.stmt]
    exact echoes_assignment target op value
  | .ifElse span test consequent alternate => by
    simp only [Bare.stmt, Check.stmt]
    exact (echoes_expr test).bind fun _ _ => (echoes_block consequent).bind fun _ _ =>
      echoes_stmt? alternate
  | .whileLoop span test body => by
    simp only [Bare.stmt, Check.stmt]
    exact (echoes_expr test).bind fun _ _ => echoes_block body
  | .forLoop span init test update body => by
    simp only [Bare.stmt, Check.stmt]
    exact echoes_inScope ((echoes_stmt? init).bind fun _ _ => (echoes_expr? test).bind fun _ _ =>
      (echoes_stmt? update).bind fun _ _ => echoes_block body)
  | .forIn span name iterable body => by
    simp only [Bare.stmt, Check.stmt]
    exact (echoes_expr iterable).bind fun _ _ => echoes_inScope
      ((echoes_define name _ _).bind fun _ _ => echoes_block body)
  | .returnStmt span none => by
    simp only [Bare.stmt, Check.stmt]
    exact (quiet_noteReturn .null span).echoes_self
  | .returnStmt span (some e) => by
    simp only [Bare.stmt, Check.stmt]
    exact (echoes_expr e).bind fun _ _ => (quiet_noteReturn _ _).echoes (quiet_noteReturn _ _)
  | .breakStmt span | .continueStmt span | .error span message => by
    simp only [Bare.stmt, Check.stmt]
    exact echoes_pure () ()
  | .tryStmt span b handler cleanup | .asyncBlock span b handler cleanup => by
    simp only [Bare.stmt, Check.stmt]
    exact (echoes_block b).bind fun _ _ => (echoes_handler? handler).bind fun _ _ =>
      echoes_block? cleanup
  | .throwStmt span value => by
    simp only [Bare.stmt, Check.stmt]
    exact (echoes_expr value).bind fun _ _ => echoes_pure () ()
  | .functionDecl span f => by
    simp only [Bare.stmt, Check.stmt]
    exact (echoes_function f).bind fun _ _ => echoes_pure () ()
  | .importDecl span item => by
    simp only [Bare.stmt, Check.stmt]
    exact echoes_importDecl item
  | .exportDecl span item => by
    simp only [Bare.stmt, Check.stmt]
    exact echoes_exportDecl item
termination_by structural s => s

theorem echoes_stmt? : ∀ s : Option Stmt, Echoes (stmt? s) (stmt? (Bare.stmt? s))
  | none => echoes_pure () ()
  | some s => echoes_stmt s
termination_by structural s => s

theorem echoes_stmts : ∀ ss : List Stmt, Echoes (stmts ss) (stmts (Bare.stmts ss))
  | [] => echoes_pure () ()
  | s :: rest => by
    simp only [Bare.stmts, Check.stmts]
    exact (echoes_stmt s).bind fun _ _ => echoes_stmts rest
termination_by structural ss => ss

theorem echoes_block : ∀ b : Block, Echoes (block b) (block (Bare.block b))
  | ⟨statements, span⟩ => by
    simp only [Bare.block, Check.block]
    exact echoes_inScope (echoes_stmts statements)
termination_by structural b => b

theorem echoes_block? : ∀ b : Option Block, Echoes (block? b) (block? (Bare.block? b))
  | none => echoes_pure () ()
  | some b => echoes_block b
termination_by structural b => b

theorem echoes_handler? : ∀ handler : Option CatchClause,
    Echoes (handler? handler) (handler? (Bare.handler? handler))
  | none => echoes_pure () ()
  | some ⟨param, body⟩ => by
    simp only [Bare.handler?, Check.handler?]
    exact echoes_inScope ((echoes_importNames _).bind fun _ _ => echoes_block body)
termination_by structural handler => handler

theorem echoes_function : ∀ f : Function, Echoes (function f) (function (Bare.function f))
  | ⟨name, params, returnType, ⟨statements, blockSpan⟩, isAsync, modifiers, span⟩ => by
    simp only [Bare.function, Check.function]
    exact echoes_functionType (echoes_stmts statements)
termination_by structural f => f

theorem echoes_members : ∀ ss : List Stmt, Echoes (members ss) (members (Bare.stmts ss))
  | [] => echoes_pure _ _
  | s :: rest => by
    rw [Bare.stmts]
    cases hordinary : isOrdinary s with
    | true =>
      rw [members_of_ordinary hordinary,
        members_of_ordinary ((isOrdinary_bare s).trans hordinary)]
      exact (echoes_stmt s).bind fun _ _ => echoes_members rest
    | false =>
      cases s with
      | functionDecl span f =>
        simp only [Bare.stmt, Check.members]
        exact echoes_members rest
      | variableDecl span decl =>
        simp only [Bare.stmt, Check.members]
        exact (echoes_variableDecl decl).bind fun _ _ => (echoes_members rest).bind fun _ _ =>
          echoes_pure _ _
      | assignment span target op value =>
        cases target with
        | identifier node name =>
          cases op with
          | assign =>
            simp only [Bare.stmt, Check.members, Check.stmt]
            -- The assignment declares the name in both runs or in neither: types have no part in it.
            refine echoes_get_bind fun c c' hc => ?_
            rw [Scopes.definesHere_congr hc.scopes]
            by_cases hhere : c.scopes.definesHere name
            · rw [if_pos hhere, if_pos hhere]
              exact (echoes_assignment _ _ value).bind fun _ _ => echoes_members rest
            · rw [if_neg hhere, if_neg hhere]
              exact (echoes_expr value).bind fun _ _ =>
                ((quiet_record node.id _).echoes (quiet_record node.id _)).bind fun _ _ =>
                  (echoes_define name _ _).bind fun _ _ => (echoes_members rest).bind fun _ _ =>
                    echoes_pure _ _
          | _ => cases hordinary
        | _ => cases hordinary
      | _ => cases hordinary
termination_by structural ss => ss

theorem echoes_methods : ∀ ss : List Stmt, Echoes (methods ss) (methods (Bare.stmts ss))
  | [] => echoes_pure _ _
  | s :: rest => by
    rw [Bare.stmts]
    cases hmethod : isMethod s with
    | false =>
      rw [methods_of_not_method hmethod, methods_of_not_method ((isMethod_bare s).trans hmethod)]
      exact echoes_methods rest
    | true =>
      cases s with
      | functionDecl span f =>
        simp only [Bare.stmt, Check.methods]
        exact (echoes_function f).bind fun _ _ => (echoes_methods rest).bind fun _ _ =>
          echoes_pure _ _
      | _ => cases hmethod
termination_by structural ss => ss

theorem echoes_component : ∀ c : Component, Echoes (component c) (component (Bare.component c))
  | ⟨name, modifiers, statements, body, span⟩ => by
    simp only [Bare.component, Check.component]
    exact echoes_inScope ((echoes_declareMethods statements).bind fun _ _ =>
      (echoes_members statements).bind fun _ _ => (echoes_methods statements).bind fun _ _ =>
        (echoes_markups body).bind fun _ _ => (quiet_summarize _ _ _).echoes (quiet_summarize _ _ _))
termination_by structural c => c

theorem echoes_exportDecl : ∀ e : Export, Echoes (exportDecl e) (exportDecl (Bare.exportDecl e))
  | ⟨isDefault, .function f, span⟩ => by
    simp only [Bare.exportDecl, Check.exportDecl]
    exact (echoes_function f).bind fun _ _ => echoes_pure () ()
  | ⟨isDefault, .component c, span⟩ => by
    simp only [Bare.exportDecl, Check.exportDecl]
    exact echoes_component c
  | ⟨isDefault, .statement s, span⟩ => by
    simp only [Bare.exportDecl, Check.exportDecl]
    exact echoes_stmt s
termination_by structural e => e

end

/-! ## Programs -/

theorem echoes_declareVariable (s : Stmt) :
    Echoes (declareVariable s) (declareVariable (Bare.stmt s)) := by
  cases s with
  | variableDecl span decl => exact echoes_define decl.name _ _
  | _ => exact echoes_pure () ()

theorem echoes_declare (p : Program) : Echoes (declare p) (declare p.bare) := by
  have himports := echoes_each id echoes_importDecl p.imports
  rw [List.map_id] at himports
  have hcomponent (k : Component) : Echoes (declareComponent k.name)
      (declareComponent (Bare.component k).name) := by
    rw [Bare.name_component]
    exact echoes_declareComponent k.name
  unfold declare
  rw [Program.allComponents_bare, Program.allFunctions_bare]
  exact himports.bind fun _ _ => (echoes_each Bare.component hcomponent _).bind fun _ _ =>
    (echoes_each Bare.function echoes_declareFunction _).bind fun _ _ =>
      echoes_each Bare.stmt echoes_declareVariable p.statements

theorem echoes_program (p : Program) : Echoes (program p) (program p.bare) := by
  have hfunction (f : Function) : Echoes (do let _ ← function f) (do
      let _ ← function (Bare.function f)) :=
    (echoes_function f).bind fun _ _ => echoes_pure () ()
  exact (echoes_declare p).bind fun _ _ =>
    (echoes_each Bare.function hfunction p.functions).bind fun _ _ =>
      (echoes_each Bare.stmt echoes_stmt p.statements).bind fun _ _ =>
        (echoes_each Bare.exportDecl echoes_exportDecl p.exports).bind fun _ _ =>
          echoes_each Bare.component echoes_component p.components

end Check

open Check

/-- The names in sight before a program do not depend on the values from outside. -/
theorem Checking.sameNames_start (external external' : List TypedName) :
    SameNames (start external) (start external') := ⟨rfl, rfl, fun _ _ => Iff.rfl⟩

/-- The names that are reported of a program are those that are reported without its annotations, and
with other types for the values from outside. -/
theorem naming_check_bare (p : Program) (external external' : List TypedName) {d : Diagnostic}
    (hd : d.Naming) :
    d ∈ (p.bare.check external').diagnostics ↔ d ∈ (p.check external).diagnostics := by
  have hsame := echoes_program p _ _ (Checking.sameNames_start external external')
  exact List.mem_reverse.trans ((hsame.reported d hd).trans List.mem_reverse.symm)

/-- Whether a name is reported does not depend on types: of two programs that differ in their
annotations only, the same undefined variables and unknown components are reported, whatever types
are given for the values from outside. -/
theorem check_naming_of_bare_eq {p p' : Program} (h : p.bare = p'.bare)
    (external external' : List TypedName) :
    {d | d ∈ (p.check external).diagnostics ∧ d.Naming} =
      {d | d ∈ (p'.check external').diagnostics ∧ d.Naming} := by
  ext d
  refine and_congr_left fun hd => ?_
  rw [← naming_check_bare p external [] hd, ← naming_check_bare p' external' [] hd, h]

/-- The program `function greet(name) { return missing + name }`, `let count = greet(!who)` and a
component `Page` with a tag `<Lost />` in it, with `type` written of `name`, `greet` and `count`. -/
def greeting (type : Option TypeExpr) : Program :=
  { Program.empty with
    functions :=
      [⟨"greet", [⟨"name", type, ⟨15, 19, 1, 16⟩⟩], type,
        ⟨[.returnStmt ⟨23, 44, 1, 24⟩ (some (.binary ⟨2, ⟨30, 44, 1, 31⟩⟩
          (.identifier ⟨0, ⟨30, 37, 1, 31⟩⟩ "missing") .add
          (.identifier ⟨1, ⟨40, 44, 1, 41⟩⟩ "name")))], ⟨21, 46, 1, 22⟩⟩,
        false, [], ⟨0, 46, 1, 1⟩⟩]
    statements :=
      [.variableDecl ⟨47, 70, 2, 1⟩ ⟨.letVar, "count", type,
        some (.call ⟨5, ⟨59, 70, 2, 13⟩⟩ (.identifier ⟨3, ⟨59, 64, 2, 13⟩⟩ "greet")
          [.valueBinding ⟨4, ⟨65, 69, 2, 19⟩⟩ "who"])⟩]
    components :=
      [⟨"Page", [], [], [.tag ⟨"Lost", [], [], [], true, ⟨88, 96, 3, 18⟩⟩], ⟨71, 98, 3, 1⟩⟩] }

/-- The same two names are reported when no types are written and when the type that is written is
none, though then this is reported too, and with it an argument. -/
theorem check_naming_of_bare_eq_greeting :
    (greeting (some (.named ⟨7, 12, 1, 8⟩ "Wrong"))).bare = (greeting none).bare ∧
      {d | d ∈ ((greeting (some (.named ⟨7, 12, 1, 8⟩ "Wrong"))).check
          [⟨"who", .string⟩]).diagnostics ∧ d.Naming} =
        {d | d ∈ ((greeting none).check []).diagnostics ∧ d.Naming} ∧
      ((greeting (some (.named ⟨7, 12, 1, 8⟩ "Wrong"))).check [⟨"who", .string⟩]).diagnostics =
        [.ofSpan .type (TypeFault.unknownType "Wrong").message ⟨7, 12, 1, 8⟩,
          .ofSpan .type (TypeFault.undefinedVariable "missing").message ⟨30, 37, 1, 31⟩,
          .ofSpan .type (TypeFault.argumentType 1 .unknown .string).message ⟨65, 69, 2, 19⟩,
          .ofSpan .type (TypeFault.unknownComponent "Lost").message ⟨88, 96, 3, 18⟩] ∧
      ((greeting none).check []).diagnostics =
        [.ofSpan .type (TypeFault.undefinedVariable "missing").message ⟨30, 37, 1, 31⟩,
          .ofSpan .type (TypeFault.unknownComponent "Lost").message ⟨88, 96, 3, 18⟩] := by
  have hbare : (greeting (some (.named ⟨7, 12, 1, 8⟩ "Wrong"))).bare = (greeting none).bare := rfl
  exact ⟨hbare, check_naming_of_bare_eq hbare _ _, by decide, by decide⟩

end ComponentLang
