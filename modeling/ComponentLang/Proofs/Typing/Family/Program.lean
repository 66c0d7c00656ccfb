import ComponentLang.Proofs.Typing.Effects.Program
import ComponentLang.Proofs.Typing.Family.Expression

/-!
# Programs keep to a family of types

Functions and variables pass on the types that they are given, so if the names and keys of a program
are from a family, and the types of the values from outside are of it, then the scopes keep to the
family throughout, and with them what is noted, what the components are summarized by, and what is
reported.
-/
namespace ComponentLang

open TypedName

variable {F : Ty.Family}

namespace Check

/-! ## Variables -/

theorem has_declaredType {annotated init : Option Ty}
    (hannotated : ∀ t ∈ annotated, F.Has t) (hinit : ∀ t ∈ init, F.Has t) :
    F.Has (declaredType annotated init) := by
  unfold declaredType
  cases annotated with
  | some t => exact hannotated t rfl
  | none =>
      cases init with
      | some t => exact hinit t rfl
      | none => exact F.unknown

theorem keepsTo_variableDecl {decl : VariableDecl}
    (htype : ∀ a ∈ decl.typeExpr, ∀ name ∈ a.names, F.Named name)
    (hinit : ∀ e ∈ decl.init, F.Part (.expr e)) : KeepsTo F (variableDecl decl) := by
  obtain ⟨kind, name, typeExpr, init⟩ := decl
  unfold variableDecl
  refine (builds_resolve? htype).bind fun annotated hannotated => ?_
  cases init with
  | none =>
      refine (builds_pure (K := (· = none)) rfl).bind fun found hfound => ?_
      subst hfound
      dsimp only
      split
      next heq => cases heq
      next => exact keepsTo_define name (has_declaredType hannotated nofun)
  | some e =>
      refine (builds_some (builds_expr e (hinit e rfl))).bind fun found hfound => ?_
      have hdefine := keepsTo_define name (has_declaredType hannotated hfound)
      dsimp only
      split
      next target value _ _ =>
        exact (keepsTo_expectStorable (hfound value rfl) (hannotated target rfl) _).bind
          fun _ _ => hdefine
      next => exact hdefine

theorem builds_assignmentTarget {target : Expr} (h : F.Part (.expr target)) :
    Builds F F.Has (assignmentTarget target) := by
  unfold assignmentTarget
  split
  · exact (builds_variableType (spelled_identifier.1 h) _).bind fun _ h => builds_noted _ h
  · exact builds_expr target h

theorem builds_assignedType (op : AssignOp) {target value : Ty} (htarget : F.Has target)
    (hvalue : F.Has value) (span : Span) :
    Builds F F.Has (assignedType op target value span) := by
  unfold assignedType
  split
  · exact builds_pure hvalue
  next op _ => exact builds_settle (F.ofBinary htarget hvalue op) span

theorem keepsTo_adopt (target : Expr) {type : Ty} (h : F.Has type) :
    KeepsTo F (adopt target type) := by
  unfold adopt
  split
  · split
    · exact builds_pure trivial
    · exact keepsTo_update _ h
  · exact builds_pure trivial

theorem keepsTo_assignment {target value : Expr} (op : AssignOp)
    (htarget : F.Part (.expr target)) (hvalue : F.Part (.expr value)) :
    KeepsTo F (assignment target op value) := by
  unfold assignment
  refine (builds_assignmentTarget htarget).bind fun targetType htargetType =>
    (builds_expr value hvalue).bind fun valueType hvalueType =>
      (builds_assignedType op htargetType hvalueType _).bind fun stored hstored => ?_
  split
  · exact keepsTo_adopt target hstored
  · exact keepsTo_expectStorable hstored htargetType _

/-! ## Functions -/

theorem has_getD {found : Option Ty} (h : ∀ t ∈ found, F.Has t) :
    F.Has (found.getD .any) := by
  cases found with
  | none => exact F.any
  | some t => exact h t rfl

/-- The names in the types that are written in a function are from the family. -/
abbrev Signed (F : Ty.Family) (params : List Param) (returnType : Option TypeExpr) : Prop :=
  (∀ p ∈ params, ∀ a ∈ p.typeExpr, ∀ name ∈ a.names, F.Named name) ∧
    ∀ a ∈ returnType, ∀ name ∈ a.names, F.Named name

theorem signed_of_annotations {f : Function}
    (h : ∀ a ∈ f.annotations, ∀ name ∈ a.names, F.Named name) :
    Signed F f.params f.returnType := by
  obtain ⟨hparams, hresult⟩ := List.forall_mem_append.1 h
  exact ⟨fun p hp a ha => hparams a (List.mem_filterMap.2 ⟨p, hp, ha⟩),
    fun a ha => hresult a (Option.mem_toList.2 ha)⟩

theorem builds_paramTypes {params : List Param}
    (h : ∀ p ∈ params, ∀ a ∈ p.typeExpr, ∀ name ∈ a.names, F.Named name) :
    Builds F (fun types => ∀ t ∈ types, F.Has t) (paramTypes params) := by
  induction params with
  | nil => exact builds_pure (List.forall_mem_nil _)
  | cons p rest ih =>
      obtain ⟨hp, hrest⟩ := List.forall_mem_cons.1 h
      exact (builds_resolve? hp).bind fun _ h => (ih hrest).bind fun _ hrest =>
        builds_pure (List.forall_mem_cons.2 ⟨has_getD h, hrest⟩)

theorem builds_signature {f : Function} (h : F.Part (.function f)) :
    Builds F F.Has (signature f) := by
  obtain ⟨hparams, hresult⟩ := signed_of_annotations (spelled_function.1 h).1
  exact (builds_paramTypes hparams).bind fun _ hparams => (builds_resolve? hresult).bind
    fun _ hresult => builds_pure (F.function _ hparams (has_getD hresult))

theorem keepsTo_defineAll (params : List Param) {types : List Ty} (h : ∀ t ∈ types, F.Has t) :
    KeepsTo F (defineAll params types) := by
  induction params generalizing types with
  | nil => exact builds_pure trivial
  | cons p rest ih =>
      cases types with
      | nil => exact builds_pure trivial
      | cons type types =>
          obtain ⟨htype, htypes⟩ := List.forall_mem_cons.1 h
          exact (keepsTo_define p.name htype).bind fun _ _ => ih htypes

theorem has_resultType {declared : Option Ty} {seen : List Ty}
    (hdeclared : ∀ t ∈ declared, F.Has t) (hseen : ∀ t ∈ seen, F.Has t) :
    F.Has (resultType declared seen) := by
  unfold resultType
  cases declared with
  | some t => exact hdeclared t rfl
  | none =>
      rw [Option.getD_none]
      split
      · exact F.primitive _
      · exact F.unionOf hseen

theorem builds_functionType {name : String} {params : List Param} {returnType : Option TypeExpr}
    {isAsync : Bool} {body : Check Unit} (h : Signed F params returnType)
    (hbody : KeepsTo F body) :
    Builds F F.Has (functionType name params returnType isAsync body) := by
  unfold functionType
  refine (builds_paramTypes h.1).bind fun types htypes =>
    (builds_resolve? h.2).bind fun declared hdeclared => ?_
  have hfunction {result : Ty} (hresult : F.Has result) :
      F.Has (.function types result isAsync) :=
    F.function _ htypes hresult
  refine (keepsTo_define name (hfunction (has_getD hdeclared))).bind fun _ _ => ?_
  refine (builds_inScope ((keepsTo_defineAll params htypes).bind fun _ _ =>
    builds_collectReturns hdeclared hbody)).bind fun seen hseen => ?_
  have htype := hfunction (has_resultType hdeclared hseen)
  exact (keepsTo_define name htype).bind fun _ _ => builds_pure htype

theorem keepsTo_importNames (names : List String) : KeepsTo F (importNames names) := by
  induction names with
  | nil => exact builds_pure trivial
  | cons name rest ih => exact (keepsTo_define name F.any).bind fun _ _ => ih

theorem keepsTo_importDecl (item : Import) : KeepsTo F (importDecl item) :=
  keepsTo_importNames _

theorem keepsTo_declareFunction {f : Function} (h : F.Part (.function f)) :
    KeepsTo F (declareFunction f) :=
  (builds_signature h).bind fun _ h => keepsTo_define f.name h

theorem keepsTo_declareMethods {ss : List Stmt} (h : ∀ s ∈ ss, F.Part (.stmt s)) :
    KeepsTo F (declareMethods ss) := by
  fun_induction declareMethods ss with
  | case1 => exact builds_pure trivial
  | case2 span f rest ih =>
      obtain ⟨hf, hrest⟩ := List.forall_mem_cons.1 h
      exact (builds_signature (spelled_functionDecl.1 hf)).bind fun _ h =>
        (keepsTo_define f.name h).bind fun _ _ => ih hrest
  | case3 s rest _ ih => exact ih (List.forall_mem_cons.1 h).2

/-- The state of a component has the types that its scope gives it. -/
theorem keepsTo_summarize (name : String) (state : List String) {methods : List TypedName}
    (h : Each F.Has methods) : KeepsTo F (summarize name state methods) := by
  refine keepsTo_modify fun c hc => { hc with summaries := ?_ }
  refine List.forall_mem_append.2 ⟨hc.summaries, List.forall_mem_singleton.2 ⟨?_, h⟩⟩
  intro n hn
  obtain ⟨x, -, hx⟩ := List.mem_filterMap.1 hn
  obtain ⟨type, hlookup, rfl⟩ := Option.map_eq_some_iff.1 hx
  exact hc.scopes.lookup? hlookup

/-! ## Statements -/

mutual

theorem keepsTo_stmt : ∀ s : Stmt, F.Part (.stmt s) → KeepsTo F (stmt s)
  | .expression span e, h => by
    rw [Check.stmt]
    exact (builds_expr e (spelled_expression.1 h)).bind fun _ _ => builds_pure trivial
  | .block b, h => by
    rw [Check.stmt]
    exact keepsTo_block b (spelled_blockStmt.1 h)
  | .variableDecl span decl, h => by
    obtain ⟨htype, hinit⟩ := spelled_variableDecl.1 h
    rw [Check.stmt]
    exact keepsTo_variableDecl htype hinit
  | .assignment span target op value, h => by
    obtain ⟨htarget, hvalue⟩ := spelled_assignment.1 h
    rw [Check.stmt]
    exact keepsTo_assignment op htarget hvalue
  | .ifElse span test consequent alternate, h => by
    obtain ⟨htest, hconsequent, halternate⟩ := spelled_ifElse.1 h
    rw [Check.stmt]
    exact (builds_expr test htest).bind fun _ _ => (keepsTo_block consequent hconsequent).bind
      fun _ _ => keepsTo_stmt? alternate halternate
  | .whileLoop span test body, h => by
    obtain ⟨htest, hbody⟩ := spelled_whileLoop.1 h
    rw [Check.stmt]
    exact (builds_expr test htest).bind fun _ _ => keepsTo_block body hbody
  | .forLoop span init test update body, h => by
    obtain ⟨hinit, htest, hupdate, hbody⟩ := spelled_forLoop.1 h
    rw [Check.stmt]
    exact builds_inScope ((keepsTo_stmt? init hinit).bind fun _ _ => (keepsTo_expr? htest).bind
      fun _ _ => (keepsTo_stmt? update hupdate).bind fun _ _ => keepsTo_block body hbody)
  | .forIn span name iterable body, h => by
    obtain ⟨hiterable, hbody⟩ := spelled_forIn.1 h
    rw [Check.stmt]
    exact (builds_expr iterable hiterable).bind fun _ h => builds_inScope
      ((keepsTo_define name (F.ofElement h)).bind fun _ _ => keepsTo_block body hbody)
  | .returnStmt span none, _ => by
    rw [Check.stmt]
    exact keepsTo_noteReturn (F.primitive _) span
  | .returnStmt span (some e), h => by
    rw [Check.stmt]
    exact (builds_expr e (spelled_returnStmt.1 h e rfl)).bind fun _ h => keepsTo_noteReturn h _
  | .breakStmt span, _ | .continueStmt span, _ | .error span message, _ => by
    rw [Check.stmt]
    exact builds_pure trivial
  | .tryStmt span b handler cleanup, h => by
    obtain ⟨hblock, hhandler, hcleanup⟩ := spelled_tryStmt.1 h
    rw [Check.stmt]
    exact (keepsTo_block b hblock).bind fun _ _ => (keepsTo_handler? handler hhandler).bind fun _ _ =>
      keepsTo_block? cleanup hcleanup
  | .asyncBlock span b handler cleanup, h => by
    obtain ⟨hblock, hhandler, hcleanup⟩ := spelled_asyncBlock.1 h
    rw [Check.stmt]
    exact (keepsTo_block b hblock).bind fun _ _ => (keepsTo_handler? handler hhandler).bind fun _ _ =>
      keepsTo_block? cleanup hcleanup
  | .throwStmt span value, h => by
    rw [Check.stmt]
    exact (builds_expr value (spelled_throwStmt.1 h)).bind fun _ _ => builds_pure trivial
  | .functionDecl span f, h => by
    rw [Check.stmt]
    exact (builds_function f (spelled_functionDecl.1 h)).bind fun _ _ => builds_pure trivial
  | .importDecl span item, _ => by
    rw [Check.stmt]
    exact keepsTo_importDecl item
  | .exportDecl span item, h => by
    rw [Check.stmt]
    exact keepsTo_exportDecl item (spelled_exportStmt.1 h)

theorem keepsTo_stmt? : ∀ s : Option Stmt, (∀ inner ∈ s, F.Part (.stmt inner)) →
    KeepsTo F (stmt? s)
  | none, _ => builds_pure trivial
  | some s, h => keepsTo_stmt s (h s rfl)

theorem keepsTo_stmts : ∀ ss : List Stmt, (∀ s ∈ ss, F.Part (.stmt s)) →
    KeepsTo F (stmts ss)
  | [], _ => builds_pure trivial
  | s :: rest, h => by
    obtain ⟨hs, hrest⟩ := List.forall_mem_cons.1 h
    rw [Check.stmts]
    exact (keepsTo_stmt s hs).bind fun _ _ => keepsTo_stmts rest hrest

theorem keepsTo_block : ∀ b : Block, F.Part (.block b) → KeepsTo F (block b)
  | ⟨statements, span⟩, h => by
    rw [Check.block]
    exact builds_inScope (keepsTo_stmts statements (spelled_block.1 h))

theorem keepsTo_block? : ∀ b : Option Block, (∀ inner ∈ b, F.Part (.block inner)) →
    KeepsTo F (block? b)
  | none, _ => builds_pure trivial
  | some b, h => keepsTo_block b (h b rfl)

theorem keepsTo_handler? : ∀ handler : Option CatchClause,
    (∀ clause ∈ handler, F.Part (.block clause.body)) → KeepsTo F (handler? handler)
  | none, _ => builds_pure trivial
  | some ⟨param, body⟩, h => by
    rw [Check.handler?]
    exact builds_inScope ((keepsTo_importNames _).bind fun _ _ => keepsTo_block body (h _ rfl))

theorem builds_function : ∀ f : Function, F.Part (.function f) →
    Builds F F.Has (function f)
  | ⟨name, params, returnType, ⟨statements, blockSpan⟩, isAsync, modifiers, span⟩, h => by
    obtain ⟨htypes, hbody⟩ := spelled_function.1 h
    rw [Check.function]
    exact builds_functionType (signed_of_annotations htypes)
      (keepsTo_stmts statements (spelled_block.1 hbody))

theorem keepsTo_members : ∀ ss : List Stmt, (∀ s ∈ ss, F.Part (.stmt s)) →
    KeepsTo F (members ss)
  | [], _ => builds_pure trivial
  | s :: rest, h => by
    obtain ⟨hstmt, hothers⟩ := List.forall_mem_cons.1 h
    have hrest := keepsTo_members rest hothers
    have hs := keepsTo_stmt s hstmt
    unfold Check.members
    split
    · exact hrest
    next span decl =>
      obtain ⟨htype, hinit⟩ := spelled_variableDecl.1 hstmt
      exact (keepsTo_variableDecl htype hinit).bind fun _ _ => hrest.bind fun _ _ =>
        builds_pure trivial
    next span node name value =>
      have hvalue := (spelled_assignment.1 hstmt).2
      refine builds_get_bind fun c _ => ?_
      split
      · exact hs.bind fun _ _ => hrest
      · exact (builds_expr value hvalue).bind fun type h => (keepsTo_record node.id h).bind
          fun _ _ => (keepsTo_define name h).bind fun _ _ => hrest.bind fun _ _ =>
            builds_pure trivial
    next => exact hs.bind fun _ _ => hrest

theorem builds_methods : ∀ ss : List Stmt, (∀ s ∈ ss, F.Part (.stmt s)) →
    Builds F (Each F.Has) (methods ss)
  | [], _ => builds_pure (List.forall_mem_nil _)
  | s :: rest, h => by
    obtain ⟨hs, hrest⟩ := List.forall_mem_cons.1 h
    cases s with
    | functionDecl span f =>
        rw [Check.methods]
        exact (builds_function f (spelled_functionDecl.1 hs)).bind fun _ h =>
          (builds_methods rest hrest).bind fun _ hmethods =>
            builds_pure (List.forall_mem_cons.2 ⟨h, hmethods⟩)
    | _ => exact builds_methods rest hrest

theorem keepsTo_component : ∀ k : Component, F.Part (.component k) →
    KeepsTo F (component k)
  | ⟨name, modifiers, statements, body, span⟩, h => by
    obtain ⟨-, hstatements, hbody⟩ := spelled_component.1 h
    rw [Check.component]
    exact builds_inScope ((keepsTo_declareMethods hstatements).bind fun _ _ =>
      (keepsTo_members statements hstatements).bind fun state _ =>
        (builds_methods statements hstatements).bind fun methods hmethods =>
          (keepsTo_markups body hbody).bind fun _ _ => keepsTo_summarize name state hmethods)

theorem keepsTo_exportDecl : ∀ e : Export, F.Part (.exportDecl e) →
    KeepsTo F (exportDecl e)
  | ⟨isDefault, .function f, span⟩, h => by
    rw [Check.exportDecl]
    exact (builds_function f (spelled_exportDecl.1 h)).bind fun _ _ => builds_pure trivial
  | ⟨isDefault, .component k, span⟩, h => by
    rw [Check.exportDecl]
    exact keepsTo_component k (spelled_exportDecl.1 h)
  | ⟨isDefault, .statement s, span⟩, h => by
    rw [Check.exportDecl]
    exact keepsTo_stmt s (spelled_exportDecl.1 h)

end

/-! ## Programs -/

theorem keepsTo_declareVariable (s : Stmt) : KeepsTo F (declareVariable s) := by
  unfold declareVariable
  split
  · exact keepsTo_define _ F.unknown
  · exact builds_pure trivial

section Program

variable {p : Program} (h : F.Part (.program p))

include h

theorem spelled_of_mem_allComponents : ∀ k ∈ p.allComponents, F.Part (.component k) := by
  obtain ⟨hexports, -, hcomponents, -⟩ := spelled_program.1 h
  refine List.forall_mem_append.2 ⟨hcomponents, fun k hk => ?_⟩
  obtain ⟨⟨isDefault, item, span⟩, he, hitem⟩ := List.mem_filterMap.1 hk
  cases item with
  | component k' =>
      obtain rfl := Option.some.inj hitem
      exact spelled_exportDecl.1 (hexports _ he)
  | _ => cases hitem

theorem spelled_of_mem_allFunctions : ∀ f ∈ p.allFunctions, F.Part (.function f) := by
  obtain ⟨hexports, hfunctions, -, -⟩ := spelled_program.1 h
  refine List.forall_mem_append.2 ⟨hfunctions, fun f hf => ?_⟩
  obtain ⟨⟨isDefault, item, span⟩, he, hitem⟩ := List.mem_filterMap.1 hf
  cases item with
  | function f' =>
      obtain rfl := Option.some.inj hitem
      exact spelled_exportDecl.1 (hexports _ he)
  | _ => cases hitem

theorem keepsTo_declare : KeepsTo F (declare p) := by
  unfold declare
  refine (keepsTo_each fun item _ => keepsTo_importDecl item).bind fun _ _ => ?_
  refine (keepsTo_each fun k hk => ?_).bind fun _ _ => ?_
  · exact keepsTo_declareComponent (spelled_component.1 (spelled_of_mem_allComponents h k hk)).1
  refine (keepsTo_each fun f hf => ?_).bind fun _ _ => ?_
  · exact keepsTo_declareFunction (spelled_of_mem_allFunctions h f hf)
  exact keepsTo_each fun s _ => keepsTo_declareVariable s

theorem keepsTo_program : KeepsTo F (program p) := by
  obtain ⟨hexports, hfunctions, hcomponents, hstatements⟩ := spelled_program.1 h
  unfold program
  refine (keepsTo_declare h).bind fun _ _ => ?_
  refine (keepsTo_each fun f hf => ?_).bind fun _ _ => ?_
  · exact (builds_function f (hfunctions f hf)).bind fun _ _ => builds_pure trivial
  refine (keepsTo_each fun s hs => keepsTo_stmt s (hstatements s hs)).bind fun _ _ => ?_
  refine (keepsTo_each fun e he => keepsTo_exportDecl e (hexports e he)).bind fun _ _ => ?_
  exact keepsTo_each fun k hk => keepsTo_component k (hcomponents k hk)

end Program

end Check

/-- With names and keys from a family in the program, and types of it for the values from outside,
every type that is noted for an expression is of the family, and so are those of the state and of the
methods of every component. What is reported is told with names and types of the family. -/
theorem check_in {p : Program} {external : List TypedName} (hprogram : F.Part (.program p))
    (hexternal : Each F.Has external) (hprelude : ∀ name ∈ Prelude.fieldNames, F.Named name) :
    (∀ id type, (p.check external).types.get? id = some type → F.Has type) ∧
      (∀ summary ∈ (p.check external).components, summary.In F) ∧
      ∀ d ∈ (p.check external).diagnostics,
        ∃ fault : TypeFault, fault.In F ∧ d.message = fault.message := by
  have hstart : (Checking.start external).In F :=
    { scopes := F.each_install hprelude
      external := hexternal
      returns := List.forall_mem_nil _
      types := List.forall_mem_nil _
      summaries := List.forall_mem_nil _
      reported := List.forall_mem_nil _ }
  have hafter := (Check.keepsTo_program hprogram (.start external) hstart).2
  refine ⟨?_, hafter.summaries, ?_⟩
  · intro id type hfound
    exact hafter.types _ (TypeTable.mem_of_get? hfound)
  · intro d hd
    exact hafter.reported d (List.mem_reverse.1 hd)

end ComponentLang
