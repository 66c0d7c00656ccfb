import ComponentLang.Proofs.Typing.Effects.Program
import ComponentLang.Proofs.Typing.Twins.Expression

/-!
# Programs side by side

A program in which less is said is checked beside the program itself. Both runs go through the same
statements, and a walk of the one tree says what stands at the same place of the other. In the end
nothing is reported of the second if nothing was of the first, unless the runs are spoiled.
-/
namespace ComponentLang

theorem Ty.tame_getD {a a' : Option Ty} (h : Option.Rel Ty.Tame a a') (t : Ty) :
    (a.getD t).Tame (a'.getD t) := by
  cases h with
  | none => exact .refl t
  | some h => exact h

theorem Ty.RelaxesTo.ofFunction {params params' : List Ty} {result result' : Ty} {isAsync : Bool}
    (hparams : List.Forall₂ Ty.Tame params params') (hresult : result.RelaxesTo result') :
    RelaxesTo (.function params result isAsync) (.function params' result' isAsync) := by
  obtain ⟨hlength, hpairs⟩ := List.forall₂_iff_zip.1 hparams
  exact .function hlength (fun _ hpair => (hpairs hpair).relaxes) hresult

/-- Without a union of arrays a loop goes over values of which no more is known. -/
theorem Ty.Noted.ofElement {t t' : Ty} (h : t.Noted t') :
    (Ty.ofElement t).RelaxesTo (Ty.ofElement t') := by
  refine relaxesTo_ofElement h.tame ?_
  rintro members rfl element rfl
  obtain ⟨e, he⟩ := h.relaxes.exists_array
  exact h.separate ⟨members, e, rfl, he⟩

namespace Check

variable {G : Prop}

/-! ## Variables -/

theorem twins_variableDecl {d d' : VariableDecl} (h : d.RelaxesTo d') :
    Twins G Eq (variableDecl d) (variableDecl d') := by
  obtain ⟨kind, name, typeExpr, init⟩ := d
  obtain ⟨typeExpr', rfl, h⟩ := h
  unfold variableDecl
  cases init with
  | none =>
      refine (twins_resolve? h).bind_option (twins_define name fun _ => .refl _) fun _ _ => ?_
      exact twins_define name fun g => g.2.relaxes
  | some e =>
      refine (twins_resolve? h).bind_option ?_ fun target target' => ?_
      · refine (twins_some (twins_expr e)).bind_option (twins_define name fun _ => .refl _) ?_
        exact fun _ _ => twins_define name fun g => g.2.relaxes
      · refine (twins_some (twins_expr e)).bind_option (twins_define name fun g => g.2.relaxes) ?_
        exact fun _ _ => (twins_expectStorable fun g => ⟨g.2.tame, g.1.2⟩).bind_eq fun _ =>
          twins_define name fun g => g.1.2.relaxes

theorem twins_assignmentTarget (target : Expr) :
    Twins G Ty.Noted (assignmentTarget target) (assignmentTarget target) := by
  unfold assignmentTarget
  split
  · exact (twins_variableType _ _).bind fun _ _ => twins_noted _ And.right
  · exact twins_expr target

theorem twins_assignedType (op : AssignOp) {target target' value value' : Ty} (span : Span)
    (h : G → target.Tame target' ∧ value.Tame value') :
    Twins G Ty.Tame (assignedType op target value span) (assignedType op target' value' span) := by
  unfold assignedType
  split
  · exact twins_pure fun g => (h g).2
  next op _ => exact twins_settle fun g => Ty.relaxesTo_ofBinary op (h g).1 (h g).2

theorem twins_adopt (target : Expr) {t t' : Ty} (h : G → t.RelaxesTo t') :
    Twins G Eq (adopt target t) (adopt target t') := by
  unfold adopt
  split
  · exact twins_ite (fun g => (h g).unknown_iff) (twins_pure fun _ => rfl) (twins_update _ h)
  · exact twins_pure fun _ => rfl

theorem twins_assignment (target : Expr) (op : AssignOp) (value : Expr) :
    Twins G Eq (assignment target op value) (assignment target op value) := by
  unfold assignment
  refine (twins_assignmentTarget target).bind fun _ _ => (twins_expr value).bind fun _ _ => ?_
  refine (twins_assignedType op _ fun g => ⟨g.1.2.tame, g.2.tame⟩).bind fun _ _ => ?_
  exact twins_ite (fun g => g.1.1.2.relaxes.unknown_iff) (twins_adopt target fun g => g.2.relaxes)
    (twins_expectStorable fun g => ⟨g.2, g.1.1.2.tame⟩)

/-! ## Functions -/

theorem twins_paramTypes {params params' : List Param}
    (h : List.Forall₂ Param.RelaxesTo params params') :
    Twins G (List.Forall₂ Ty.Tame) (paramTypes params) (paramTypes params') := by
  induction h generalizing G with
  | nil => exact twins_pure fun _ => .nil
  | cons hparam _ ih =>
      obtain ⟨typeExpr', rfl, hparam⟩ := hparam
      exact (twins_resolve? hparam).bind fun _ _ => ih.bind fun _ _ =>
        twins_pure fun g => .cons (Ty.tame_getD g.1.2 .any) g.2

theorem twins_signature {f f' : Function} (h : Relaxes.function f f') :
    Twins G Ty.RelaxesTo (signature f) (signature f') := by
  obtain ⟨name, params, returnType, ⟨statements, blockSpan⟩, isAsync, modifiers, span⟩ := f
  obtain ⟨params', returnType', statements', rfl, hparams, hreturn, -⟩ := h
  exact (twins_paramTypes hparams).bind fun _ _ => (twins_resolve? hreturn).bind fun _ _ =>
    twins_pure fun g => .ofFunction g.1.2 (Ty.tame_getD g.2 .any).relaxes

theorem along_defineAll {params params' : List Param} {types types' : List Ty}
    (hparams : List.Forall₂ Param.RelaxesTo params params')
    (htypes : List.Forall₂ Ty.Tame types types') :
    Twins True Eq (defineAll params types) (defineAll params' types') := by
  induction hparams generalizing types types' with
  | nil => exact twins_pure fun _ => rfl
  | cons hparam _ ih =>
      obtain ⟨typeExpr', rfl, -⟩ := hparam
      cases htypes with
      | nil => exact twins_pure fun _ => rfl
      | cons htype htypes =>
          exact (twins_define _ fun _ => htype.relaxes).bind_eq fun _ => ih htypes

theorem twins_defineAll {params params' : List Param} {types types' : List Ty}
    (hparams : List.Forall₂ Param.RelaxesTo params params')
    (htypes : G → List.Forall₂ Ty.Tame types types') :
    Twins G Eq (defineAll params types) (defineAll params' types') :=
  .mk (leaves_defineAll _ _).steady (leaves_defineAll _ _).steady
    fun g => (along_defineAll hparams (htypes g)).along trivial

theorem relaxesTo_resultType {declared declared' : Option Ty} {seen seen' : List Ty}
    (hdeclared : Option.Rel Ty.Tame declared declared')
    (hseen : List.Forall₂ Ty.RelaxesTo seen seen') :
    (resultType declared seen).RelaxesTo (resultType declared' seen') := by
  cases hdeclared with
  | some h => exact h.relaxes
  | none =>
      cases hseen with
      | nil => exact .refl _
      | cons h hrest => exact Ty.relaxesTo_unionOf (.cons h hrest)

theorem twins_functionType {name : String} {params params' : List Param}
    {returnType returnType' : Option TypeExpr} {isAsync : Bool} {body body' : Check Unit}
    (hparams : List.Forall₂ Param.RelaxesTo params params')
    (hreturn : Option.Rel TypeExpr.RelaxesTo returnType returnType')
    (hbody : ∀ {G : Prop}, Twins G Eq body body') :
    Twins G Ty.RelaxesTo (functionType name params returnType isAsync body)
      (functionType name params' returnType' isAsync body') := by
  unfold functionType
  refine (twins_paramTypes hparams).bind fun types types' =>
    (twins_resolve? hreturn).bind fun declared declared' => ?_
  have hdefine {G : Prop} {result result' : Ty}
      (h : G → List.Forall₂ Ty.Tame types types' ∧ result.RelaxesTo result') :
      Twins G Eq (define name (.function types result isAsync))
        (define name (.function types' result' isAsync)) :=
    twins_define name fun g => .ofFunction (h g).1 (h g).2
  refine (hdefine fun g => ⟨g.1.2, (Ty.tame_getD g.2 .any).relaxes⟩).bind_eq fun _ => ?_
  refine (twins_inScope ((twins_defineAll hparams fun g => g.1.2).bind_eq fun _ =>
    twins_collectReturns (fun g => g.2) hbody)).bind fun seen seen' => ?_
  exact (hdefine fun g => ⟨g.1.1.2, relaxesTo_resultType g.1.2 g.2⟩).bind_eq fun _ =>
    twins_pure fun g => .ofFunction g.1.1.2 (relaxesTo_resultType g.1.2 g.2)

theorem twins_importNames (names : List String) :
    Twins G Eq (importNames names) (importNames names) := by
  induction names with
  | nil => exact twins_pure fun _ => rfl
  | cons name rest ih => exact (twins_define name fun _ => .refl _).bind_eq fun _ => ih

theorem twins_importDecl (item : Import) : Twins G Eq (importDecl item) (importDecl item) :=
  twins_importNames _

theorem twins_summarize (name : String) (state : List String) (methods methods' : List TypedName) :
    Twins G Eq (summarize name state methods) (summarize name state methods') :=
  twins_modify (fun _ => ⟨rfl, rfl⟩) (fun _ => ⟨rfl, rfl⟩) fun _ _ _ hc => { hc with }

/-! ## Members of components -/

theorem relaxes_isMethod {s s' : Stmt} (h : Relaxes.stmt s s') : isMethod s' = isMethod s := by
  cases s <;> grind [Relaxes.stmt, isMethod]

theorem relaxes_isOrdinary {s s' : Stmt} (h : Relaxes.stmt s s') :
    isOrdinary s' = isOrdinary s := by
  cases s <;> grind [Relaxes.stmt, isOrdinary]

theorem relaxes_name {f f' : Function} (h : Relaxes.function f f') : f'.name = f.name := by
  obtain ⟨name, params, returnType, ⟨statements, blockSpan⟩, isAsync, modifiers, span⟩ := f
  obtain ⟨params', returnType', statements', rfl, -⟩ := h
  rfl

theorem twins_declareMethods : ∀ (ss : List Stmt) {ss' : List Stmt} {G : Prop},
    Relaxes.stmts ss ss' → Twins G Eq (declareMethods ss) (declareMethods ss')
  | [], _, _, h => by
    subst h
    exact twins_pure fun _ => rfl
  | s :: rest, _, _, h => by
    obtain ⟨s', rest', rfl, hs, hrest⟩ := h
    cases hmethod : isMethod s with
    | false =>
      have hmethod' := (relaxes_isMethod hs).trans hmethod
      simp only [declareMethods_of_not_method hmethod, declareMethods_of_not_method hmethod']
      exact twins_declareMethods rest hrest
    | true =>
      cases s with
      | functionDecl span f =>
        obtain ⟨f', rfl, hf⟩ := hs
        have hname := relaxes_name hf
        simp only [declareMethods, hname]
        exact (twins_signature hf).bind fun _ _ => (twins_define f.name And.right).bind_eq fun _ =>
          twins_declareMethods rest hrest
      | _ => cases hmethod

/-! ## Statements -/

mutual

theorem twins_stmt : ∀ (s : Stmt) {s' : Stmt} {G : Prop}, Relaxes.stmt s s' →
    Twins G Eq (stmt s) (stmt s')
  | .expression span e, _, _, h => by
    subst h
    simp only [Check.stmt]
    exact (twins_expr e).forget
  | .block b, _, _, h => by
    obtain ⟨b', rfl, hb⟩ := h
    simp only [Check.stmt]
    exact twins_block b hb
  | .variableDecl span decl, _, _, h => by
    obtain ⟨decl', rfl, hdecl⟩ := h
    simp only [Check.stmt]
    exact twins_variableDecl hdecl
  | .assignment span target op value, _, _, h => by
    subst h
    simp only [Check.stmt]
    exact twins_assignment target op value
  | .ifElse span test consequent alternate, _, _, h => by
    obtain ⟨consequent', alternate', rfl, hconsequent, halternate⟩ := h
    simp only [Check.stmt]
    exact (twins_expr test).bind fun _ _ => (twins_block consequent hconsequent).bind_eq fun _ =>
      twins_stmt? alternate halternate
  | .whileLoop span test body, _, _, h => by
    obtain ⟨body', rfl, hbody⟩ := h
    simp only [Check.stmt]
    exact (twins_expr test).bind fun _ _ => twins_block body hbody
  | .forLoop span init test update body, _, _, h => by
    obtain ⟨init', update', body', rfl, hinit, hupdate, hbody⟩ := h
    simp only [Check.stmt]
    exact twins_inScope ((twins_stmt? init hinit).bind_eq fun _ => (twins_expr? test).bind_eq
      fun _ => (twins_stmt? update hupdate).bind_eq fun _ => twins_block body hbody)
  | .forIn span name iterable body, _, _, h => by
    obtain ⟨body', rfl, hbody⟩ := h
    simp only [Check.stmt]
    exact (twins_expr iterable).bind fun _ _ => twins_inScope
      ((twins_define name fun g => g.2.ofElement).bind_eq fun _ => twins_block body hbody)
  | .returnStmt span none, _, _, h => by
    subst h
    simp only [Check.stmt]
    exact twins_noteReturn fun _ => .refl _
  | .returnStmt span (some e), _, _, h => by
    subst h
    simp only [Check.stmt]
    exact (twins_expr e).bind fun _ _ => twins_noteReturn fun g => g.2.tame
  | .breakStmt span, _, _, h | .continueStmt span, _, _, h | .error span message, _, _, h => by
    subst h
    simp only [Check.stmt]
    exact twins_pure fun _ => rfl
  | .tryStmt span b handler cleanup, _, _, h | .asyncBlock span b handler cleanup, _, _, h => by
    obtain ⟨b', handler', cleanup', rfl, hb, hhandler, hcleanup⟩ := h
    simp only [Check.stmt]
    exact (twins_block b hb).bind_eq fun _ => (twins_handler? handler hhandler).bind_eq fun _ =>
      twins_block? cleanup hcleanup
  | .throwStmt span value, _, _, h => by
    subst h
    simp only [Check.stmt]
    exact (twins_expr value).forget
  | .functionDecl span f, _, _, h => by
    obtain ⟨f', rfl, hf⟩ := h
    simp only [Check.stmt]
    exact (twins_function f hf).forget
  | .importDecl span item, _, _, h => by
    subst h
    simp only [Check.stmt]
    exact twins_importDecl item
  | .exportDecl span item, _, _, h => by
    obtain ⟨item', rfl, hitem⟩ := h
    simp only [Check.stmt]
    exact twins_exportDecl item hitem
termination_by structural s => s

theorem twins_stmt? : ∀ (s : Option Stmt) {s' : Option Stmt} {G : Prop}, Relaxes.stmt? s s' →
    Twins G Eq (stmt? s) (stmt? s')
  | none, _, _, h => by
    subst h
    exact twins_pure fun _ => rfl
  | some s, _, _, h => by
    obtain ⟨s', rfl, hs⟩ := h
    exact twins_stmt s hs
termination_by structural s => s

theorem twins_stmts : ∀ (ss : List Stmt) {ss' : List Stmt} {G : Prop}, Relaxes.stmts ss ss' →
    Twins G Eq (stmts ss) (stmts ss')
  | [], _, _, h => by
    subst h
    exact twins_pure fun _ => rfl
  | s :: rest, _, _, h => by
    obtain ⟨s', rest', rfl, hs, hrest⟩ := h
    simp only [Check.stmts]
    exact (twins_stmt s hs).bind_eq fun _ => twins_stmts rest hrest
termination_by structural ss => ss

theorem twins_block : ∀ (b : Block) {b' : Block} {G : Prop}, Relaxes.block b b' →
    Twins G Eq (block b) (block b')
  | ⟨statements, span⟩, _, _, h => by
    obtain ⟨statements', rfl, hstatements⟩ := h
    simp only [Check.block]
    exact twins_inScope (twins_stmts statements hstatements)
termination_by structural b => b

theorem twins_block? : ∀ (b : Option Block) {b' : Option Block} {G : Prop}, Relaxes.block? b b' →
    Twins G Eq (block? b) (block? b')
  | none, _, _, h => by
    subst h
    exact twins_pure fun _ => rfl
  | some b, _, _, h => by
    obtain ⟨b', rfl, hb⟩ := h
    exact twins_block b hb
termination_by structural b => b

theorem twins_handler? : ∀ (handler : Option CatchClause) {handler' : Option CatchClause}
    {G : Prop}, Relaxes.handler? handler handler' →
      Twins G Eq (handler? handler) (handler? handler')
  | none, _, _, h => by
    subst h
    exact twins_pure fun _ => rfl
  | some ⟨param, body⟩, _, _, h => by
    obtain ⟨body', rfl, hbody⟩ := h
    simp only [Check.handler?]
    exact twins_inScope ((twins_importNames _).bind_eq fun _ => twins_block body hbody)
termination_by structural handler => handler

theorem twins_function : ∀ (f : Function) {f' : Function} {G : Prop}, Relaxes.function f f' →
    Twins G Ty.RelaxesTo (function f) (function f')
  | ⟨name, params, returnType, ⟨statements, blockSpan⟩, isAsync, modifiers, span⟩, _, _, h => by
    obtain ⟨params', returnType', statements', rfl, hparams, hreturn, hstatements⟩ := h
    simp only [Check.function]
    exact twins_functionType hparams hreturn (twins_stmts statements hstatements)
termination_by structural f => f

theorem twins_members : ∀ (ss : List Stmt) {ss' : List Stmt} {G : Prop}, Relaxes.stmts ss ss' →
    Twins G Eq (members ss) (members ss')
  | [], _, _, h => by
    subst h
    exact twins_pure fun _ => rfl
  | s :: rest, _, _, h => by
    obtain ⟨s', rest', rfl, hs, hrest⟩ := h
    cases hordinary : isOrdinary s with
    | true =>
      have hordinary' := (relaxes_isOrdinary hs).trans hordinary
      simp only [members_of_ordinary hordinary, members_of_ordinary hordinary']
      exact (twins_stmt s hs).bind_eq fun _ => twins_members rest hrest
    | false =>
      cases s with
      | functionDecl span f =>
        obtain ⟨f', rfl, -⟩ := hs
        simp only [Check.members]
        exact twins_members rest hrest
      | variableDecl span decl =>
        obtain ⟨_, rfl, typeExpr', rfl, htype⟩ := hs
        simp only [Check.members]
        exact (twins_variableDecl ⟨typeExpr', rfl, htype⟩).bind_eq fun _ =>
          (twins_members rest hrest).bind_eq fun _ => twins_pure fun _ => rfl
      | assignment span target op value =>
        subst hs
        cases target with
        | identifier node name =>
          cases op with
          | assign =>
            simp only [Check.members, Check.stmt]
            -- Whether the name is new is the same in both runs, as they define the same names.
            refine twins_get_bind fun _ _ => twins_ite (fun g => ?_) ?_ ?_
            · rw [g.2.scopes.definesHere]
            · exact (twins_assignment _ _ value).bind_eq fun _ => twins_members rest hrest
            · exact (twins_expr value).bind fun _ _ =>
                (twins_record node.id fun g => g.2.relaxes).bind fun _ _ =>
                  (twins_define name fun g => g.2.relaxes).bind_eq fun _ =>
                    (twins_members rest hrest).bind_eq fun _ => twins_pure fun _ => rfl
          | _ => cases hordinary
        | _ => cases hordinary
      | _ => cases hordinary
termination_by structural ss => ss

theorem twins_methods : ∀ (ss : List Stmt) {ss' : List Stmt} {G : Prop}, Relaxes.stmts ss ss' →
    Twins G (fun _ _ => True) (methods ss) (methods ss')
  | [], _, _, h => by
    subst h
    exact twins_pure fun _ => trivial
  | s :: rest, _, _, h => by
    obtain ⟨s', rest', rfl, hs, hrest⟩ := h
    cases hmethod : isMethod s with
    | false =>
      have hmethod' := (relaxes_isMethod hs).trans hmethod
      simp only [methods_of_not_method hmethod, methods_of_not_method hmethod']
      exact twins_methods rest hrest
    | true =>
      cases s with
      | functionDecl span f =>
        obtain ⟨f', rfl, hf⟩ := hs
        simp only [Check.methods]
        exact (twins_function f hf).bind fun _ _ => (twins_methods rest hrest).bind fun _ _ =>
          twins_pure fun _ => trivial
      | _ => cases hmethod
termination_by structural ss => ss

theorem twins_component : ∀ (c : Component) {c' : Component} {G : Prop}, Relaxes.component c c' →
    Twins G Eq (component c) (component c')
  | ⟨name, modifiers, statements, body, span⟩, _, _, h => by
    obtain ⟨statements', rfl, hstatements⟩ := h
    simp only [Check.component]
    exact twins_inScope ((twins_declareMethods statements hstatements).bind_eq fun _ =>
      (twins_members statements hstatements).bind_eq fun state =>
        (twins_methods statements hstatements).bind fun _ _ => (twins_markups body).bind_eq fun _ =>
          twins_summarize name state _ _)
termination_by structural c => c

theorem twins_exportDecl : ∀ (e : Export) {e' : Export} {G : Prop}, Relaxes.exportDecl e e' →
    Twins G Eq (exportDecl e) (exportDecl e')
  | ⟨isDefault, .function f, span⟩, _, _, h => by
    obtain ⟨f', rfl, hf⟩ := h
    simp only [Check.exportDecl]
    exact (twins_function f hf).forget
  | ⟨isDefault, .component c, span⟩, _, _, h => by
    obtain ⟨c', rfl, hc⟩ := h
    simp only [Check.exportDecl]
    exact twins_component c hc
  | ⟨isDefault, .statement s, span⟩, _, _, h => by
    obtain ⟨s', rfl, hs⟩ := h
    simp only [Check.exportDecl]
    exact twins_stmt s hs
termination_by structural e => e

end

/-! ## Programs -/

theorem twins_each {α : Type} {rel : α → α → Prop} {check : α → Check Unit} {items items' : List α}
    (hitems : List.Forall₂ rel items items')
    (h : ∀ a a', rel a a' → Twins G Eq (check a) (check a')) :
    Twins G Eq (each check items) (each check items') := by
  induction hitems with
  | nil => exact twins_pure fun _ => rfl
  | cons ha _ ih => exact (h _ _ ha).bind_eq fun _ => ih

theorem relaxes_component? {e e' : Export} (h : Relaxes.exportDecl e e') :
    Option.Rel Relaxes.component e.item.component? e'.item.component? := by
  obtain ⟨isDefault, item, span⟩ := e
  cases item with
  | component c =>
      obtain ⟨c', rfl, hc⟩ := h
      exact .some hc
  | function f =>
      obtain ⟨f', rfl, -⟩ := h
      exact .none
  | statement s =>
      obtain ⟨s', rfl, -⟩ := h
      exact .none

theorem relaxes_function? {e e' : Export} (h : Relaxes.exportDecl e e') :
    Option.Rel Relaxes.function e.item.function? e'.item.function? := by
  obtain ⟨isDefault, item, span⟩ := e
  cases item with
  | function f =>
      obtain ⟨f', rfl, hf⟩ := h
      exact .some hf
  | component c =>
      obtain ⟨c', rfl, -⟩ := h
      exact .none
  | statement s =>
      obtain ⟨s', rfl, -⟩ := h
      exact .none

theorem declareVariable_eq {s s' : Stmt} (h : Relaxes.stmt s s') :
    declareVariable s' = declareVariable s := by
  cases s with
  | variableDecl span decl =>
      obtain ⟨_, rfl, typeExpr', rfl, -⟩ := h
      rfl
  | _ => grind [Relaxes.stmt, declareVariable]

theorem twins_declareVariable {s s' : Stmt} (h : Relaxes.stmt s s') :
    Twins G Eq (declareVariable s) (declareVariable s') := by
  rw [declareVariable_eq h]
  unfold declareVariable
  split
  · exact twins_define _ fun _ => .refl _
  · exact twins_pure fun _ => rfl

theorem twins_declare {p p' : Program} (h : p.RelaxesTo p') :
    Twins G Eq (declare p) (declare p') := by
  have hcomponent : Relator.LiftFun Relaxes.exportDecl (Option.Rel Relaxes.component)
      (fun e => e.item.component?) fun e => e.item.component? := fun _ _ => relaxes_component?
  have hfunction : Relator.LiftFun Relaxes.exportDecl (Option.Rel Relaxes.function)
      (fun e => e.item.function?) fun e => e.item.function? := fun _ _ => relaxes_function?
  have hcomponents : List.Forall₂ Relaxes.component p.allComponents p'.allComponents :=
    List.rel_append h.components (List.rel_filterMap hcomponent h.exports)
  have hfunctions : List.Forall₂ Relaxes.function p.allFunctions p'.allFunctions :=
    List.rel_append h.functions (List.rel_filterMap hfunction h.exports)
  have himports : List.Forall₂ Eq p.imports p'.imports := by
    rw [h.imports, List.forall₂_eq_eq_eq]
  unfold declare
  refine (twins_each himports ?_).bind_eq fun _ => (twins_each hcomponents ?_).bind_eq fun _ =>
    (twins_each hfunctions ?_).bind_eq fun _ => twins_each h.statements ?_
  · rintro item _ rfl
    exact twins_importDecl item
  · rintro ⟨name, modifiers, statements, body, span⟩ _ ⟨statements', rfl, -⟩
    exact twins_declareComponent name
  · intro f f' hf
    unfold declareFunction
    rw [relaxes_name hf]
    exact (twins_signature hf).bind fun _ _ => twins_define f.name And.right
  · exact fun _ _ => twins_declareVariable

theorem twins_program {p p' : Program} (h : p.RelaxesTo p') :
    Twins G Eq (program p) (program p') :=
  (twins_declare h).bind_eq fun _ =>
    (twins_each h.functions fun f _ hf => (twins_function f hf).forget).bind_eq fun _ =>
      (twins_each h.statements fun s _ hs => twins_stmt s hs).bind_eq fun _ =>
        (twins_each h.exports fun e _ he => twins_exportDecl e he).bind_eq fun _ =>
          twins_each h.components fun c _ hc => twins_component c hc

end Check

open Check

theorem Checking.relaxesTo_start {external external' : List TypedName}
    (h : List.Forall₂ TypedName.RelaxesTo external external') :
    (Checking.start external).RelaxesTo (.start external') where
  scopes := .refl _
  external := h
  components := rfl
  returns := .nil
  silent := rfl

/-- If nothing is reported of a program, then nothing is reported of it either when names for `any`
stand in place of some of its annotations and less is known of the values from outside. This is so
as long as none of the types that are found for the second program has a union with `any` in it, and
none of those that are found for the first is a union with an array in it. -/
theorem check_silent_of_relaxesTo {p p' : Program} {external external' : List TypedName}
    (hp : p.RelaxesTo p') (hexternal : List.Forall₂ TypedName.RelaxesTo external external')
    (hsilent : (p.check external).diagnostics = [])
    (hseparate : ∀ entry ∈ (p.check external).types.entries, ¬ entry.2.MixesArrays)
    (hclear : ∀ entry ∈ (p'.check external').types.entries, entry.2.Clear) :
    (p'.check external').diagnostics = [] := by
  have htwins : Twins True Eq (program p) (program p') := twins_program hp
  rcases htwins.along trivial _ _ (Checking.relaxesTo_start hexternal) with hspoiled | ⟨-, hafter⟩
  · rcases hspoiled with hne | ⟨entry, hentry, hmixes⟩ | ⟨entry, hentry, hblurred⟩
    · exact (hne (List.reverse_eq_nil_iff.1 hsilent)).elim
    · exact (hseparate entry hentry hmixes).elim
    · exact (hblurred (hclear entry hentry)).elim
  · exact List.reverse_eq_nil_iff.2 hafter.silent

/-- The program `let x: T = 1` with the name of a type `T`, and `let y = e` at a place. -/
def oneTyped (type : String) (span : Span) (e : Expr) : Program :=
  { Program.empty with
    statements :=
      [.variableDecl ⟨0, 14, 1, 1⟩ ⟨.letVar, "x", some (.named ⟨7, 10, 1, 8⟩ type),
        some (.literal ⟨0, ⟨13, 14, 1, 14⟩⟩ (.number "1" .int))⟩,
        .variableDecl span ⟨.letVar, "y", none, some e⟩] }

theorem relaxesTo_oneTyped (span : Span) (e : Expr) :
    (oneTyped "Int" span e).RelaxesTo (oneTyped "any" span e) where
  imports := rfl
  exports := .nil
  functions := .nil
  components := .nil
  statements := by
    have hplain : (TypeExpr.named ⟨7, 10, 1, 8⟩ "Int").Plain := by
      unfold TypeExpr.Plain
      decide
    exact .cons ⟨_, rfl, _, rfl, .some (.any hplain (by decide))⟩
      (.cons ⟨_, rfl, _, rfl, .none⟩ .nil)

/-- `-[x][0]` -/
def negatedItem : Expr :=
  .unary ⟨5, ⟨23, 30, 2, 9⟩⟩ .neg (.index ⟨4, ⟨24, 30, 2, 10⟩⟩
    (.array ⟨2, ⟨24, 27, 2, 10⟩⟩ [.identifier ⟨1, ⟨25, 26, 2, 11⟩⟩ "x"])
    (.literal ⟨3, ⟨28, 29, 2, 14⟩⟩ (.number "0" .int)))

/-- The value of a variable is put into an array, taken out and negated, with as much known of it as
before or with nothing known. -/
theorem check_silent_of_relaxesTo_negatedItem :
    (oneTyped "Int" ⟨15, 30, 2, 1⟩ negatedItem).RelaxesTo
        (oneTyped "any" ⟨15, 30, 2, 1⟩ negatedItem) ∧
      ((oneTyped "Int" ⟨15, 30, 2, 1⟩ negatedItem).check []).diagnostics = [] ∧
      ((oneTyped "any" ⟨15, 30, 2, 1⟩ negatedItem).check []).diagnostics = [] := by
  have hsilent : ((oneTyped "Int" ⟨15, 30, 2, 1⟩ negatedItem).check []).diagnostics = [] := by
    decide
  refine ⟨relaxesTo_oneTyped _ _, hsilent,
    check_silent_of_relaxesTo (relaxesTo_oneTyped _ _) .nil hsilent ?_ ?_⟩
  · have htypes : ((oneTyped "Int" ⟨15, 30, 2, 1⟩ negatedItem).check []).types.entries =
        [(5, .int), (4, .int), (3, .int), (2, .array .int), (1, .int), (0, .int)] := by decide
    rw [htypes]
    rintro entry hentry ⟨members, element, hunion, -⟩
    simp only [List.mem_cons, List.not_mem_nil, or_false] at hentry
    rcases hentry with rfl | rfl | rfl | rfl | rfl | rfl <;> cases hunion
  · have htypes : ((oneTyped "any" ⟨15, 30, 2, 1⟩ negatedItem).check []).types.entries =
        [(5, .any), (4, .any), (3, .int), (2, .array .any), (1, .any), (0, .int)] := by decide
    have harray : (Ty.array .any).Clear := by
      refine Ty.clear_of_children nofun fun child hchild => ?_
      cases List.mem_singleton.1 hchild
      exact Ty.clear_any
    have hint : Ty.int.Clear := Ty.clear_primitive _
    rw [htypes]
    simp only [List.forall_mem_cons]
    exact ⟨Ty.clear_any, Ty.clear_any, hint, harray, Ty.clear_any, hint, nofun⟩

/-- `-(true ? x : 2)` -/
def negatedChoice : Expr :=
  .unary ⟨5, ⟨23, 37, 2, 9⟩⟩ .neg (.conditional ⟨4, ⟨25, 37, 2, 11⟩⟩
    (.literal ⟨1, ⟨25, 29, 2, 11⟩⟩ (.bool true)) (.identifier ⟨2, ⟨32, 33, 2, 18⟩⟩ "x")
    (.literal ⟨3, ⟨36, 37, 2, 22⟩⟩ (.number "2" .int)))

/-- A union that has `any` in it is no number, though each of its members passes as one: less is
said of a variable, and more is reported. -/
theorem check_reports_negatedChoice :
    (oneTyped "Int" ⟨15, 38, 2, 1⟩ negatedChoice).RelaxesTo
        (oneTyped "any" ⟨15, 38, 2, 1⟩ negatedChoice) ∧
      ((oneTyped "Int" ⟨15, 38, 2, 1⟩ negatedChoice).check []).diagnostics = [] ∧
      ((oneTyped "any" ⟨15, 38, 2, 1⟩ negatedChoice).check []).diagnostics =
        [.ofSpan .type (TypeFault.notNumeric .neg (.union [.any, .int])).message
          ⟨23, 37, 2, 9⟩] ∧
      (Analysis.ofSource? {} [] (.ofString "let x: any = 1\nlet y = -(true ? x : 2)")).map
          Analysis.diagnostics =
        some [.ofSpan .type (TypeFault.notNumeric .neg (.union [.any, .int])).message
          ⟨23, 37, 2, 9⟩] :=
  ⟨relaxesTo_oneTyped _ _, by decide, by decide, by decide +kernel⟩

end ComponentLang
