import ComponentLang.Proofs.Typing.Effects.Program
import ComponentLang.Proofs.Typing.Settled

/-!
# Names that a part of a program gives types to

`part.binders` are the names that the part itself defines, and `part.Free x` says that neither the
part nor anything in it defines `x`. Checking such a part preserves `x`, whatever is assigned to it.
-/
namespace ComponentLang

/-- The name that a member of a component gives to a new piece of its state, if it does: a plain
assignment to a variable. -/
def Stmt.stateName? : Stmt → Option String
  | .assignment _ (.identifier _ name) .assign _ => some name
  | _ => none

def Stmt.binders : Stmt → List String
  | .variableDecl _ decl => [decl.name]
  | .forIn _ name _ _ => [name]
  | .tryStmt _ _ handler _ | .asyncBlock _ _ handler _ =>
    handler.toList.flatMap fun clause => clause.param.toList
  | _ => []

namespace TreePart

/-- The names that checking a part defines, but for those that what is in it defines. -/
def binders : TreePart → List String
  | .program p =>
    p.allComponents.map Component.name ++ (p.allFunctions.map Function.name ++
      p.statements.flatMap Stmt.binders)
  | .stmt s => s.binders
  | .function f => f.name :: f.params.map Param.name
  | .component c => c.statements.filterMap Stmt.stateName?
  | .importDecl item => item.names ++ item.default.toList
  | _ => []

/-- Nothing in the part defines `x`. -/
def Free (x : String) (part : TreePart) : Prop := ∀ inner ∈ part.walk, x ∉ inner.binders

instance (x : String) (part : TreePart) : Decidable (part.Free x) :=
  inferInstanceAs (Decidable (∀ inner ∈ part.walk, x ∉ inner.binders))

variable {x : String} {part inner : TreePart}

theorem Free.self (h : part.Free x) : x ∉ part.binders := h part part.self_mem_walk

theorem Free.child (h : part.Free x) (hinner : inner ∈ part.children) : inner.Free x :=
  fun deep hdeep => h deep (mem_walk.2 (.inr ⟨inner, hinner, hdeep⟩))

theorem Free.within (h : part.Free x) (hinner : inner.Within part) :
    inner.Free x := by
  induction hinner with
  | refl => exact h
  | tail _ hchild ih => exact ih.child hchild

theorem Free.handler {s : Stmt} (h : (stmt s).Free x) (span : Span) (b : Block)
    (handler : Option CatchClause) (cleanup : Option Block)
    (hs : s = .tryStmt span b handler cleanup ∨ s = .asyncBlock span b handler cleanup) :
    ∀ clause ∈ handler, x ∉ clause.param.toList ∧ (block clause.body).Free x := by
  rintro clause ⟨⟩
  rcases hs with rfl | rfl
  all_goals
    constructor
    · intro hparam
      exact h.self (by simpa [binders, Stmt.binders] using hparam)
    · exact h.child (by simp [children, Stmt.children])

end TreePart

namespace Check

variable {x : String}

/-! ## Functions and members -/

theorem preserves_defineAll {params : List Param} (h : x ∉ params.map Param.name)
    (types : List Ty) : Preserves x (defineAll params types) := by
  induction params generalizing types with
  | nil => exact preserves_pure ()
  | cons param rest ih =>
      rw [List.map_cons, List.mem_cons, not_or] at h
      cases types with
      | nil => exact preserves_pure ()
      | cons type types =>
          exact (preserves_define (Ne.symm h.1) type).bind fun _ => ih h.2 types

theorem preserves_functionType {name : String} {params : List Param}
    {returnType : Option TypeExpr} {isAsync : Bool} {body : Check Unit} (hname : name ≠ x)
    (hparams : x ∉ params.map Param.name) (h : Preserves x body) :
    Preserves x (functionType name params returnType isAsync body) := by
  unfold functionType
  refine (fixes_paramTypes params).then fun types =>
    (fixes_resolve? returnType).then fun declared =>
      (preserves_define hname _).bind fun _ => ?_
  have hbody : Preserves x (inScope do
      defineAll params types
      collectReturns declared body) :=
    preserves_inScope ((preserves_defineAll hparams types).bind fun _ =>
      preserves_collectReturns h)
  exact hbody.bind fun seen => (preserves_define hname _).before fun _ => fixes_pure _

theorem preserves_importNames {names : List String} (h : x ∉ names) :
    Preserves x (importNames names) := by
  induction names with
  | nil => exact preserves_pure ()
  | cons name rest ih =>
      rw [List.mem_cons, not_or] at h
      exact (preserves_define (Ne.symm h.1) .any).bind fun _ => ih h.2

theorem preserves_importDecl {item : Import} (h : (TreePart.importDecl item).Free x) :
    Preserves x (importDecl item) :=
  preserves_importNames h.self

/-- The methods of a component are defined before its members are checked. -/
theorem preserves_declareMethods {ss : List Stmt} (h : ∀ s ∈ ss, (TreePart.stmt s).Free x) :
    Preserves x (declareMethods ss) := by
  fun_induction declareMethods ss with
  | case1 => exact preserves_pure ()
  | case2 span f rest ih =>
      rw [List.forall_mem_cons] at h
      have hf : (TreePart.function f).Free x := h.1.child List.mem_cons_self
      have hname : f.name ≠ x := fun heq => hf.self (heq ▸ List.mem_cons_self)
      exact (fixes_signature f).then fun type =>
        (preserves_define hname type).bind fun _ => ih h.2
  | case3 s rest _ ih =>
      rw [List.forall_mem_cons] at h
      exact ih h.2

/-! ## Variables -/

theorem preserves_variableDecl {decl : VariableDecl} (h : decl.name ≠ x) :
    Preserves x (variableDecl decl) := by
  obtain ⟨kind, name, typeExpr, init⟩ := decl
  unfold variableDecl
  refine (fixes_resolve? typeExpr).then fun annotated => ?_
  cases init with
  | none =>
      refine (fixes_pure none).then fun init => ?_
      dsimp only
      split
      · next heq => cases heq
      · exact preserves_define h _
  | some e =>
      refine (fixes_map (fixes_expr e)).then fun init => ?_
      dsimp only
      split
      · exact (fixes_expectStorable _ _ _).then fun _ => preserves_define h _
      · exact preserves_define h _

theorem assignmentTarget_of_some {node : Node} {name : String} {c : Checking} {type : Ty}
    (h : c.scopes.lookup? name = some type) :
    (assignmentTarget (.identifier node name)).run c =
      (type, { c with types := c.types.insert node.id type }) := by
  simp [assignmentTarget, variableType, lookup?, record, h]
  rfl

/-- Only a variable of no known type takes the type that is stored in it. -/
theorem preserves_assignment (target : Expr) (op : AssignOp) (value : Expr) :
    Preserves x (assignment target op value) := by
  intro c hc
  have hrest : ∀ targetType, (∀ stored, targetType = .unknown → Preserves x (adopt target stored)) →
      Preserves x (do
        let valueType ← expr value
        let stored ← assignedType op targetType valueType value.span
        if targetType = .unknown then adopt target stored
        else expectStorable stored targetType value.span) := by
    intro targetType hadopt
    refine (fixes_expr value).then fun valueType =>
      (fixes_assignedType op targetType valueType _).then fun stored => ?_
    split
    next hunknown => exact hadopt stored hunknown
    next => exact (fixes_expectStorable _ _ _).preserves
  have htarget := (fixes_assignmentTarget target).preserves (x := x)
  refine (hrest ((assignmentTarget target).run c).1 ?_ _ (htarget.settled hc)).trans
    (htarget c hc)
  intro stored hunknown
  unfold adopt
  split
  next node name =>
    split
    · exact preserves_pure ()
    · -- The type of `x` itself is known, so that it is another name.
      refine preserves_update ?_ _
      rintro rfl
      obtain ⟨type, htype, hknown⟩ := hc
      rw [assignmentTarget_of_some htype] at hunknown
      exact hknown hunknown
  next => exact preserves_pure ()

/-! ## Statements -/

mutual

theorem preserves_stmt : ∀ s : Stmt, (TreePart.stmt s).Free x → Preserves x (stmt s)
  | .expression span e, _ => by
    rw [Check.stmt]
    exact ((fixes_expr e).bind fun _ => fixes_pure ()).preserves
  | .block b, h => by
    rw [Check.stmt]
    exact preserves_block b (h.child List.mem_cons_self)
  | .variableDecl span decl, h => by
    rw [Check.stmt]
    exact preserves_variableDecl fun heq => h.self (heq ▸ List.mem_cons_self)
  | .assignment span target op value, _ => by
    rw [Check.stmt]
    exact preserves_assignment target op value
  | .ifElse span test consequent alternate, h => by
    rw [Check.stmt]
    have hconsequent : (TreePart.block consequent).Free x :=
      h.child (by simp [TreePart.children, Stmt.children])
    have halternate : ∀ s ∈ alternate, (TreePart.stmt s).Free x :=
      fun s hs => h.child (by simp [TreePart.children, Stmt.children, Option.mem_def.1 hs])
    exact (fixes_expr test).then fun _ => (preserves_block consequent hconsequent).bind
      fun _ => preserves_stmt? alternate halternate
  | .whileLoop span test body, h => by
    rw [Check.stmt]
    have hbody : (TreePart.block body).Free x :=
      h.child (by simp [TreePart.children, Stmt.children])
    exact (fixes_expr test).then fun _ => preserves_block body hbody
  | .forLoop span init test update body, h => by
    rw [Check.stmt]
    have hinit : ∀ s ∈ init, (TreePart.stmt s).Free x :=
      fun s hs => h.child (by simp [TreePart.children, Stmt.children, Option.mem_def.1 hs])
    have hupdate : ∀ s ∈ update, (TreePart.stmt s).Free x :=
      fun s hs => h.child (by simp [TreePart.children, Stmt.children, Option.mem_def.1 hs])
    have hbody : (TreePart.block body).Free x :=
      h.child (by simp [TreePart.children, Stmt.children])
    exact preserves_inScope ((preserves_stmt? init hinit).bind fun _ =>
      (fixes_expr? test).then fun _ => (preserves_stmt? update hupdate).bind fun _ =>
        preserves_block body hbody)
  | .forIn span name iterable body, h => by
    rw [Check.stmt]
    have hname : name ≠ x := fun heq => h.self (heq ▸ List.mem_cons_self)
    have hbody : (TreePart.block body).Free x :=
      h.child (by simp [TreePart.children, Stmt.children])
    exact (fixes_expr iterable).then fun type => preserves_inScope
      ((preserves_define hname _).bind fun _ => preserves_block body hbody)
  | .returnStmt span none, _ => by
    rw [Check.stmt]
    exact (leavesScopes_noteReturn _ _).preserves
  | .returnStmt span (some e), _ => by
    rw [Check.stmt]
    exact ((fixes_expr e).bind fun type => leavesScopes_noteReturn type _).preserves
  | .breakStmt span, _ | .continueStmt span, _ | .error span message, _ => by
    rw [Check.stmt]
    exact preserves_pure ()
  | .tryStmt span b handler cleanup, h | .asyncBlock span b handler cleanup, h => by
    rw [Check.stmt]
    have hb : (TreePart.block b).Free x := h.child List.mem_cons_self
    have hhandler := h.handler span b handler cleanup (by simp)
    have hcleanup : ∀ b ∈ cleanup, (TreePart.block b).Free x :=
      fun b hb => h.child (by simp [TreePart.children, Stmt.children, Option.mem_def.1 hb])
    exact (preserves_block b hb).bind fun _ => (preserves_handler? handler hhandler).bind fun _ =>
      preserves_block? cleanup hcleanup
  | .throwStmt span value, _ => by
    rw [Check.stmt]
    exact ((fixes_expr value).bind fun _ => fixes_pure ()).preserves
  | .functionDecl span f, h => by
    rw [Check.stmt]
    exact (preserves_function f (h.child List.mem_cons_self)).before fun _ => fixes_pure ()
  | .importDecl span item, h => by
    rw [Check.stmt]
    exact preserves_importDecl (h.child List.mem_cons_self)
  | .exportDecl span item, h => by
    rw [Check.stmt]
    exact preserves_exportDecl item (h.child List.mem_cons_self)

theorem preserves_stmt? : ∀ s : Option Stmt, (∀ s' ∈ s, (TreePart.stmt s').Free x) →
    Preserves x (stmt? s)
  | none, _ => preserves_pure ()
  | some s, h => preserves_stmt s (h s rfl)

theorem preserves_stmts : ∀ ss : List Stmt, (∀ s ∈ ss, (TreePart.stmt s).Free x) →
    Preserves x (stmts ss)
  | [], _ => preserves_pure ()
  | s :: rest, h => by
    rw [Check.stmts]
    rw [List.forall_mem_cons] at h
    exact (preserves_stmt s h.1).bind fun _ => preserves_stmts rest h.2

theorem preserves_block : ∀ b : Block, (TreePart.block b).Free x → Preserves x (block b)
  | ⟨statements, span⟩, h => by
    rw [Check.block]
    exact preserves_inScope (preserves_stmts statements fun s hs =>
      h.child (List.mem_map_of_mem hs))

theorem preserves_block? : ∀ b : Option Block, (∀ b' ∈ b, (TreePart.block b').Free x) →
    Preserves x (block? b)
  | none, _ => preserves_pure ()
  | some b, h => preserves_block b (h b rfl)

theorem preserves_handler? : ∀ handler : Option CatchClause,
    (∀ clause ∈ handler, x ∉ clause.param.toList ∧ (TreePart.block clause.body).Free x) →
      Preserves x (handler? handler)
  | none, _ => preserves_pure ()
  | some ⟨param, body⟩, h => by
    rw [Check.handler?]
    obtain ⟨hparam, hbody⟩ := h _ rfl
    exact preserves_inScope ((preserves_importNames hparam).bind fun _ =>
      preserves_block body hbody)

theorem preserves_function : ∀ f : Function, (TreePart.function f).Free x →
    Preserves x (function f)
  | ⟨name, params, returnType, ⟨statements, blockSpan⟩, isAsync, modifiers, span⟩, h => by
    rw [Check.function]
    have hself := h.self
    rw [TreePart.binders, List.mem_cons, not_or] at hself
    have hbody : (TreePart.block ⟨statements, blockSpan⟩).Free x := h.child List.mem_cons_self
    exact preserves_functionType (Ne.symm hself.1) hself.2
      (preserves_stmts statements fun s hs => hbody.child (List.mem_map_of_mem hs))

theorem preserves_members : ∀ ss : List Stmt, (∀ s ∈ ss, (TreePart.stmt s).Free x) →
    (∀ s ∈ ss, s.stateName? ≠ some x) → Preserves x (members ss)
  | [], _, _ => preserves_pure _
  | s :: rest, h, hstate => by
    rw [List.forall_mem_cons] at h hstate
    have hs := preserves_stmt s h.1
    have hrest := preserves_members rest h.2 hstate.2
    unfold Check.members
    split
    · exact hrest
    next span decl =>
      rw [Check.stmt] at hs
      exact hs.bind fun _ => hrest.before fun _ => fixes_pure _
    next span node name value =>
      have hname : name ≠ x := fun heq => hstate.1 (heq ▸ rfl)
      refine preserves_get_bind fun c => ?_
      split
      · exact hs.bind fun _ => hrest
      · exact (fixes_expr value).then fun type => (fixes_record _ _).then fun _ =>
          (preserves_define hname type).bind fun _ => hrest.before fun _ => fixes_pure _
    next => exact hs.bind fun _ => hrest

theorem preserves_methods : ∀ ss : List Stmt, (∀ s ∈ ss, (TreePart.stmt s).Free x) →
    Preserves x (methods ss)
  | [], _ => preserves_pure _
  | s :: rest, h => by
    rw [List.forall_mem_cons] at h
    cases s with
    | functionDecl span f =>
        rw [Check.methods]
        exact (preserves_function f (h.1.child List.mem_cons_self)).bind fun type =>
          (preserves_methods rest h.2).before fun _ => fixes_pure _
    | _ => exact preserves_methods rest h.2

theorem preserves_component : ∀ c : Component, (TreePart.component c).Free x →
    Preserves x (component c)
  | ⟨name, modifiers, statements, body, span⟩, h => by
    rw [Check.component]
    have hstatements : ∀ s ∈ statements, (TreePart.stmt s).Free x :=
      fun s hs => h.child (List.mem_append_left _ (List.mem_map_of_mem hs))
    have hstate : ∀ s ∈ statements, s.stateName? ≠ some x :=
      fun s hs hname => h.self (List.mem_filterMap.2 ⟨s, hs, hname⟩)
    exact preserves_inScope ((preserves_declareMethods hstatements).bind fun _ =>
      (preserves_members statements hstatements hstate).bind fun state =>
        (preserves_methods statements hstatements).bind fun methods =>
          ((fixes_markups body).bind fun _ => fun _ => rfl).preserves)

theorem preserves_exportDecl : ∀ e : Export, (TreePart.exportDecl e).Free x →
    Preserves x (exportDecl e)
  | ⟨isDefault, .function f, span⟩, h => by
    rw [Check.exportDecl]
    exact (preserves_function f (h.child List.mem_cons_self)).before fun _ => fixes_pure ()
  | ⟨isDefault, .component c, span⟩, h => by
    rw [Check.exportDecl]
    exact preserves_component c (h.child List.mem_cons_self)
  | ⟨isDefault, .statement s, span⟩, h => by
    rw [Check.exportDecl]
    exact preserves_stmt s (h.child List.mem_cons_self)

end

/-! ## Programs -/

theorem preserves_declareVariable {s : Stmt} (h : x ∉ s.binders) :
    Preserves x (declareVariable s) := by
  unfold declareVariable
  split
  next span decl =>
    have hname : decl.name ≠ x := fun heq => h (heq ▸ List.mem_cons_self)
    exact preserves_define hname .unknown
  next => exact preserves_pure ()

theorem preserves_declare {p : Program} (h : (TreePart.program p).Free x) :
    Preserves x (declare p) := by
  have himports : ∀ item ∈ p.imports, (TreePart.importDecl item).Free x :=
    fun item hitem => h.child (List.mem_append_left _ (List.mem_map_of_mem hitem))
  have hself := h.self
  simp only [TreePart.binders, List.mem_append, List.mem_map, List.mem_flatMap, not_or,
    not_exists, not_and] at hself
  obtain ⟨hcomponents, hfunctions, hvariables⟩ := hself
  unfold declare
  refine (preserves_each fun item hitem => preserves_importDecl (himports item hitem)).bind
    fun _ => (preserves_each fun c hc => ?_).bind fun _ => (preserves_each fun f hf => ?_).bind
      fun _ => preserves_each fun s hs => preserves_declareVariable (hvariables s hs)
  · exact fun state _ => Scopes.entries_define_of_ne (hcomponents c hc) state.scopes
  · exact (fixes_signature f).then fun type => preserves_define (hfunctions f hf) type

theorem preserves_program {p : Program} (h : (TreePart.program p).Free x) :
    Preserves x (program p) := by
  have hchild : ∀ part ∈ (TreePart.program p).children, part.Free x := fun part hpart =>
    h.child hpart
  simp only [TreePart.children, List.mem_append, or_imp, forall_and, List.forall_mem_map] at hchild
  obtain ⟨-, hexports, hfunctions, hcomponents, hstatements⟩ := hchild
  unfold program
  exact (preserves_declare h).bind fun _ =>
    (preserves_each fun f hf => (preserves_function f (hfunctions f hf)).before
      fun _ => fixes_pure ()).bind fun _ =>
    (preserves_each fun s hs => preserves_stmt s (hstatements s hs)).bind fun _ =>
    (preserves_each fun e he => preserves_exportDecl e (hexports e he)).bind fun _ =>
    preserves_each fun c hc => preserves_component c (hcomponents c hc)

end Check

end ComponentLang
