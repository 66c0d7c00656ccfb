import ComponentLang.Proofs.Typing.Effects.Program
import ComponentLang.Proofs.Typing.External

/-!
# What a program consults

Statements and declarations are followed like expressions, into every place where an expression
stands. So the values from outside matter to a program only where it names them, and each of them is
noted as it is given.
-/
namespace ComponentLang.Check

variable {program : Program}

/-! ## Variables -/

theorem consults_variableDecl (decl : VariableDecl)
    (h : ∀ e ∈ decl.init.toList, program.Contains (.expr e)) :
    Consults program (variableDecl decl) := by
  obtain ⟨kind, name, typeExpr, init⟩ := decl
  unfold variableDecl
  refine (consults_resolve? typeExpr).bind fun annotated => ?_
  cases init with
  | none =>
    refine (consults_pure none).bind fun init => ?_
    dsimp only
    split
    next heq => cases heq
    next => exact consults_define name _
  | some e =>
    refine (consults_map (consults_expr e (h e (by simp)))).bind fun init => ?_
    dsimp only
    split
    · exact (consults_expectStorable _ _ _).bind fun _ => consults_define name _
    · exact consults_define name _

theorem consults_assignmentTarget (target : Expr) (h : program.Contains (.expr target)) :
    Consults program (assignmentTarget target) := by
  unfold assignmentTarget
  split
  next node name =>
    refine (consults_variableType name _).bind (consults_noted h ?_)
    intro _ _ hbinding
    cases hbinding
  next => exact consults_expr target h

theorem consults_assignedType (op : AssignOp) (target value : Ty) (span : Span) :
    Consults program (assignedType op target value span) := by
  unfold assignedType
  split
  · exact consults_pure _
  · exact consults_settle _ span

theorem consults_adopt (target : Expr) (type : Ty) : Consults program (adopt target type) := by
  unfold adopt
  split
  · split
    · exact consults_pure ()
    · exact consults_update _ _
  · exact consults_pure ()

theorem consults_assignment (target : Expr) (op : AssignOp) (value : Expr)
    (htarget : program.Contains (.expr target)) (hvalue : program.Contains (.expr value)) :
    Consults program (assignment target op value) := by
  unfold assignment
  refine (consults_assignmentTarget target htarget).bind fun targetType =>
    (consults_expr value hvalue).bind fun valueType =>
      (consults_assignedType op targetType valueType _).bind fun stored => ?_
  split
  · exact consults_adopt target stored
  · exact consults_expectStorable _ _ _

/-! ## Functions -/

theorem consults_paramTypes (params : List Param) : Consults program (paramTypes params) := by
  induction params with
  | nil => exact consults_pure _
  | cons param rest ih =>
      exact (consults_resolve? param.typeExpr).bind fun _ => ih.bind fun _ => consults_pure _

theorem consults_signature (f : Function) : Consults program (signature f) :=
  (consults_paramTypes f.params).bind fun _ =>
    (consults_resolve? f.returnType).bind fun _ => consults_pure _

theorem consults_defineAll (params : List Param) (types : List Ty) :
    Consults program (defineAll params types) := by
  induction params generalizing types with
  | nil => exact consults_pure ()
  | cons param rest ih =>
      cases types with
      | nil => exact consults_pure ()
      | cons type types => exact (consults_define param.name type).bind fun _ => ih types

theorem consults_functionType {name : String} {params : List Param} {returnType : Option TypeExpr}
    {isAsync : Bool} {body : Check Unit} (h : Consults program body) :
    Consults program (functionType name params returnType isAsync body) := by
  unfold functionType
  refine (consults_paramTypes params).bind fun types =>
    (consults_resolve? returnType).bind fun declared =>
      (consults_define name _).bind fun _ => ?_
  have hbody : Consults program (inScope do
      defineAll params types
      collectReturns declared body) :=
    consults_inScope ((consults_defineAll params types).bind fun _ => consults_collectReturns h)
  exact hbody.bind fun seen => (consults_define name _).bind fun _ => consults_pure _

theorem consults_importNames (names : List String) : Consults program (importNames names) := by
  induction names with
  | nil => exact consults_pure ()
  | cons name rest ih => exact (consults_define name .any).bind fun _ => ih

theorem consults_importDecl (item : Import) : Consults program (importDecl item) :=
  consults_importNames _

theorem consults_declareMethods (ss : List Stmt) : Consults program (declareMethods ss) := by
  fun_induction declareMethods ss with
  | case1 => exact consults_pure ()
  | case2 span f rest ih =>
      exact (consults_signature f).bind fun type => (consults_define f.name type).bind fun _ => ih
  | case3 s rest _ ih => exact ih

theorem consults_summarize (name : String) (state : List String) (methods : List TypedName) :
    Consults program (summarize name state methods) :=
  consults_step (fun _ _ => rfl) fun _ => rfl

/-! ## Statements -/

/-- What stands in the parts of a statement that handles failures. -/
theorem contains_handling {b : Block} {handler : Option CatchClause} {cleanup : Option Block}
    (h : ∀ part ∈ (.block b :: (handler.toList.map fun clause => .block clause.body)) ++
      cleanup.toList.map .block, program.Contains part) :
    program.Contains (.block b) ∧
      (∀ clause ∈ handler.toList, program.Contains (.block clause.body)) ∧
      ∀ c ∈ cleanup.toList, program.Contains (.block c) := by
  rw [List.forall_mem_append, List.forall_mem_cons, List.forall_mem_map, List.forall_mem_map] at h
  exact ⟨h.1.1, h.1.2, h.2⟩

mutual

theorem consults_stmt : ∀ s : Stmt, program.Contains (.stmt s) → Consults program (stmt s)
  | .expression span e, h => by
    rw [Check.stmt]
    exact (consults_expr e (h.child (by simp [TreePart.children, Stmt.children]))).bind fun _ =>
      consults_pure ()
  | .block b, h => by
    rw [Check.stmt]
    exact consults_block b (h.child (by simp [TreePart.children, Stmt.children]))
  | .variableDecl span decl, h => by
    rw [Check.stmt]
    exact consults_variableDecl decl fun e he =>
      h.child (by simpa [TreePart.children, Stmt.children] using he)
  | .assignment span target op value, h => by
    rw [Check.stmt]
    exact consults_assignment target op value
      (h.child (by simp [TreePart.children, Stmt.children]))
      (h.child (by simp [TreePart.children, Stmt.children]))
  | .ifElse span test consequent alternate, h => by
    have halternate : ∀ s ∈ alternate.toList, program.Contains (.stmt s) := by
      intro s hs
      exact h.child (.tail _ (.tail _ (List.mem_map_of_mem hs)))
    rw [Check.stmt]
    exact (consults_expr test (h.child (by simp [TreePart.children, Stmt.children]))).bind fun _ =>
      (consults_block consequent (h.child (by simp [TreePart.children, Stmt.children]))).bind
        fun _ => consults_stmt? alternate halternate
  | .whileLoop span test body, h => by
    rw [Check.stmt]
    exact (consults_expr test (h.child (by simp [TreePart.children, Stmt.children]))).bind fun _ =>
      consults_block body (h.child (by simp [TreePart.children, Stmt.children]))
  | .forLoop span init test update body, h => by
    have hchildren : ∀ part ∈ init.toList.map .stmt ++ (test.toList.map .expr ++
        (update.toList.map .stmt ++ [.block body])), program.Contains part :=
      fun _ hpart => h.child hpart
    simp only [List.forall_mem_append, List.forall_mem_map, List.forall_mem_singleton] at hchildren
    obtain ⟨hinit, htest, hupdate, hbody⟩ := hchildren
    rw [Check.stmt]
    exact consults_inScope ((consults_stmt? init hinit).bind fun _ =>
      (consults_expr? test htest).bind fun _ => (consults_stmt? update hupdate).bind fun _ =>
        consults_block body hbody)
  | .forIn span name iterable body, h => by
    rw [Check.stmt]
    exact (consults_expr iterable (h.child (by simp [TreePart.children, Stmt.children]))).bind
      fun type => consults_inScope ((consults_define name _).bind fun _ =>
        consults_block body (h.child (by simp [TreePart.children, Stmt.children])))
  | .returnStmt span none, _ => by
    rw [Check.stmt]
    exact consults_noteReturn _ _
  | .returnStmt span (some e), h => by
    rw [Check.stmt]
    exact (consults_expr e (h.child (by simp [TreePart.children, Stmt.children]))).bind fun type =>
      consults_noteReturn type _
  | .breakStmt span, _ | .continueStmt span, _ | .error span message, _ => by
    rw [Check.stmt]
    exact consults_pure ()
  | .tryStmt span b handler cleanup, h | .asyncBlock span b handler cleanup, h => by
    obtain ⟨hb, hhandler, hcleanup⟩ := contains_handling fun _ hpart => h.child hpart
    rw [Check.stmt]
    exact (consults_block b hb).bind fun _ => (consults_handler? handler hhandler).bind fun _ =>
      consults_block? cleanup hcleanup
  | .throwStmt span value, h => by
    rw [Check.stmt]
    exact (consults_expr value (h.child (by simp [TreePart.children, Stmt.children]))).bind fun _ =>
      consults_pure ()
  | .functionDecl span f, h => by
    rw [Check.stmt]
    exact (consults_function f (h.child (by simp [TreePart.children, Stmt.children]))).bind fun _ =>
      consults_pure ()
  | .importDecl span item, _ => by
    rw [Check.stmt]
    exact consults_importDecl item
  | .exportDecl span item, h => by
    rw [Check.stmt]
    exact consults_exportDecl item (h.child (by simp [TreePart.children, Stmt.children]))

theorem consults_stmt? : ∀ s : Option Stmt, (∀ a ∈ s.toList, program.Contains (.stmt a)) →
    Consults program (stmt? s)
  | none, _ => consults_pure ()
  | some s, h => consults_stmt s (h s (by simp))

theorem consults_stmts : ∀ ss : List Stmt, (∀ s ∈ ss, program.Contains (.stmt s)) →
    Consults program (stmts ss)
  | [], _ => consults_pure ()
  | s :: rest, h => by
    obtain ⟨hs, hrest⟩ := List.forall_mem_cons.1 h
    rw [Check.stmts]
    exact (consults_stmt s hs).bind fun _ => consults_stmts rest hrest

theorem consults_block : ∀ b : Block, program.Contains (.block b) → Consults program (block b)
  | ⟨statements, span⟩, h => by
    rw [Check.block]
    exact consults_inScope (consults_stmts statements fun s hs =>
      h.child (by simp [TreePart.children, hs]))

theorem consults_block? : ∀ b : Option Block, (∀ a ∈ b.toList, program.Contains (.block a)) →
    Consults program (block? b)
  | none, _ => consults_pure ()
  | some b, h => consults_block b (h b (by simp))

theorem consults_handler? : ∀ handler : Option CatchClause,
    (∀ clause ∈ handler.toList, program.Contains (.block clause.body)) →
      Consults program (handler? handler)
  | none, _ => consults_pure ()
  | some ⟨param, body⟩, h => by
    rw [Check.handler?]
    exact consults_inScope ((consults_importNames _).bind fun _ =>
      consults_block body (h ⟨param, body⟩ (by simp)))

theorem consults_function : ∀ f : Function, program.Contains (.function f) →
    Consults program (function f)
  | ⟨name, params, returnType, ⟨statements, blockSpan⟩, isAsync, modifiers, span⟩, h => by
    have hbody : program.Contains (.block ⟨statements, blockSpan⟩) :=
      h.child (by simp [TreePart.children])
    rw [Check.function]
    exact consults_functionType (consults_stmts statements fun s hs =>
      hbody.child (by simp [TreePart.children, hs]))

theorem consults_members : ∀ ss : List Stmt, (∀ s ∈ ss, program.Contains (.stmt s)) →
    Consults program (members ss)
  | [], _ => consults_pure _
  | s :: rest, h => by
    obtain ⟨hs, hrest⟩ := List.forall_mem_cons.1 h
    unfold Check.members
    split
    · exact consults_members rest hrest
    next span decl =>
      exact (consults_variableDecl decl fun e he =>
        hs.child (by simpa [TreePart.children, Stmt.children] using he)).bind fun _ =>
          (consults_members rest hrest).bind fun _ => consults_pure _
    next span node name value =>
      have htarget : program.Contains (.expr (.identifier node name)) :=
        hs.child (by simp [TreePart.children, Stmt.children])
      have hvalue : program.Contains (.expr value) :=
        hs.child (by simp [TreePart.children, Stmt.children])
      refine consults_get_bind (fun _ _ => rfl) fun c => ?_
      split
      · rw [Check.stmt]
        exact (consults_assignment _ _ value htarget hvalue).bind fun _ =>
          consults_members rest hrest
      · exact (consults_expr value hvalue).bind fun type =>
          (consults_record htarget nofun type).bind fun _ => (consults_define name type).bind
            fun _ => (consults_members rest hrest).bind fun _ => consults_pure _
    next => exact (consults_stmt s hs).bind fun _ => consults_members rest hrest

theorem consults_methods : ∀ ss : List Stmt, (∀ s ∈ ss, program.Contains (.stmt s)) →
    Consults program (methods ss)
  | [], _ => consults_pure _
  | s :: rest, h => by
    obtain ⟨hs, hrest⟩ := List.forall_mem_cons.1 h
    cases s with
    | functionDecl span f =>
      rw [Check.methods]
      exact (consults_function f (hs.child (by simp [TreePart.children, Stmt.children]))).bind
        fun type => (consults_methods rest hrest).bind fun _ => consults_pure _
    | _ => exact consults_methods rest hrest

theorem consults_component : ∀ c : Component, program.Contains (.component c) →
    Consults program (component c)
  | ⟨name, modifiers, statements, body, span⟩, h => by
    have hstatements : ∀ s ∈ statements, program.Contains (.stmt s) :=
      fun s hs => h.child (by simp [TreePart.children, hs])
    have hbody : ∀ m ∈ body, program.Contains (.markup m) :=
      fun m hm => h.child (by simp [TreePart.children, hm])
    rw [Check.component]
    exact consults_inScope ((consults_declareMethods statements).bind fun _ =>
      (consults_members statements hstatements).bind fun state =>
        (consults_methods statements hstatements).bind fun methods =>
          (consults_markups body hbody).bind fun _ => consults_summarize name state methods)

theorem consults_exportDecl : ∀ e : Export, program.Contains (.exportDecl e) →
    Consults program (exportDecl e)
  | ⟨isDefault, .function f, span⟩, h => by
    rw [Check.exportDecl]
    exact (consults_function f (h.child (List.mem_singleton_self _))).bind fun _ =>
      consults_pure ()
  | ⟨isDefault, .component c, span⟩, h => by
    rw [Check.exportDecl]
    exact consults_component c (h.child (List.mem_singleton_self _))
  | ⟨isDefault, .statement s, span⟩, h => by
    rw [Check.exportDecl]
    exact consults_stmt s (h.child (List.mem_singleton_self _))

end

/-! ## Programs -/

theorem consults_declareFunction (f : Function) : Consults program (declareFunction f) :=
  (consults_signature f).bind fun type => consults_define f.name type

theorem consults_declareVariable (s : Stmt) : Consults program (declareVariable s) := by
  unfold declareVariable
  split
  · exact consults_define _ _
  · exact consults_pure ()

theorem consults_declare (p : Program) : Consults program (declare p) := by
  unfold declare
  exact (consults_each fun item _ => consults_importDecl item).bind fun _ =>
    (consults_each fun c _ => consults_declareComponent c.name).bind fun _ =>
      (consults_each fun f _ => consults_declareFunction f).bind fun _ =>
        consults_each fun s _ => consults_declareVariable s

theorem consults_program (p : Program) : Consults p (Check.program p) := by
  have hwhole : p.Contains (.program p) := .refl
  have hpart : ∀ part ∈ (TreePart.program p).children, p.Contains part :=
    fun _ hpart => hwhole.child hpart
  simp only [TreePart.children, List.forall_mem_append, List.forall_mem_map] at hpart
  obtain ⟨-, hexports, hfunctions, hcomponents, hstatements⟩ := hpart
  have hfunction : ∀ f ∈ p.functions, Consults p (do let _ ← function f) :=
    fun f hf => (consults_function f (hfunctions f hf)).bind fun _ => consults_pure ()
  unfold Check.program
  exact (consults_declare p).bind fun _ => (consults_each hfunction).bind fun _ =>
    (consults_each fun s hs => consults_stmt s (hstatements s hs)).bind fun _ =>
      (consults_each fun e he => consults_exportDecl e (hexports e he)).bind fun _ =>
        consults_each fun c hc => consults_component c (hcomponents c hc)

end ComponentLang.Check

namespace ComponentLang

open Checking Check Grammar

/-- What is found out about a program depends on no more of what is given than on what it takes. -/
theorem check_congr {p : Program} {external external' : List TypedName}
    (h : ∀ name ∈ p.bindings, TypedName.lookup? name external' = TypedName.lookup? name external) :
    p.check external' = p.check external := by
  have hgiven : ∀ name ∈ p.bindings, givenType external' name = givenType external name :=
    fun name hname => congrArg (·.getD .any) (h name hname)
  have hrun := (consults_program p).same (.start external) external' hgiven
  have hstart : (Checking.start external).withExternal external' = .start external' := rfl
  rw [hstart] at hrun
  unfold Program.check
  rw [hrun]
  rfl

/-- Where no number comes twice, an expression is known by its number. -/
theorem Program.eq_of_id_eq {p : Program} {e e' : Expr} (h : p.visited.Nodup)
    (he : p.Contains (.expr e)) (he' : p.Contains (.expr e')) (hid : e.id = e'.id) : e = e' := by
  by_contra hne
  obtain ⟨pair, hpair, hsub⟩ : [TreePart.expr e, TreePart.expr e'].Subperm p.parts :=
    List.subperm_of_subset (List.nodup_cons.2 ⟨by simpa using hne, List.nodup_singleton _⟩)
      (by simp [← Program.contains_iff_mem_parts, he, he'])
  have hids : (pair.filterMap TreePart.number?).Nodup := h.sublist (hsub.filterMap _)
  rw [(hpair.filterMap TreePart.number?).nodup_iff] at hids
  exact (List.nodup_cons.1 hids).1 (by simp [hid, TreePart.number?])

/-- A value from outside has the type that is given for it, if its number is the number of no other
expression. -/
theorem get?_valueBinding {p : Program} {node : Node} {name : String} (external : List TypedName)
    (h : p.Contains (.expr (.valueBinding node name)))
    (hown : ∀ e, p.Contains (.expr e) → e.id = node.id → e = .valueBinding node name) :
    (p.check external).types.get? node.id = some (givenType external name) := by
  have hnoted : node.id ∈ (p.check external).types.numbers := by
    have hgrows := (grows_check p external).numbers
    rw [show (p.check external).types.numbers = _ from hgrows]
    exact .inr (Program.mem_visited.2 ⟨_, h, rfl⟩)
  obtain ⟨type, htype⟩ := Option.isSome_iff_exists.1 hnoted
  have hentry := TypeTable.mem_of_get? htype
  obtain hbefore | ⟨e, he, hid, hgiven⟩ :=
    (consults_program p).noted (.start external) (node.id, type) hentry
  · exact nomatch hbefore
  · have hwhat : type = givenType external name := hgiven node name (hown e he hid.symm)
    rw [htype, hwhat]

/-- The values from outside are read where they are named, and nowhere else. Given values that are
the same for the names of a program's bindings, checking finds out the same about the program. And
the type of `!name` is the one that is given for the name, or `any`, whatever the scopes around it
say of the name; so it is for every value of a program that was read from tokens, and in general for
one whose number is its own. -/
theorem check_reads_bindings :
    (∀ (p : Program) (external external' : List TypedName),
      (∀ name ∈ p.bindings,
        TypedName.lookup? name external' = TypedName.lookup? name external) →
      p.check external' = p.check external) ∧
    (∀ (tokens : List Token) (external : List TypedName) (node : Node) (name : String),
      (parse tokens).program.Contains (.expr (.valueBinding node name)) →
      ((parse tokens).program.check external).types.get? node.id =
        some ((TypedName.lookup? name external).getD .any)) ∧
    (∀ (p : Program) (external : List TypedName) (node : Node) (name : String),
      p.Contains (.expr (.valueBinding node name)) →
      (∀ e, p.Contains (.expr e) → e.id = node.id → e = .valueBinding node name) →
      (p.check external).types.get? node.id =
        some ((TypedName.lookup? name external).getD .any)) := by
  refine ⟨fun p external external' => check_congr, ?_,
    fun p external node name => get?_valueBinding external⟩
  intro tokens external node name h
  exact get?_valueBinding external h fun e he hid =>
    Program.eq_of_id_eq (nodup_visited tokens) he h hid

/-- `let x = 1; let y = !x`: the value from outside has the name of a variable. -/
def shadowedValue : List Token :=
  [.ofKind (.keyword .letKw) "let" ⟨0, 3, 1, 1⟩, .ofKind .identifier "x" ⟨4, 5, 1, 5⟩,
    .ofKind .equals "=" ⟨6, 7, 1, 7⟩, .ofKind (.number .int) "1" ⟨8, 9, 1, 9⟩,
    .ofKind .semicolon ";" ⟨9, 10, 1, 10⟩,
    .ofKind (.keyword .letKw) "let" ⟨11, 14, 1, 12⟩, .ofKind .identifier "y" ⟨15, 16, 1, 16⟩,
    .ofKind .equals "=" ⟨17, 18, 1, 18⟩, .ofKind .valueBinding "x" ⟨19, 21, 1, 20⟩]

theorem check_reads_bindings_shadowedValue :
    let p := (parse shadowedValue).program
    p.check [⟨"y", .bool⟩, ⟨"x", .string⟩] = p.check [⟨"x", .string⟩] ∧
      ∃ node, p.Contains (.expr (.valueBinding node "x")) ∧
        (∀ e, p.Contains (.expr e) → e.id = node.id → e = .valueBinding node "x") ∧
        (p.check [⟨"x", .string⟩]).types.get? node.id = some .string ∧
        (p.check [⟨"y", .bool⟩]).types.get? node.id = some .any := by
  intro p
  obtain ⟨hsame, hparsed, hgeneral⟩ := check_reads_bindings
  have hbindings : p.bindings = ["x"] := by decide +kernel
  have hagree : ∀ name ∈ p.bindings, TypedName.lookup? name [⟨"y", .bool⟩, ⟨"x", .string⟩] =
      TypedName.lookup? name [⟨"x", .string⟩] := by
    rw [hbindings]
    exact List.forall_mem_singleton.2 rfl
  obtain ⟨node, hcontains⟩ := mem_bindings.1 (hbindings ▸ List.mem_singleton_self "x")
  have hown : ∀ e, p.Contains (.expr e) → e.id = node.id → e = .valueBinding node "x" :=
    fun e he hid => Program.eq_of_id_eq (nodup_visited shadowedValue) he hcontains hid
  exact ⟨hsame p _ _ hagree, node, hcontains, hown,
    hgeneral p [⟨"x", .string⟩] node "x" hcontains hown,
    hparsed shadowedValue [⟨"y", .bool⟩] node "x" hcontains⟩

end ComponentLang
