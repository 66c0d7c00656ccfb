import ComponentLang.Proofs.Typing.Turns

/-!
# Annotated variables

A variable keeps the type that it is declared with in everything that is checked later.
-/

/-! ## Settled variables from turn to turn

A settled variable that a part does not define has its type in every turn to which the check of the
part leads. -/

namespace ComponentLang

open Check

namespace TreePart

variable {part next : TreePart} {c d : Checking} {x : String}

theorem preserves_check : ∀ part : TreePart, part.Free x → Preserves x part.check
  | .program _, h => preserves_program h
  | .importDecl _, h => preserves_importDecl h
  | .exportDecl item, h => preserves_exportDecl item h
  | .component k, h => preserves_component k h
  | .function f, h => (preserves_function f h).before fun _ => fixes_pure ()
  | .block b, h => preserves_block b h
  | .stmt s, h => preserves_stmt s h
  | .expr e, _ => ((fixes_expr e).bind fun _ => fixes_pure ()).preserves
  | .markup m, _ => (fixes_markup m).preserves
  | .tag t, _ => (fixes_tag t).preserves
  | .attribute item, _ => (fixes_attributeList [item]).preserves
  | .identifier .., _ | .valueBinding .., _ | .text .., _ => preserves_pure ()

variable {type : Ty}

theorem lookup?_inOrder {parts : List TreePart} (hparts : ∀ q ∈ parts, q.Free x)
    (hknown : type ≠ .unknown) (hc : c.scopes.lookup? x = some type)
    (h : (next, d) ∈ inOrder parts c) : d.scopes.lookup? x = some type := by
  induction parts generalizing c with
  | nil => cases h
  | cons part rest ih =>
      rw [List.forall_mem_cons] at hparts
      rcases List.mem_cons.1 h with heq | hlater
      · cases heq
        exact hc
      · have hpart := (preserves_check part hparts.1).lookup? ⟨type, hc, hknown⟩
        exact ih hparts.2 (hpart.trans hc) hlater

theorem lookup?_memberTurns {ss : List Stmt} (hfree : ∀ s ∈ ss, (TreePart.stmt s).Free x)
    (hstate : ∀ s ∈ ss, s.stateName? ≠ some x) (hknown : type ≠ .unknown)
    (hc : c.scopes.lookup? x = some type) (h : (next, d) ∈ memberTurns ss c) :
    d.scopes.lookup? x = some type := by
  induction ss generalizing c with
  | nil => cases h
  | cons s rest ih =>
      rw [List.forall_mem_cons] at hfree hstate
      have hhead : Preserves x (members [s]) :=
        preserves_members [s] (List.forall_mem_singleton.2 hfree.1)
          (List.forall_mem_singleton.2 hstate.1)
      have hrest := ih hfree.2 hstate.2 ((hhead.lookup? ⟨type, hc, hknown⟩).trans hc)
      unfold memberTurns at h
      dsimp only at h
      split at h
      · exact hrest h
      · rcases List.mem_cons.1 h with heq | h
        · cases heq
          exact hc
        · exact hrest h

theorem lookup?_enterFunction {f : Function} (hfree : (TreePart.function f).Free x)
    (hknown : type ≠ .unknown) (hc : c.scopes.lookup? x = some type) :
    ((enterFunction f).run c).2.scopes.lookup? x = some type := by
  have hself := hfree.self
  rw [binders, List.mem_cons, not_or] at hself
  have hbefore : Preserves x (do
      let types ← paramTypes f.params
      let declared ← resolve? f.returnType
      define f.name (.function types (declared.getD .any) f.isAsync)) :=
    (fixes_paramTypes f.params).then fun types =>
      (fixes_resolve? f.returnType).then fun declared =>
        preserves_define (Ne.symm hself.1) _
  have hdefined := (hbefore.lookup? ⟨type, hc, hknown⟩).trans hc
  have hopened := (Checking.lookup?_opened _ x).trans hdefined
  have hparams := preserves_defineAll hself.2 ((paramTypes f.params).run c).1
  exact (hparams.lookup? ⟨type, hopened, hknown⟩).trans hopened

theorem lookup?_turns_stmt {s : Stmt} (hfree : (TreePart.stmt s).Free x)
    (hknown : type ≠ .unknown) (hc : c.scopes.lookup? x = some type)
    (h : (next, d) ∈ s.turns c) : d.scopes.lookup? x = some type := by
  have hchildren : ∀ child ∈ s.children, child.Free x := fun child hchild => hfree.child hchild
  cases s with
  | variableDecl | assignment => cases h
  | forLoop => exact lookup?_inOrder hchildren hknown ((Checking.lookup?_opened c x).trans hc) h
  | forIn span name iterable body =>
    obtain ⟨-, rfl⟩ := Prod.mk.inj (List.mem_singleton.1 h)
    have hname : name ≠ x := fun heq => hfree.self (heq ▸ List.mem_cons_self)
    have hafter := ((fixes_expr iterable).preserves.lookup? ⟨type, hc, hknown⟩).trans hc
    have hopened := (Checking.lookup?_opened _ x).trans hafter
    exact ((preserves_define hname _).lookup? ⟨type, hopened, hknown⟩).trans hopened
  | tryStmt span b handler cleanup | asyncBlock span b handler cleanup =>
    have hafter : ((Check.block b).run c).2.scopes.lookup? x = some type :=
      ((preserves_block b (hfree.child List.mem_cons_self)).lookup? ⟨type, hc, hknown⟩).trans hc
    have hhandler := hfree.handler span b handler cleanup (by simp)
    rcases List.mem_cons.1 h with heq | h
    · cases heq
      exact hc
    rcases List.mem_append.1 h with hcaught | hcleanup
    · obtain ⟨clause, hclause, heq⟩ := List.mem_map.1 hcaught
      obtain ⟨-, rfl⟩ := Prod.mk.inj heq
      have hparam := (hhandler clause (Option.mem_toList.1 hclause)).1
      have hopened := (Checking.lookup?_opened _ x).trans hafter
      exact ((preserves_importNames hparam).lookup? ⟨type, hopened, hknown⟩).trans hopened
    · have hcaught := (preserves_handler? handler hhandler).lookup? ⟨type, hafter, hknown⟩
      refine lookup?_inOrder (fun q hq => hchildren q ?_) hknown (hcaught.trans hafter) hcleanup
      exact List.mem_cons_of_mem _ (List.mem_append_right _ hq)
  | _ => exact lookup?_inOrder (c := c) hchildren hknown hc h

theorem lookup?_turns (hfree : part.Free x) (hknown : type ≠ .unknown)
    (hc : c.scopes.lookup? x = some type) (h : (next, d) ∈ part.turns c) :
    d.scopes.lookup? x = some type := by
  have hopened : c.opened.scopes.lookup? x = some type := (Checking.lookup?_opened c x).trans hc
  have hchildren : ∀ child ∈ part.children, child.Free x := fun child hchild => hfree.child hchild
  match part with
  | .program p =>
    have hdeclare := (preserves_declare hfree).lookup? ⟨type, hc, hknown⟩
    refine lookup?_inOrder (fun task htask => hchildren task ?_) hknown (hdeclare.trans hc) h
    simp only [Program.tasks, List.mem_append] at htask
    simp only [children, List.mem_append]
    tauto
  | .exportDecl item => exact lookup?_inOrder hchildren hknown hc h
  | .component k =>
    have hstatements : ∀ s ∈ k.statements, (TreePart.stmt s).Free x :=
      fun s hs => hfree.child (List.mem_append_left _ (List.mem_map_of_mem hs))
    have hstate : ∀ s ∈ k.statements, s.stateName? ≠ some x :=
      fun s hs hname => hfree.self (List.mem_filterMap.2 ⟨s, hs, hname⟩)
    have hentered : ((declareMethods k.statements).run c.opened).2.scopes.lookup? x = some type :=
      ((preserves_declareMethods hstatements).lookup? ⟨type, hopened, hknown⟩).trans hopened
    rcases List.mem_append.1 h with hmember | hmethod
    · exact lookup?_memberTurns hstatements hstate hknown hentered hmember
    · have hmembers := (preserves_members k.statements hstatements hstate).lookup?
        ⟨type, hentered, hknown⟩
      have hmethods : ∀ q ∈ (k.statements.filter isMethod).map TreePart.stmt, q.Free x := by
        rw [List.forall_mem_map]
        exact fun s hs => hstatements s (List.mem_of_mem_filter hs)
      exact lookup?_inOrder hmethods hknown (hmembers.trans hentered) hmethod
  | .function f =>
    have hbody : (TreePart.block f.body).Free x := hfree.child List.mem_cons_self
    exact lookup?_inOrder (fun s hs => hbody.child hs) hknown
      (lookup?_enterFunction hfree hknown hc) h
  | .block b => exact lookup?_inOrder hchildren hknown hopened h
  | .stmt s => exact lookup?_turns_stmt hfree hknown hc h
  | .importDecl .. | .expr .. | .markup .. | .tag .. | .attribute .. | .identifier ..
  | .valueBinding .. | .text .. => cases h

end TreePart

/-- A settled variable has its type wherever the check of a part leads. -/
theorem LeadsTo.lookup? {turn next : TreePart × Checking} {x : String} {type : Ty}
    (h : LeadsTo turn next) (hfree : turn.1.Free x) (hknown : type ≠ .unknown)
    (hc : turn.2.scopes.lookup? x = some type) :
    next.1.Free x ∧ next.2.scopes.lookup? x = some type := by
  induction h with
  | refl => exact ⟨hfree, hc⟩
  | tail _ hturn ih =>
      obtain ⟨hfree, hc⟩ := ih
      obtain ⟨child, hchild, hnext⟩ := TreePart.within_of_mem_turns hturn
      exact ⟨(hfree.child hchild).within hnext, TreePart.lookup?_turns hfree hknown hc hturn⟩

end ComponentLang

/-! ## Variables that are declared with a type

From its declaration on, a variable at the top has the type that is written there, in functions,
methods and components too, and what is stored in it is checked against that type. What is checked
before the declaration, above all the functions at the top, finds the variable without a known type
and gives it the first known type that it stores. -/

namespace ComponentLang

open Check

namespace Check

variable {c : Checking} {node : Node} {name : String} {type : Ty}

/-! ### Assignments by what is known of the variable -/

/-- Note what is known of the variable, and find the type of the value. -/
def storedType (node : Node) (type : Ty) (value : Expr) : Check Ty := do
  record node.id type
  expr value

theorem assignment_of_some (htype : c.scopes.lookup? name = some type) (value : Expr) :
    (assignment (.identifier node name) .assign value).run c = (do
      let found ← storedType node type value
      if type = .unknown then adopt (.identifier node name) found
      else expectStorable found type value.span : Check Unit).run c := by
  unfold assignment
  rw [StateT.run_bind, assignmentTarget_of_some htype]
  rfl

/-- The value is checked against the type of the variable, if that is known. -/
theorem assignment_of_known (htype : c.scopes.lookup? name = some type) (hknown : type ≠ .unknown)
    (value : Expr) : (assignment (.identifier node name) .assign value).run c = (do
      let found ← storedType node type value
      expectStorable found type value.span : Check Unit).run c := by
  rw [assignment_of_some htype]
  simp only [if_neg hknown]

/-- A variable of no known type takes the type of the value, if that is known, and nothing more is
reported. -/
theorem assignment_of_unknown (htype : c.scopes.lookup? name = some .unknown) (value : Expr) :
    (assignment (.identifier node name) .assign value).run c = (do
      let found ← storedType node .unknown value
      if found = .unknown then pure () else update name found : Check Unit).run c := by
  rw [assignment_of_some htype]
  simp only [if_pos, adopt]

/-! ### What an assignment reports -/

/-- Storing reports that the value does not fit exactly if its type is known and does not fit. -/
theorem mem_expectStorable {found : Ty} {span : Span} {d : Diagnostic} (hknown : type ≠ .unknown) :
    d ∈ ((expectStorable found type span).run c).2.diagnostics ↔ d ∈ c.diagnostics ∨
      (d = .ofSpan .type (TypeFault.notAssignable found type).message span ∧
        found ≠ .unknown ∧ found.assignable type = false) := by
  unfold expectStorable Ty.storeFault?
  by_cases hfits : (found = .unknown || type = .unknown || found.assignable type) = true
  · rw [if_pos hfits]
    have hspared : ¬ (found ≠ .unknown ∧ found.assignable type = false) := by
      rintro ⟨hfound, hassignable⟩
      simp [hfound, hknown, hassignable] at hfits
    constructor
    · exact .inl
    · rintro (h | ⟨-, h⟩)
      · exact h
      · exact absurd h hspared
  · rw [if_neg hfits]
    simp only [Bool.or_eq_true, decide_eq_true_eq, not_or, Bool.not_eq_true] at hfits
    obtain ⟨⟨hfound, -⟩, hassignable⟩ := hfits
    have hadded := Checking.mem_addDiagnostic (c := c) (y := d)
      (x := .ofSpan .type (TypeFault.notAssignable found type).message span)
    refine hadded.trans (or_congr_right ?_)
    constructor
    · exact fun h => ⟨h, hfound, hassignable⟩
    · exact And.left

/-! ### Declarations -/

theorem resolve?_some (a : TypeExpr) :
    (resolve? (some a)).run c = (some ((resolve a).run c).1, ((resolve a).run c).2) := rfl

/-- The type that is written comes before the type of the initial value. -/
theorem lookup?_variableDecl {decl : VariableDecl} {a : TypeExpr} (ha : decl.typeExpr = some a)
    (c : Checking) : ((variableDecl decl).run c).2.scopes.lookup? decl.name =
      some ((resolve a).run c).1 := by
  obtain ⟨kind, name, typeExpr, init⟩ := decl
  cases ha
  unfold variableDecl
  rw [StateT.run_bind, resolve?_some]
  have hdefined : ∀ scopes : Scopes, (scopes.define name ((resolve a).run c).1).lookup? name =
      some ((resolve a).run c).1 := by
    intro scopes
    rw [Scopes.lookup?_define, if_pos rfl]
  cases init with
  | none => exact hdefined _
  | some e => exact hdefined _

end Check

/-- The declaration of a variable at the top, exported or not. -/
def TreePart.declaration? : TreePart → Option VariableDecl
  | .stmt (.variableDecl _ decl) => some decl
  | .exportDecl ⟨_, .statement (.variableDecl _ decl), _⟩ => some decl
  | _ => none

theorem TreePart.lookup?_declaration {part : TreePart} {decl : VariableDecl} {a : TypeExpr}
    (h : part.declaration? = some decl) (ha : decl.typeExpr = some a) (c : Checking) :
    (part.check.run c).2.scopes.lookup? decl.name = some ((resolve a).run c).1 := by
  unfold declaration? at h
  split at h
  · cases h
    rw [check, Check.stmt]
    exact lookup?_variableDecl ha c
  · cases h
    rw [check, Check.exportDecl, Check.stmt]
    exact lookup?_variableDecl ha c
  · cases h

/-! ### From the declaration on -/

namespace Program

variable {p : Program} {external : List TypedName} {done todo : List TreePart} {inner : TreePart}
variable {c : Checking}

/-- The state of the check when `done` are checked, the first of its tasks. -/
def stateAfter (p : Program) (external : List TypedName) (done : List TreePart) : Checking :=
  ((do
    declare p
    each TreePart.check done : Check Unit).run (.start external)).2

/-- When `done` are checked, the check of the tasks `todo` leads to `inner` in state `c`. -/
def Reaches (p : Program) (external : List TypedName) (done todo : List TreePart)
    (inner : TreePart) (c : Checking) : Prop :=
  ∃ turn ∈ TreePart.inOrder todo (p.stateAfter external done), LeadsTo turn (inner, c)

theorem stateAfter_concat (p : Program) (external : List TypedName) (done : List TreePart)
    (task : TreePart) : p.stateAfter external (done ++ [task]) =
      (task.check.run (p.stateAfter external done)).2 := by
  unfold stateAfter
  rw [each_append]
  rfl

theorem mem_diagnostics_check {d : Diagnostic} (htasks : p.tasks = done ++ todo) :
    d ∈ (p.check external).diagnostics ↔
      d ∈ ((each TreePart.check todo).run (p.stateAfter external done)).2.diagnostics := by
  unfold check stateAfter
  rw [program_eq, htasks, each_append]
  exact List.mem_reverse

/-- What is reported where the check comes is reported in the end. -/
theorem Reaches.reported (h : p.Reaches external done todo inner c)
    (htasks : p.tasks = done ++ todo) :
    (inner.check.run c).2.diagnostics ⊆ (p.check external).diagnostics := by
  obtain ⟨⟨part, d⟩, hturn, hleads⟩ := h
  intro x hx
  exact (mem_diagnostics_check htasks).2 ((goesOn_inOrder hturn).reported (hleads.goesOn.reported hx))

end Program

/-- From its declaration on, a variable at the top is held to the type that it is declared with.
Let `x` be declared with a type that is known in the task `declaring`, and let nothing that is
checked after it define an `x`. Then the check reaches each plain assignment to `x` in the tasks
after it, wherever that stands in functions, methods and blocks. There `x` is in sight with the
declared type, and beside the faults in the value itself `Cannot assign` is reported for the value
exactly if the type that is found for it is known and is not assignable to the declared type. -/
theorem annotation_enforced {p : Program} {external : List TypedName}
    {before after : List TreePart} {declaring : TreePart} {decl : VariableDecl} {a : TypeExpr}
    {type : Ty} (htasks : p.tasks = before ++ declaring :: after)
    (hdeclaring : declaring.declaration? = some decl) (ha : decl.typeExpr = some a)
    (htype : ((resolve a).run (p.stateAfter external before)).1 = type) (hknown : type ≠ .unknown)
    (hfree : ∀ task ∈ after, task.Free decl.name) {task : TreePart} (htask : task ∈ after)
    {span : Span} {node : Node} {value : Expr}
    (hin : TreePart.Within (.stmt (.assignment span (.identifier node decl.name) .assign value))
      task) :
    let s := Stmt.assignment span (.identifier node decl.name) .assign value
    (∃ c, p.Reaches external (before ++ [declaring]) after (.stmt s) c) ∧
    ∀ c, p.Reaches external (before ++ [declaring]) after (.stmt s) c →
      let stored := (storedType node type value).run c
      let fault := TypeFault.notAssignable stored.1 type
      let reported := ((stmt s).run c).2.diagnostics
      c.scopes.lookup? decl.name = some type ∧
      (∀ d, d ∈ reported ↔ d ∈ stored.2.diagnostics ∨
        (d = .ofSpan .type fault.message value.span ∧
          stored.1 ≠ .unknown ∧ stored.1.assignable type = false)) ∧
      reported ⊆ (p.check external).diagnostics := by
  intro s
  have hdeclared : (p.stateAfter external (before ++ [declaring])).scopes.lookup? decl.name =
      some type := by
    rw [Program.stateAfter_concat, TreePart.lookup?_declaration hdeclaring ha, htype]
  have htasks' : p.tasks = (before ++ [declaring]) ++ after := by
    rw [htasks, List.append_assoc]
    rfl
  constructor
  · obtain ⟨d, hd⟩ := TreePart.exists_mem_inOrder htask
      (p.stateAfter external (before ++ [declaring]))
    have hturn : TreePart.Turnable (.stmt s) task :=
      ⟨rfl, fun _ h => TreePart.noConfusion h, by
        rintro _ ⟨⟩ x ⟨⟩
        exact hfree task htask⟩
    obtain ⟨c, hc⟩ := TreePart.exists_leadsTo hturn hin d
    exact ⟨c, (task, d), hd, hc⟩
  · intro c hc
    have hreported := hc.reported htasks'
    obtain ⟨⟨part, d⟩, hturn, hleads⟩ := hc
    have hpart : part ∈ after := TreePart.mem_of_mem_inOrder hturn
    have hd := TreePart.lookup?_inOrder hfree hknown hdeclared hturn
    have hlookup := (hleads.lookup? (hfree part hpart) hknown hd).2
    refine ⟨hlookup, fun x => ?_, hreported⟩
    rw [Check.stmt, assignment_of_known hlookup hknown]
    exact mem_expectStorable hknown

/-- `let x: Int = 0` -/
def numberDeclared : VariableDecl :=
  ⟨.letVar, "x", some (.named ⟨7, 10, 1, 8⟩ "Int"),
    some (.literal ⟨0, ⟨13, 14, 1, 14⟩⟩ (.number "0" .int))⟩

/-- A component with the method `set`, which stores a text in `x`. -/
def textSetter : Component :=
  ⟨"A", [], [.functionDecl ⟨31, 46, 3, 3⟩
    ⟨"set", [], none,
      ⟨[.assignment ⟨37, 44, 3, 9⟩ (.identifier ⟨1, ⟨37, 38, 3, 9⟩⟩ "x") .assign
        (.literal ⟨2, ⟨41, 44, 3, 13⟩⟩ (.string "s"))], ⟨35, 46, 3, 7⟩⟩,
      false, [], ⟨31, 46, 3, 3⟩⟩], [], ⟨15, 48, 2, 1⟩⟩

/-- The text does not fit into the number, though it is stored in a method. -/
theorem annotation_enforced_textSetter :
    let p : Program := ⟨[], [], [], [textSetter], [.variableDecl ⟨0, 14, 1, 1⟩ numberDeclared]⟩
    p.tasks = [] ++ .stmt (.variableDecl ⟨0, 14, 1, 1⟩ numberDeclared) ::
        [.component textSetter] ∧
      (TreePart.component textSetter).Free numberDeclared.name ∧
      .ofSpan .type (TypeFault.notAssignable .string .int).message ⟨41, 44, 3, 13⟩ ∈
        (p.check []).diagnostics := by
  intro p
  have htasks : p.tasks = [] ++ .stmt (.variableDecl ⟨0, 14, 1, 1⟩ numberDeclared) ::
      [.component textSetter] := rfl
  have htype : ((resolve (.named ⟨7, 10, 1, 8⟩ "Int")).run (p.stateAfter [] [])).1 = .int := rfl
  have hfree : (TreePart.component textSetter).Free numberDeclared.name := by decide
  refine ⟨htasks, hfree, ?_⟩
  have hin : TreePart.Within (.stmt (.assignment ⟨37, 44, 3, 9⟩
      (.identifier ⟨1, ⟨37, 38, 3, 9⟩⟩ numberDeclared.name) .assign
      (.literal ⟨2, ⟨41, 44, 3, 13⟩⟩ (.string "s")))) (.component textSetter) :=
    .head List.mem_cons_self (.head List.mem_cons_self (.head List.mem_cons_self
      (.single List.mem_cons_self)))
  obtain ⟨⟨c, hc⟩, henforced⟩ := annotation_enforced htasks rfl rfl htype (by decide)
    (List.forall_mem_singleton.2 hfree) List.mem_cons_self hin
  obtain ⟨-, hreported, hkept⟩ := henforced c hc
  have hmisfit : Ty.string ≠ .unknown ∧ Ty.string.assignable .int = false := by decide
  exact hkept ((hreported _).2 (.inr ⟨rfl, hmisfit⟩))

/-- A function at the top is checked before the declaration. The text that it stores first is taken
for what `x` holds, and the number, which would fit, is reported. -/
theorem check_reports_settledByFunction :
    (Analysis.ofSource? {} []
        (.ofString "let x: Int = 0\nfunction f() \x7b\n  x = \"s\"\n  x = 1\n\x7d")).map
        Analysis.diagnostics =
      some [.ofSpan .type (TypeFault.notAssignable .int .string).message ⟨46, 47, 4, 7⟩] := by
  decide +kernel

end ComponentLang
