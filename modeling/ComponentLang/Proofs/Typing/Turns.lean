import ComponentLang.Proofs.Typing.Settled.Program
import Mathlib.Data.List.Perm.Subperm

/-!
# The turns of a check

When a part is checked, the parts in it have their turns, each in the state that those before it
leave. `part.turns c` are the turns of the parts next in `part` that can hold statements, with their
states, when `part` is checked from `c`; `LeadsTo` is any number of such steps. What is reported in
a turn is reported in the end, and the check leads to every statement but for the plain assignments
that begin a piece of state of a component.
-/
namespace ComponentLang

open Check

/-! ## Parts that are checked one after another -/

namespace TreePart

/-- The check of a part by itself. -/
def check : TreePart → Check Unit
  | .program p => Check.program p
  | .importDecl item => Check.importDecl item
  | .exportDecl item => Check.exportDecl item
  | .component c => Check.component c
  | .function f => do
    let _ ← Check.function f
  | .block b => Check.block b
  | .stmt s => Check.stmt s
  | .expr e => do
    let _ ← Check.expr e
  | .markup m => Check.markup m
  | .tag t => Check.tag t
  | .attribute item => Check.attributeList [item]
  | .identifier .. | .valueBinding .. | .text .. => pure ()

/-- The turns of parts that are checked one after another from `c`. -/
def inOrder : List TreePart → Checking → List (TreePart × Checking)
  | [], _ => []
  | part :: rest, c => (part, c) :: inOrder rest (part.check.run c).2

end TreePart

/-- What is checked at the top of a program when everything is in sight, in this order. -/
def Program.tasks (p : Program) : List TreePart :=
  p.functions.map .function ++ (p.statements.map .stmt ++
    (p.exports.map .exportDecl ++ p.components.map .component))

namespace Check

theorem each_append {α : Type} (check : α → Check Unit) (items others : List α) :
    each check (items ++ others) = (do
      each check items
      each check others) := by
  induction items with
  | nil => rfl
  | cons a rest ih =>
      rw [List.cons_append, each, ih]
      rfl

theorem each_map {α β : Type} (check : β → Check Unit) (f : α → β) (items : List α) :
    each check (items.map f) = each (fun a => check (f a)) items := by
  induction items with
  | nil => rfl
  | cons a rest ih => rw [List.map_cons, each, each, ih]

theorem program_eq (p : Program) : program p = (do
    declare p
    each TreePart.check p.tasks) := by
  unfold program Program.tasks
  simp only [each_append, each_map]
  rfl

theorem stmts_eq_each (ss : List Stmt) : stmts ss = each TreePart.check (ss.map .stmt) := by
  rw [each_map]
  induction ss with
  | nil => rfl
  | cons s rest ih =>
      rw [Check.stmts, ih]
      rfl

/-! ## Turns -/

/-- The beginning of the check of a function, up to its body. -/
def enterFunction (f : Function) : Check Unit := do
  let types ← paramTypes f.params
  let declared ← resolve? f.returnType
  define f.name (.function types (declared.getD .any) f.isAsync)
  modify Checking.opened
  defineAll f.params types
  modify fun c => { c with returns := ⟨declared, []⟩ :: c.returns }

/-- Whether a member of a component begins a piece of its state, as a plain assignment to a name
that the component does not have yet. -/
def initializes (c : Checking) (s : Stmt) : Bool :=
  s.stateName?.any fun name => !c.scopes.definesHere name

/-- The turns of the members of a component that are not methods. -/
def memberTurns : List Stmt → Checking → List (TreePart × Checking)
  | [], _ => []
  | s :: rest, c =>
    let later := memberTurns rest ((members [s]).run c).2
    if isMethod s || initializes c s then later else (.stmt s, c) :: later

end Check

/-- The turns of the parts directly in a statement. A loop opens a scope for what is in it, and so
does a handler. -/
def Stmt.turns (s : Stmt) (c : Checking) : List (TreePart × Checking) :=
  match s with
  | .variableDecl .. | .assignment .. => []
  | .forLoop .. => TreePart.inOrder s.children c.opened
  | .forIn _ name iterable body =>
    let (type, after) := (Check.expr iterable).run c
    [(.block body, ((define name (Ty.ofElement type)).run after.opened).2)]
  | .tryStmt _ b handler cleanup | .asyncBlock _ b handler cleanup =>
    let after := ((Check.block b).run c).2
    let caught := handler.toList.map fun clause =>
      (.block clause.body, ((importNames clause.param.toList).run after.opened).2)
    (.block b, c) :: (caught ++
      TreePart.inOrder (cleanup.toList.map .block) ((Check.handler? handler).run after).2)
  | _ => TreePart.inOrder s.children c

/-- The turns of the parts next in a part. The methods of a component come after its other
members, and the body of a function comes in the scope of its parameters. -/
def TreePart.turns (part : TreePart) (c : Checking) : List (TreePart × Checking) :=
  match part with
  | .program p => inOrder p.tasks ((declare p).run c).2
  | .exportDecl item => inOrder [item.item.part] c
  | .component k =>
    let entered := ((declareMethods k.statements).run c.opened).2
    memberTurns k.statements entered ++
      inOrder ((k.statements.filter isMethod).map .stmt) ((members k.statements).run entered).2
  | .function f => inOrder (f.body.statements.map .stmt) ((enterFunction f).run c).2
  | .block b => inOrder (b.statements.map .stmt) c.opened
  | .stmt s => s.turns c
  | _ => []

/-- The check of a part from a state leads to another part in another state. -/
def LeadsTo : TreePart × Checking → TreePart × Checking → Prop :=
  Relation.ReflTransGen fun turn next => next ∈ turn.1.turns turn.2

/-! ## After a turn -/

namespace TreePart

/-- The numbers of the expressions in a part. -/
def ids (part : TreePart) : List Nat := part.walk.filterMap number?

theorem ids_eq (part : TreePart) :
    part.ids = part.number?.toList ++ part.children.flatMap ids := by
  unfold ids
  rw [walk_eq, List.filterMap_cons, List.filterMap_flatMap]
  cases part.number? <;> rfl

theorem numbers_flatMap_ids (parts : List TreePart) :
    {id | id ∈ parts.flatMap ids} = numbers (parts.flatMap walk) := by
  unfold numbers
  rw [List.filterMap_flatMap]
  rfl

/-- After `turn` the check goes on to `e`. The numbers for which types are noted from then on are,
like those in the part that has its turn, among `whole`, each once. -/
def GoesOn (turn : TreePart × Checking) (whole : List Nat) (e : Checking) : Prop :=
  ∃ later : List Nat, Checking.Grows {id | id ∈ later} (turn.1.check.run turn.2).2 e ∧
    (turn.1.ids ++ later).Subperm whole

variable {turn : TreePart × Checking} {whole others : List Nat} {ids' : Set Nat} {d e : Checking}

theorem GoesOn.mono (h : GoesOn turn whole e) (hothers : whole.Subperm others) :
    GoesOn turn others e := by
  obtain ⟨later, hlater, hids⟩ := h
  exact ⟨later, hlater, hids.trans hothers⟩

theorem GoesOn.trans (h : GoesOn turn whole d) (hde : Checking.Grows {id | id ∈ others} d e) :
    GoesOn turn (whole ++ others) e := by
  obtain ⟨later, hlater, hids⟩ := h
  refine ⟨later ++ others, ?_, ?_⟩
  · have hunion : {id | id ∈ later ++ others} = {id | id ∈ later} ∪ {id | id ∈ others} := by
      ext id
      exact List.mem_append
    rw [hunion]
    exact hlater.trans hde
  · rw [← List.append_assoc]
    exact hids.append (.refl others)

/-- What comes last notes nothing. -/
theorem GoesOn.ends (h : GoesOn turn whole d) (hde : Checking.Grows ∅ d e) : GoesOn turn whole e := by
  have hnil : (∅ : Set Nat) = {id | id ∈ ([] : List Nat)} := by simp
  rw [← List.append_nil whole]
  exact h.trans (hnil ▸ hde)

/-- Then a scope is left. -/
theorem GoesOn.pop (h : GoesOn turn whole e) :
    GoesOn turn whole { e with scopes := e.scopes.pop } :=
  h.ends (Checking.grows_of_eq rfl rfl (List.prefix_refl _))

theorem goesOn_self (part : TreePart) (c : Checking) :
    GoesOn (part, c) part.ids (part.check.run c).2 := by
  refine ⟨[], ?_, by rw [List.append_nil]⟩
  have hnil : (∅ : Set Nat) = {id | id ∈ ([] : List Nat)} := by simp
  exact hnil ▸ Checking.grows_of_eq rfl rfl (List.prefix_refl _)

/-- What is reported in a turn is reported in the end. -/
theorem GoesOn.reported (h : GoesOn turn whole e) :
    (turn.1.check.run turn.2).2.diagnostics ⊆ e.diagnostics := by
  obtain ⟨later, hlater, -⟩ := h
  exact hlater.diagnostics_subset

end TreePart

open Checking TreePart

namespace Check

variable {c d : Checking} {inner part : TreePart}

theorem leaves_check : ∀ part : TreePart, Leaves {id | id ∈ part.ids} part.check
  | .program p => leaves_program p
  | .importDecl item =>
    (leaves_importDecl item).of_eq ((numbers_cons _ rfl).trans numbers_nil).symm
  | .exportDecl item => leaves_exportDecl item
  | .component k => leaves_component k
  | .function f => (leaves_function f).before fun _ => leaves_pure ()
  | .block b => leaves_block b
  | .stmt s => leaves_stmt s
  | .expr e => (leaves_expr e).before fun _ => leaves_pure ()
  | .markup m => leaves_markup m
  | .tag t => leaves_tag t
  | .attribute item => leaves_attributeList [item]
  | .identifier .. | .valueBinding .. | .text .. =>
    (leaves_pure ()).of_eq ((numbers_cons _ rfl).trans numbers_nil).symm

theorem leaves_each_check (parts : List TreePart) :
    Leaves {id | id ∈ parts.flatMap ids} (each TreePart.check parts) := by
  refine (leaves_each leaves_check parts).of_eq ?_
  ext id
  simp

theorem goesOn_inOrder {parts : List TreePart} (h : (inner, d) ∈ inOrder parts c) :
    GoesOn (inner, d) (parts.flatMap ids) ((each TreePart.check parts).run c).2 := by
  induction parts generalizing c with
  | nil => cases h
  | cons part rest ih =>
      rcases List.mem_cons.1 h with heq | hlater
      · cases heq
        exact (goesOn_self inner d).trans (leaves_each_check rest _)
      · exact (ih hlater).mono (List.sublist_append_right _ _).subperm

theorem members_cons (s : Stmt) (rest : List Stmt) (c : Checking) :
    ((members (s :: rest)).run c).2 = ((members rest).run ((members [s]).run c).2).2 := by
  cases s with
  | assignment span target op value =>
      cases target with
      | identifier node name =>
          cases op with
          | assign =>
              rw [members_assignment, members_assignment]
              split <;> rfl
          | _ => rfl
      | _ => rfl
  | _ => rfl

theorem members_singleton {s : Stmt} (hmethod : isMethod s = false)
    (hinitializes : initializes c s = false) : ((members [s]).run c).2 = ((stmt s).run c).2 := by
  cases s with
  | functionDecl span f => cases hmethod
  | assignment span target op value =>
      cases target with
      | identifier node name =>
          cases op with
          | assign =>
              have hhere : c.scopes.definesHere name = true := by
                simpa [initializes, Stmt.stateName?] using hinitializes
              rw [members_assignment, if_pos hhere]
              rfl
          | _ => rfl
      | _ => rfl
  | _ => rfl

theorem methods_eq_each (ss : List Stmt) (c : Checking) : ((methods ss).run c).2 =
    ((each TreePart.check ((ss.filter isMethod).map .stmt)).run c).2 := by
  induction ss generalizing c with
  | nil => rfl
  | cons s rest ih =>
      cases s with
      | functionDecl span f =>
          rw [Check.methods]
          exact ih _
      | _ => exact ih c

theorem goesOn_memberTurns {ss : List Stmt} (h : (inner, d) ∈ memberTurns ss c) :
    GoesOn (inner, d) (((ss.filter fun s => !isMethod s).map TreePart.stmt).flatMap ids)
      ((members ss).run c).2 := by
  induction ss generalizing c with
  | nil => cases h
  | cons s rest ih =>
      rw [members_cons]
      unfold memberTurns at h
      dsimp only at h
      have hless : (((rest.filter fun s => !isMethod s).map TreePart.stmt).flatMap ids).Subperm
          ((((s :: rest).filter fun s => !isMethod s).map TreePart.stmt).flatMap ids) :=
        ((((List.sublist_cons_self s rest).filter _).map _).flatMap _).subperm
      split at h
      next => exact (ih h).mono hless
      next hturn =>
        rcases List.mem_cons.1 h with heq | hlater
        · cases heq
          rw [Bool.or_eq_true, not_or, Bool.not_eq_true, Bool.not_eq_true] at hturn
          rw [members_singleton hturn.1 hturn.2, List.filter_cons_of_pos (by rw [hturn.1]; rfl)]
          have hrest := leaves_members rest ((stmt s).run d).2
          rw [← flatMap_walk_stmts, ← numbers_flatMap_ids] at hrest
          exact (goesOn_self (.stmt s) d).trans hrest
        · exact (ih hlater).mono hless

theorem leaves_handler?_ids (handler : Option CatchClause) :
    Leaves {id | id ∈ (handler.toList.map fun clause => TreePart.block clause.body).flatMap ids}
      (handler? handler) := by
  refine (leaves_handler? handler).of_eq ?_
  rw [numbers_flatMap_ids]
  cases handler with
  | none => rfl
  | some clause =>
      obtain ⟨param, body⟩ := clause
      rw [Option.toList_some, List.map_singleton, List.flatMap_singleton]
      rfl

theorem leaves_block?_ids (b : Option Block) :
    Leaves {id | id ∈ (b.toList.map TreePart.block).flatMap ids} (block? b) := by
  refine (leaves_block? b).of_eq ?_
  rw [numbers_flatMap_ids]
  cases b with
  | none => rfl
  | some b =>
      rw [Option.toList_some, List.map_singleton, List.flatMap_singleton]
      rfl

theorem goesOn_turns_stmt {s : Stmt} (h : (inner, d) ∈ s.turns c) :
    GoesOn (inner, d) (s.children.flatMap ids) ((stmt s).run c).2 := by
  cases s with
  | variableDecl | assignment => cases h
  | forLoop span init test update body =>
      rw [Check.stmt]
      have hend := (goesOn_inOrder h).pop
      cases init <;> cases test <;> cases update <;> exact hend
  | forIn span name iterable body =>
      cases List.mem_singleton.1 h
      rw [Check.stmt]
      refine (goesOn_self (.block body) _).pop.mono ?_
      rw [Stmt.children, List.flatMap_cons, List.flatMap_singleton]
      exact (List.sublist_append_right _ _).subperm
  | tryStmt span b handler cleanup | asyncBlock span b handler cleanup =>
      rw [Check.stmt]
      have hhandler := leaves_handler?_ids handler ((block b).run c).2
      have hcleanup := leaves_block?_ids cleanup ((handler? handler).run ((block b).run c).2).2
      rw [Stmt.children, List.cons_append, List.flatMap_cons, List.flatMap_append]
      rcases List.mem_cons.1 h with heq | h
      · cases heq
        rw [← List.append_assoc]
        exact ((goesOn_self (.block b) c).trans hhandler).trans hcleanup
      refine GoesOn.mono ?_ (List.sublist_append_right _ _).subperm
      rcases List.mem_append.1 h with hcaught | hlast
      · obtain ⟨⟨param, body⟩, hclause, heq⟩ := List.mem_map.1 hcaught
        cases heq
        cases Option.mem_toList.1 hclause
        rw [Option.toList_some, List.map_singleton, List.flatMap_singleton]
        exact (goesOn_self (.block body) _).pop.trans hcleanup
      · refine GoesOn.mono ?_ (List.sublist_append_right _ _).subperm
        have hend := goesOn_inOrder hlast
        cases cleanup <;> exact hend
  | ifElse span test consequent alternate =>
      rw [Check.stmt]
      have hend := goesOn_inOrder h
      cases alternate <;> exact hend
  | returnStmt span value =>
      have hend := goesOn_inOrder h
      cases value with
      | none => cases h
      | some e =>
          rw [Check.stmt]
          exact hend.ends (leaves_noteReturn _ _ _)
  | _ =>
      rw [Check.stmt]
      exact goesOn_inOrder h

/-- The methods of a component come after its other members. -/
theorem perm_ids_component (k : Component) :
    List.Perm ((((k.statements.filter fun s => !isMethod s).map TreePart.stmt).flatMap ids ++
      ((k.statements.filter isMethod).map TreePart.stmt).flatMap ids) ++
        (k.body.map TreePart.markup).flatMap ids) (TreePart.component k).ids := by
  rw [ids_eq, children, List.flatMap_append, ← List.flatMap_append, ← List.map_append]
  refine List.Perm.append_right _ (List.Perm.flatMap_right _ (List.Perm.map _ ?_))
  exact List.perm_append_comm.trans (List.filter_append_perm isMethod k.statements)

/-- Functions come first, and components last. -/
theorem subperm_ids_program (p : Program) :
    (p.tasks.flatMap ids).Subperm (TreePart.program p).ids := by
  rw [ids_eq, children, List.flatMap_append, ← List.append_assoc]
  refine List.Subperm.trans (List.Perm.subperm ?_) (List.sublist_append_right _ _).subperm
  refine List.perm_iff_count.2 fun id => ?_
  simp only [Program.tasks, List.flatMap_append, List.count_append]
  omega

theorem goesOn_turns {part : TreePart} (h : (inner, d) ∈ part.turns c) :
    GoesOn (inner, d) part.ids (part.check.run c).2 := by
  match part with
  | .program p =>
    rw [TreePart.check, program_eq]
    exact (goesOn_inOrder h).mono (subperm_ids_program p)
  | .exportDecl ⟨isDefault, item, span⟩ =>
    have hend := goesOn_inOrder h
    rw [TreePart.check, ids_eq]
    cases item <;> (rw [Check.exportDecl]; exact hend)
  | .component ⟨name, modifiers, statements, body, span⟩ =>
    have hmethods : Leaves _ (methods statements) := leaves_methods statements
    have hmarkups : Leaves _ (markups body) := leaves_markups body
    rw [← flatMap_walk_stmts, ← numbers_flatMap_ids] at hmethods
    rw [← flatMap_walk_markups, ← numbers_flatMap_ids] at hmarkups
    refine GoesOn.mono ?_ (perm_ids_component _).subperm
    rw [TreePart.check, Check.component]
    refine GoesOn.pop (GoesOn.ends (GoesOn.trans ?_ (hmarkups _)) (leaves_summarize _ _ _ _))
    rcases List.mem_append.1 h with hmember | hmethod
    · exact (goesOn_memberTurns hmember).trans (hmethods _)
    · have hend := goesOn_inOrder hmethod
      rw [← methods_eq_each] at hend
      exact hend.mono (List.sublist_append_right _ _).subperm
  | .function ⟨name, params, returnType, ⟨statements, blockSpan⟩, isAsync, modifiers, span⟩ =>
    have hend := goesOn_inOrder h
    rw [← stmts_eq_each] at hend
    rw [TreePart.check, Check.function, ids_eq, children, List.flatMap_singleton, ids_eq]
    exact hend.ends (grows_of_eq rfl rfl (List.prefix_refl _))
  | .block ⟨statements, span⟩ =>
    have hend := (goesOn_inOrder h).pop
    rw [← stmts_eq_each] at hend
    rw [TreePart.check, Check.block, ids_eq]
    exact hend
  | .stmt s =>
    rw [ids_eq]
    exact goesOn_turns_stmt h
  | .importDecl .. | .expr .. | .markup .. | .tag .. | .attribute .. | .identifier ..
  | .valueBinding .. | .text .. => cases h

end Check

/-- What comes after a turn, and after the turns to which it belongs. -/
theorem LeadsTo.goesOn {turn next : TreePart × Checking} (h : LeadsTo turn next) :
    GoesOn next turn.1.ids (turn.1.check.run turn.2).2 := by
  induction h with
  | refl => exact goesOn_self _ _
  | tail _ hturn ih =>
      obtain ⟨later, hlater, hids⟩ := ih
      exact ((goesOn_turns hturn).trans hlater).mono hids

theorem LeadsTo.made {turn next : TreePart × Checking} (h : LeadsTo turn next) :
    (next.1.check.run next.2).2.summaries <+: (turn.1.check.run turn.2).2.summaries := by
  obtain ⟨later, hlater, -⟩ := h.goesOn
  exact hlater.made

/-- The types that a turn notes are those that are found in the end, if no two expressions have one
number. -/
theorem LeadsTo.get? {turn next : TreePart × Checking} (h : LeadsTo turn next)
    (hnodup : turn.1.ids.Nodup) {id : Nat} (hid : id ∈ next.1.ids) :
    (turn.1.check.run turn.2).2.types.get? id = (next.1.check.run next.2).2.types.get? id := by
  obtain ⟨later, hlater, whole, hperm, hsublist⟩ := h.goesOn
  refine hlater.get?_of_notMem fun hmem => ?_
  have happend := hperm.nodup_iff.1 (hnodup.sublist hsublist)
  exact (List.nodup_append.1 happend).2.2 id hid id hmem rfl

/-! ## Where the turns are -/

namespace TreePart

variable {part inner child next : TreePart} {c d : Checking} {x : String}

theorem mem_of_mem_inOrder {parts : List TreePart} (h : (next, d) ∈ inOrder parts c) :
    next ∈ parts := by
  induction parts generalizing c with
  | nil => cases h
  | cons part rest ih =>
      rcases List.mem_cons.1 h with heq | hlater
      · cases heq
        exact List.mem_cons_self
      · exact List.mem_cons_of_mem _ (ih hlater)

theorem exists_mem_inOrder {parts : List TreePart} (h : next ∈ parts) (c : Checking) :
    ∃ d, (next, d) ∈ inOrder parts c := by
  induction parts generalizing c with
  | nil => cases h
  | cons part rest ih =>
      rcases List.mem_cons.1 h with rfl | hlater
      · exact ⟨c, List.mem_cons_self⟩
      · obtain ⟨d, hd⟩ := ih hlater (part.check.run c).2
        exact ⟨d, List.mem_cons_of_mem _ hd⟩

theorem mem_of_mem_memberTurns {ss : List Stmt} (h : (next, d) ∈ memberTurns ss c) :
    ∃ s ∈ ss, next = .stmt s := by
  induction ss generalizing c with
  | nil => cases h
  | cons s rest ih =>
      unfold memberTurns at h
      dsimp only at h
      have hrest : (next, d) ∈ memberTurns rest ((members [s]).run c).2 →
          ∃ s' ∈ s :: rest, next = .stmt s' := by
        intro hlater
        obtain ⟨s', hs', heq⟩ := ih hlater
        exact ⟨s', List.mem_cons_of_mem _ hs', heq⟩
      split at h
      · exact hrest h
      · rcases List.mem_cons.1 h with heq | hlater
        · cases heq
          exact ⟨s, List.mem_cons_self, rfl⟩
        · exact hrest hlater

theorem exists_mem_memberTurns {ss : List Stmt} {s : Stmt} (hs : s ∈ ss)
    (hmethod : isMethod s = false) (hstate : s.stateName? = none) (c : Checking) :
    ∃ d, (TreePart.stmt s, d) ∈ memberTurns ss c := by
  induction ss generalizing c with
  | nil => cases hs
  | cons first rest ih =>
      unfold memberTurns
      dsimp only
      rcases List.mem_cons.1 hs with rfl | hlater
      · have hturn : ¬ (isMethod s || initializes c s) = true := by
          simp [hmethod, initializes, hstate]
        rw [if_neg hturn]
        exact ⟨c, List.mem_cons_self⟩
      · obtain ⟨d, hd⟩ := ih hlater ((members [first]).run c).2
        split
        · exact ⟨d, hd⟩
        · exact ⟨d, List.mem_cons_of_mem _ hd⟩

/-- Whether there can be statements in a part. -/
def holdsStatements : TreePart → Bool
  | .program .. | .exportDecl .. | .component .. | .function .. | .block .. | .stmt .. => true
  | _ => false

theorem holdsStatements_of_child (h : child ∈ part.children)
    (hchild : child.holdsStatements = true) : part.holdsStatements = true := by
  cases part with
  | expr e => cases e <;> grind [children, Expr.children, holdsStatements]
  | markup m => cases m <;> grind [children, Markup.children, holdsStatements]
  | tag t => grind [children, holdsStatements]
  | «attribute» item => grind [children, holdsStatements]
  | importDecl | identifier | valueBinding | text => cases h
  | _ => rfl

theorem Within.holdsStatements (h : inner.Within part) (hinner : inner.holdsStatements = true) :
    part.holdsStatements = true := by
  induction h using Relation.ReflTransGen.head_induction_on with
  | refl => exact hinner
  | head hchild _ ih => exact holdsStatements_of_child hchild ih

theorem holdsStatements_of_assignment {s : Stmt} {name : String} (h : s.stateName? = some name)
    (hchild : child ∈ s.children) : child.holdsStatements = false := by
  unfold Stmt.stateName? at h
  split at h
  · rw [Stmt.children, List.mem_cons, List.mem_singleton] at hchild
    rcases hchild with rfl | rfl <;> rfl
  · cases h

theorem child_of_mem_turns_stmt {s : Stmt} (h : (next, d) ∈ s.turns c) : next ∈ s.children := by
  cases s with
  | variableDecl | assignment => cases h
  | forIn span name iterable body =>
      obtain ⟨rfl, -⟩ := Prod.mk.inj (List.mem_singleton.1 h)
      exact List.mem_cons_of_mem _ List.mem_cons_self
  | tryStmt span b handler cleanup | asyncBlock span b handler cleanup =>
      rcases List.mem_cons.1 h with heq | h
      · cases heq
        exact List.mem_cons_self
      · refine List.mem_cons_of_mem _ ?_
        rcases List.mem_append.1 h with hcaught | hcleanup
        · obtain ⟨clause, hclause, heq⟩ := List.mem_map.1 hcaught
          cases heq
          exact List.mem_append_left _ (List.mem_map_of_mem hclause)
        · exact List.mem_append_right _ (mem_of_mem_inOrder hcleanup)
  | forLoop => exact mem_of_mem_inOrder h
  | _ => exact mem_of_mem_inOrder (c := c) h

/-- A turn goes to a part that stands in one of the children. -/
theorem within_of_mem_turns (h : (next, d) ∈ part.turns c) :
    ∃ child ∈ part.children, next.Within child := by
  match part with
  | .program p =>
    refine ⟨next, ?_, .refl⟩
    have hnext := mem_of_mem_inOrder h
    simp only [Program.tasks, List.mem_append] at hnext
    simp only [children, List.mem_append]
    tauto
  | .exportDecl item => exact ⟨next, mem_of_mem_inOrder h, .refl⟩
  | .component k =>
    rcases List.mem_append.1 h with hmember | hmethod
    · obtain ⟨s, hs, rfl⟩ := mem_of_mem_memberTurns hmember
      exact ⟨.stmt s, List.mem_append_left _ (List.mem_map_of_mem hs), .refl⟩
    · obtain ⟨s, hs, rfl⟩ := List.mem_map.1 (mem_of_mem_inOrder hmethod)
      have hs := List.mem_of_mem_filter hs
      exact ⟨.stmt s, List.mem_append_left _ (List.mem_map_of_mem hs), .refl⟩
  | .function f =>
    exact ⟨.block f.body, List.mem_cons_self, .single (mem_of_mem_inOrder h)⟩
  | .block b => exact ⟨next, mem_of_mem_inOrder h, .refl⟩
  | .stmt s => exact ⟨next, child_of_mem_turns_stmt h, .refl⟩
  | .importDecl .. | .expr .. | .markup .. | .tag .. | .attribute .. | .identifier ..
  | .valueBinding .. | .text .. => cases h

theorem Within.length_walk_le (h : inner.Within part) :
    inner.walk.length ≤ part.walk.length := by
  induction h with
  | refl => exact Nat.le_refl _
  | tail _ hinner ih => exact Nat.le_trans (Nat.le_of_lt (length_walk_lt hinner)) ih

/-! ## Every part with statements has its turn -/

/-- The part can hold statements, but is no block, as the body of a function has no turn of its own.
It is no assignment to a name that `part` defines. -/
structure Turnable (inner part : TreePart) : Prop where
  holds : inner.holdsStatements = true
  noBlock : ∀ b, inner ≠ .block b
  free : ∀ s, inner = .stmt s → ∀ x ∈ s.stateName?, part.Free x

theorem Turnable.of_within (h : Turnable inner part) (hwithin : child.Within part) :
    Turnable inner child :=
  ⟨h.holds, h.noBlock, fun s hs x hx => (h.free s hs x hx).within hwithin⟩

section Next

variable (ht : inner.Within child)
include ht

theorem exists_mem_inOrder_within {parts : List TreePart} (hchild : child ∈ parts)
    (c : Checking) : ∃ next d, (next, d) ∈ inOrder parts c ∧ inner.Within next := by
  obtain ⟨d, hd⟩ := exists_mem_inOrder hchild c
  exact ⟨child, d, hd, ht⟩

theorem exists_mem_turns_component {k : Component}
    (hinner : Turnable inner (component k)) (hchild : child ∈ (component k).children)
    (c : Checking) :
    ∃ next d, (next, d) ∈ (component k).turns c ∧ inner.Within next := by
  rcases List.mem_append.1 hchild with hstatement | hmarkup
  · obtain ⟨s, hs, rfl⟩ := List.mem_map.1 hstatement
    cases hmethod : isMethod s with
    | true =>
        have hmem := List.mem_map_of_mem (f := TreePart.stmt) (List.mem_filter.2 ⟨hs, hmethod⟩)
        obtain ⟨next, d, hd, ht⟩ := exists_mem_inOrder_within ht hmem _
        exact ⟨next, d, List.mem_append_right _ hd, ht⟩
    | false =>
        cases hname : s.stateName? with
        | none =>
            obtain ⟨d, hd⟩ := exists_mem_memberTurns hs hmethod hname _
            exact ⟨.stmt s, d, List.mem_append_left _ hd, ht⟩
        | some name =>
            -- An assignment holds no other statement, and `inner` is none to a name of the component.
            rcases ht.cases_head with rfl | ⟨inside, hinside, htinside⟩
            · have hfree := (hinner.free s rfl name hname).self
              exact absurd (List.mem_filterMap.2 ⟨s, hs, hname⟩) hfree
            · have hinside := holdsStatements_of_assignment hname hinside
              rw [Within.holdsStatements htinside hinner.holds] at hinside
              cases hinside
  · obtain ⟨m, -, rfl⟩ := List.mem_map.1 hmarkup
    cases ht.holdsStatements hinner.holds

theorem exists_mem_turns_stmt (hinner : inner.holdsStatements = true) {s : Stmt}
    (hchild : child ∈ s.children) (c : Checking) :
    ∃ next d, (next, d) ∈ s.turns c ∧ inner.Within next := by
  have hholds : child.holdsStatements = true := ht.holdsStatements hinner
  cases s with
  | variableDecl span decl =>
      obtain ⟨e, -, rfl⟩ := List.mem_map.1 hchild
      cases hholds
  | assignment span target op value =>
      rw [Stmt.children, List.mem_cons, List.mem_singleton] at hchild
      rcases hchild with rfl | rfl <;> cases hholds
  | forIn span name iterable body =>
      rcases List.mem_cons.1 hchild with rfl | hbody
      · cases hholds
      · cases List.mem_singleton.1 hbody
        exact ⟨_, _, List.mem_singleton_self _, ht⟩
  | tryStmt span b handler cleanup | asyncBlock span b handler cleanup =>
      rcases List.mem_cons.1 hchild with rfl | hrest
      · exact ⟨_, _, List.mem_cons_self, ht⟩
      · rcases List.mem_append.1 hrest with hcaught | hcleanup
        · obtain ⟨clause, hclause, rfl⟩ := List.mem_map.1 hcaught
          exact ⟨_, _, List.mem_cons_of_mem _ (List.mem_append_left _
            (List.mem_map_of_mem hclause)), ht⟩
        · obtain ⟨next, d, hd, ht⟩ := exists_mem_inOrder_within ht hcleanup _
          exact ⟨next, d, List.mem_cons_of_mem _ (List.mem_append_right _ hd), ht⟩
  | forLoop => exact exists_mem_inOrder_within ht hchild c.opened
  | _ => exact exists_mem_inOrder_within ht hchild c

/-- What stands in a part is in one of the parts that have their turns next. -/
theorem exists_mem_turns (hinner : Turnable inner part) (hchild : child ∈ part.children)
    (c : Checking) : ∃ next d, (next, d) ∈ part.turns c ∧ inner.Within next := by
  have hholds : child.holdsStatements = true := ht.holdsStatements hinner.holds
  match part with
  | .program p =>
    refine exists_mem_inOrder_within ht ?_ _
    simp only [children, List.mem_append] at hchild
    simp only [Program.tasks, List.mem_append]
    rcases hchild with himport | hchild
    · obtain ⟨item, -, rfl⟩ := List.mem_map.1 himport
      cases hholds
    · tauto
  | .exportDecl item => exact exists_mem_inOrder_within ht hchild c
  | .component k => exact exists_mem_turns_component ht hinner hchild c
  | .function f =>
    cases List.mem_singleton.1 hchild
    rcases ht.cases_head with rfl | ⟨next, hnext, ht⟩
    · exact absurd rfl (hinner.noBlock f.body)
    · exact exists_mem_inOrder_within ht hnext _
  | .block b => exact exists_mem_inOrder_within ht hchild _
  | .stmt s => exact exists_mem_turns_stmt ht hinner.holds hchild c
  | .importDecl .. | .identifier .. | .valueBinding .. | .text .. => cases hchild
  | .expr .. | .markup .. | .tag .. | .attribute .. =>
    cases holdsStatements_of_child hchild hholds

end Next

/-- The check leads to every part that can hold statements, but for the bodies of functions and for
the plain assignments that begin a piece of state of a component. -/
theorem exists_leadsTo (hinner : Turnable inner part) (ht : inner.Within part) (c : Checking) :
    ∃ d, LeadsTo (part, c) (inner, d) := by
  -- A turn goes to a part with a shorter walk.
  induction hlength : part.walk.length using Nat.strongRecOn generalizing part c with
  | _ length ih =>
      rcases ht.cases_head with rfl | ⟨child, hchild, htchild⟩
      · exact ⟨c, .refl⟩
      · obtain ⟨next, e, hturn, htnext⟩ := exists_mem_turns htchild hinner hchild c
        obtain ⟨inside, hinside, hnext⟩ := within_of_mem_turns hturn
        have hless : next.walk.length < length :=
          hlength ▸ Nat.lt_of_le_of_lt hnext.length_walk_le (length_walk_lt hinside)
        have hnext' : Turnable inner next := hinner.of_within (.head hinside hnext)
        obtain ⟨d, hd⟩ := ih _ hless hnext' htnext e rfl
        exact ⟨d, .head hturn hd⟩

end TreePart

end ComponentLang
