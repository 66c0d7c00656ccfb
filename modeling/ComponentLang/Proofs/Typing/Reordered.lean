import ComponentLang.Proofs.Typing.Local.Declare

/-!
# The order of declarations

If the functions at the top say what they return, and no variable is declared at the top, then
checking a function or a component leaves what is in sight as it finds it. What is found for each of
them depends only on what is in sight, so that functions may stand in any order, and components too.
-/
namespace ComponentLang

open Scopes Checking

mutual

/-- Whether a statement declares a variable where it stands, exported or not. -/
def Stmt.declaresVariable : Stmt → Bool
  | .variableDecl .. => true
  | .exportDecl _ item => item.declaresVariable
  | .ifElse _ _ _ alternate => Stmt.declaresVariable? alternate
  | _ => false

def Stmt.declaresVariable? : Option Stmt → Bool
  | none => false
  | some s => s.declaresVariable

def Export.declaresVariable : Export → Bool
  | ⟨_, .statement s, _⟩ => s.declaresVariable
  | _ => false

end

namespace Check

variable {α : Type} {c d : Checking}

/-! ## Statements that declare no variables -/

/-- Types are found for all names at the top. -/
def KeepsFirm (p : Check α) : Prop :=
  ∀ c, c.AtTop → c.Firm → (p.run c).2.AtTop ∧ (p.run c).2.Firm

theorem keepsFirm_of_local {p : Check α} (h : Local .all ∅ p) : KeepsFirm p :=
  fun c hc hfirm => ⟨(h.frames c).atTop hc, (h.frames c).firm hfirm nofun⟩

theorem KeepsFirm.bind {β : Type} {p : Check α} {f : α → Check β} (hp : KeepsFirm p)
    (hf : ∀ a, KeepsFirm (f a)) : KeepsFirm (p >>= f) := by
  intro c hc hfirm
  obtain ⟨hc, hfirm⟩ := hp c hc hfirm
  exact hf _ _ hc hfirm

theorem keepsFirm_each {check : α → Check Unit} {items : List α}
    (h : ∀ a ∈ items, KeepsFirm (check a)) : KeepsFirm (each check items) := by
  induction items with
  | nil => exact fun c hc hfirm => ⟨hc, hfirm⟩
  | cons a rest ih =>
      rw [List.forall_mem_cons] at h
      exact h.1.bind fun _ => ih h.2

theorem keepsFirm_function (f : Function) : KeepsFirm (function f) := by
  intro c hc hfirm
  have hframes := (local_all_function f).frames c
  refine ⟨hframes.atTop hc, hframes.firm hfirm ?_⟩
  rintro y rfl
  rw [outermost_function f hc]
  exact fun heq => function_ne_unknown f c (Option.some.inj heq)

theorem keepsFirm_importNames (names : List String) : KeepsFirm (importNames names) := by
  intro c hc hfirm
  have hnames := declares_importNames hc names
  refine ⟨hnames.atTop hc, hnames.firm hfirm ?_⟩
  intro t ht
  obtain ⟨name, -, rfl⟩ := List.mem_map.1 ht
  exact nofun

theorem local_all_stmt {s : Stmt} (h : s.declared = []) : Local .all ∅ (stmt s) :=
  local_stmt (fun _ => trivial) s ∅ (by rw [h]; exact nofun)

mutual

theorem keepsFirm_stmt : ∀ s : Stmt, s.declaresVariable = false → KeepsFirm (stmt s)
  | .variableDecl .., h => by
    rw [Stmt.declaresVariable] at h
    cases h
  | .functionDecl span f, _ => by
    rw [Check.stmt]
    exact (keepsFirm_function f).bind fun _ => keepsFirm_of_local (local_pure ())
  | .importDecl span item, _ => by
    rw [Check.stmt]
    exact keepsFirm_importNames _
  | .exportDecl span item, h => by
    rw [Check.stmt]
    rw [Stmt.declaresVariable] at h
    exact keepsFirm_exportDecl item h
  | .ifElse span test consequent alternate, h => by
    rw [Check.stmt]
    rw [Stmt.declaresVariable] at h
    have htest : Local .all ∅ (expr test) :=
      local_expr test (View.sees_of_all (fun _ => trivial) _)
    exact (keepsFirm_of_local htest).bind fun _ =>
      (keepsFirm_of_local (local_block (fun _ => trivial) consequent ∅)).bind fun _ =>
        keepsFirm_stmt? alternate h
  | .expression .., _ | .block .., _ | .assignment .., _ | .whileLoop .., _ | .forLoop .., _
  | .forIn .., _ | .returnStmt .., _ | .breakStmt .., _ | .continueStmt .., _ | .tryStmt .., _
  | .throwStmt .., _ | .asyncBlock .., _ | .error .., _ =>
    keepsFirm_of_local (local_all_stmt (by simp [Stmt.declared]))

theorem keepsFirm_stmt? : ∀ s : Option Stmt, Stmt.declaresVariable? s = false →
    KeepsFirm (stmt? s)
  | none, _ => keepsFirm_of_local (local_pure ())
  | some s, h => keepsFirm_stmt s h

theorem keepsFirm_exportDecl : ∀ e : Export, e.declaresVariable = false →
    KeepsFirm (exportDecl e)
  | ⟨isDefault, .function f, span⟩, _ => by
    rw [Check.exportDecl]
    exact (keepsFirm_function f).bind fun _ => keepsFirm_of_local (local_pure ())
  | ⟨isDefault, .component k, span⟩, _ => by
    rw [Check.exportDecl]
    exact keepsFirm_of_local (local_component (fun _ => trivial) k ∅)
  | ⟨isDefault, .statement s, span⟩, h => by
    rw [Check.exportDecl]
    rw [Export.declaresVariable] at h
    exact keepsFirm_stmt s h

end

/-! ## The parts of a program -/

/-- The check of a function at the top. -/
def functionTask (f : Function) : Check Unit := do
  let _ ← function f

/-- What is checked between the functions and the components. -/
def between (p : Program) : Check Unit := do
  each stmt p.statements
  each exportDecl p.exports

theorem program_eq_tasks (p : Program) : program p = (do
    declare p
    each functionTask p.functions
    between p
    each component p.components) := by
  unfold program between
  simp only [bind_assoc]
  rfl

theorem local_functionTask (f : Function) : Local .all {f.name} (functionTask f) :=
  (local_all_function f).bind fun _ => local_pure ()

theorem local_between (p : Program) : Local .all Set.univ (between p) := by
  have hstatements : Local .all Set.univ (each stmt p.statements) :=
    local_each fun s _ => local_stmt (fun _ => trivial) s _ fun y _ => Set.mem_univ y
  exact hstatements.bind fun _ => local_each fun e _ =>
    local_exportDecl (fun _ => trivial) e _ fun y _ => Set.mem_univ y

theorem keepsFirm_between {p : Program}
    (hstatements : ∀ s ∈ p.statements, s.declaresVariable = false)
    (hexports : ∀ e ∈ p.exports, e.declaresVariable = false) : KeepsFirm (between p) :=
  (keepsFirm_each fun s hs => keepsFirm_stmt s (hstatements s hs)).bind fun _ =>
    keepsFirm_each fun e he => keepsFirm_exportDecl e (hexports e he)

theorem declare_of_no_variables {p : Program} {external : List TypedName}
    (h : ∀ s ∈ p.statements, s.declaresVariable = false) :
    ((declare p).run (.start external)).2 = afterNames p external := by
  have hnothing : ∀ ss : List Stmt, (∀ s ∈ ss, s.declaresVariable = false) →
      each declareVariable ss = pure () := by
    intro ss hss
    induction ss with
    | nil => rfl
    | cons s rest ih =>
        rw [List.forall_mem_cons] at hss
        have hs : declareVariable s = pure () := by
          unfold declareVariable
          split
          next span decl =>
            have hs := hss.1
            rw [Stmt.declaresVariable] at hs
            cases hs
          next => rfl
        rw [each, hs, ih hss.2]
        rfl
  rw [declare_eq, hnothing p.statements h]
  rfl

/-- A component is summarized when it has been checked. -/
theorem made_component (k : Component) (c : Checking) : ∃ nested state methods,
    (log (component k) c).made = nested ++ [⟨k.name, state, methods⟩] := by
  obtain ⟨name, modifiers, statements, body, span⟩ := k
  unfold log
  rw [Check.component]
  exact ⟨_, _, _, rfl⟩

/-! ## Types by number -/

/-- Types that are noted under different numbers are found in whatever order they are noted. -/
theorem lookup_flatMap_perm {β : Type} {segment : β → List (Nat × Ty)} {items others : List β}
    (h : others.Perm items) (id : Nat) (hapart : items.Pairwise fun a b =>
      (segment a).lookup id = none ∨ (segment b).lookup id = none) :
    (others.flatMap segment).lookup id = (items.flatMap segment).lookup id := by
  have hsymm : ∀ a b : β, (segment a).lookup id = none ∨ (segment b).lookup id = none →
      (segment b).lookup id = none ∨ (segment a).lookup id = none := fun a b => Or.symm
  induction h with
  | nil => rfl
  | cons a _ ih =>
      rw [List.flatMap_cons, List.flatMap_cons, List.lookup_append, List.lookup_append,
        ih (List.pairwise_cons.1 hapart).2]
  | swap a b rest =>
      have hab := (List.pairwise_cons.1 hapart).1 b List.mem_cons_self
      simp only [List.flatMap_cons, List.lookup_append]
      rcases hab with hnone | hnone <;> simp [hnone]
  | trans _ hlater ih ih' =>
      have hapart' := (hlater.pairwise_iff fun {a b} => hsymm a b).2 hapart
      exact (ih hapart').trans (ih' hapart)

theorem pairwise_lookup {β : Type} {check : β → Check Unit} {parts : β → List TreePart}
    {items : List β} (hleaves : ∀ a, Leaves (TreePart.numbers (parts a)) (check a))
    (hnodup : ((items.flatMap parts).filterMap TreePart.number?).Nodup) (c : Checking) (id : Nat) :
    items.Pairwise fun a b => (log (check a) c).noted.lookup id = none ∨
      (log (check b) c).noted.lookup id = none := by
  rw [List.filterMap_flatMap, List.nodup_flatMap] at hnodup
  refine hnodup.2.imp fun {a b} hdisjoint => ?_
  by_contra hboth
  rw [not_or, ← ne_eq, ← ne_eq, Option.ne_none_iff_isSome, Option.ne_none_iff_isSome,
    numbers_log (hleaves a), numbers_log (hleaves b)] at hboth
  exact hdisjoint hboth.1 hboth.2

end Check

open Check

/-! ## The order of declarations -/

namespace Program

variable {p : Program} {external : List TypedName} {functions : List Function}
variable {components : List Component}

/-- The program with other functions and components, or with the same in another order. -/
def withDeclarations (p : Program) (functions : List Function) (components : List Component) :
    Program :=
  { p with functions, components }

/-- What is found for a program whose functions and components are in the order of the lists. -/
def foundInOrder (p : Program) (external : List TypedName) (functions : List Function)
    (components : List Component) : Log :=
  let c := afterNames p external
  (Log.concat (functions.map fun f => log (functionTask f) c)).followedBy
    ((log (between p) c).followedBy
      (Log.concat (components.map fun k => log (component k) ((between p).run c).2)))

theorem adds_withDeclarations (hvariables : ∀ s ∈ p.statements, s.declaresVariable = false)
    (hexports : ∀ e ∈ p.exports, e.declaresVariable = false)
    (htop : (afterNames p external).AtTop) (hfirm : (afterNames p external).Firm)
    (hback : ∀ f ∈ functions, Matches .all (afterNames p external)
      ((functionTask f).run (afterNames p external)).2)
    (hm : Matches .all (afterNames p external)
      (afterNames (p.withDeclarations functions components) external)) :
    Adds .all (p.foundInOrder external functions components)
      (afterNames (p.withDeclarations functions components) external)
      ((Check.program (p.withDeclarations functions components)).run (.start external)).2 := by
  obtain ⟨hbetween, hfirst⟩ := adds_each View.whole_all
    (fun f _ => ⟨_, local_functionTask f⟩) hback hm
  have hsecond := (local_between p).adds View.whole_all hbetween
  have hlast := ((local_between p).parallel View.whole_all hbetween).states
  obtain ⟨htop', hfirm'⟩ := keepsFirm_between hvariables hexports _ htop hfirm
  obtain ⟨-, hthird⟩ := adds_each View.whole_all
    (fun k _ => ⟨∅, local_component (fun _ => trivial) k ∅⟩)
    (fun k (_ : k ∈ components) => matches_component k htop' hfirm') hlast
  have hdeclared : ((declare (p.withDeclarations functions components)).run (.start external)).2 =
      afterNames (p.withDeclarations functions components) external :=
    declare_of_no_variables hvariables
  have hrun : ((Check.program (p.withDeclarations functions components)).run (.start external)).2 =
      ((do
        each functionTask functions
        between p
        each component components : Check Unit).run
          (afterNames (p.withDeclarations functions components) external)).2 := by
    rw [program_eq_tasks, ← hdeclared]
    rfl
  rw [hrun]
  exact hfirst.trans (hsecond.trans hthird)

theorem made_foundInOrder (p : Program) (external : List TypedName) (functions : List Function)
    (components : List Component) : (p.foundInOrder external functions components).made =
      functions.flatMap (fun f => (log (functionTask f) (afterNames p external)).made) ++
        ((log (between p) (afterNames p external)).made ++ components.flatMap fun k =>
          (log (component k) ((between p).run (afterNames p external)).2).made) := by
  rw [foundInOrder, Log.followedBy, Log.followedBy, Log.made_concat, Log.made_concat]

theorem mem_foundInOrder (hfunctions : functions.Perm p.functions)
    (hcomponents : components.Perm p.components) (x : Diagnostic) :
    x ∈ (p.foundInOrder external functions components).found ↔
      x ∈ (p.foundInOrder external p.functions p.components).found := by
  unfold foundInOrder Log.followedBy
  simp only [List.mem_append, Log.mem_found_concat, (hfunctions.map _).mem_iff,
    (hcomponents.map _).mem_iff]

/-- The entries that are made for functions and components move with them. -/
theorem noted_perm (hfunctions : functions.Perm p.functions)
    (hcomponents : components.Perm p.components) :
    (p.foundInOrder external functions components).noted.Perm
      (p.foundInOrder external p.functions p.components).noted := by
  unfold foundInOrder Log.followedBy
  simp only [Log.noted_concat]
  have hfunctions' := List.reverse_perm'.2 (List.perm_reverse.2 hfunctions)
  have hcomponents' := List.reverse_perm'.2 (List.perm_reverse.2 hcomponents)
  exact ((hcomponents'.flatMap_right _).append_right _).append (hfunctions'.flatMap_right _)

/-- No two functions have an expression with the same number, and no two components. -/
theorem nodup_visited_parts (h : p.visited.Nodup) :
    ((p.functions.flatMap (Walk.function Walk.everywhere)).filterMap TreePart.number?).Nodup ∧
      ((p.components.flatMap (Walk.component Walk.everywhere)).filterMap TreePart.number?).Nodup := by
  unfold visited parts Walk.program Walk.enter at h
  rw [if_pos rfl, List.filterMap_cons] at h
  simp only [TreePart.number?, List.filterMap_append, List.nodup_append] at h
  tauto

theorem lookup_noted (hfunctions : functions.Perm p.functions)
    (hcomponents : components.Perm p.components) (hvisited : p.visited.Nodup) (id : Nat) :
    (p.foundInOrder external functions components).noted.lookup id =
      (p.foundInOrder external p.functions p.components).noted.lookup id := by
  obtain ⟨hnodup, hnodup'⟩ := nodup_visited_parts hvisited
  have hfunctions' := List.reverse_perm'.2 (List.perm_reverse.2 hfunctions)
  have hcomponents' := List.reverse_perm'.2 (List.perm_reverse.2 hcomponents)
  have hleaves : ∀ f, Leaves (TreePart.numbers (Walk.function Walk.everywhere f))
      (functionTask f) :=
    fun f => (leaves_function f).before fun _ => leaves_pure ()
  have hapart := fun c => (pairwise_lookup hleaves hnodup c id).imp Or.symm
  have hapart' := fun c => (pairwise_lookup leaves_component hnodup' c id).imp Or.symm
  unfold foundInOrder Log.followedBy
  simp only [Log.noted_concat, List.lookup_append]
  rw [lookup_flatMap_perm hfunctions' id (List.pairwise_reverse.2 (hapart _)),
    lookup_flatMap_perm hcomponents' id (List.pairwise_reverse.2 (hapart' _))]

end Program

/-- If no variable is declared at the top, and the functions at the top say what they return and
have different names, then the order of functions and of components does not matter. In another
order the same faults are reported and the same types are noted, which are found under the same
numbers if no two expressions have one number, as in a program that was read. What is summarized for
a function and for a component is the same too, and stands where the function or the component
stands. -/
theorem check_withDeclarations {p : Program} {functions : List Function}
    {components : List Component} (hfunctions : functions.Perm p.functions)
    (hcomponents : components.Perm p.components)
    (hvariables : ∀ s ∈ p.statements, s.declaresVariable = false)
    (hexports : ∀ e ∈ p.exports, e.declaresVariable = false)
    (hreturns : ∀ f ∈ p.functions, f.returnType.isSome)
    (hnames : (p.allFunctions.map Function.name).Nodup) (external : List TypedName) :
    let found := p.check external
    let found' := (p.withDeclarations functions components).check external
    (∀ d, d ∈ found'.diagnostics ↔ d ∈ found.diagnostics) ∧
    found'.types.entries.Perm found.types.entries ∧
    (p.visited.Nodup → ∀ id, found'.types.get? id = found.types.get? id) ∧
    ∃ (inFunction : Function → List ComponentSummary) (inBetween : List ComponentSummary)
      (inComponent : Component → List ComponentSummary),
      (∀ k, ∃ nested state methods, inComponent k = nested ++ [⟨k.name, state, methods⟩]) ∧
      found.components =
        p.functions.flatMap inFunction ++ (inBetween ++ p.components.flatMap inComponent) ∧
      found'.components =
        functions.flatMap inFunction ++ (inBetween ++ components.flatMap inComponent) := by
  intro found found'
  have hall : (p.withDeclarations functions components).allFunctions.Perm p.allFunctions :=
    hfunctions.append_right _
  have hnames' := (hall.map Function.name).nodup_iff.2 hnames
  have himports : (p.withDeclarations functions components).imports = p.imports := rfl
  obtain ⟨htop, hfirm, htypes, hsummaries, hsignatures⟩ := afterNames_spec hnames external
  obtain ⟨-, -, htypes', hsummaries', -⟩ := afterNames_spec hnames' external
  obtain ⟨hm, hreported⟩ := matches_afterNames himports (hcomponents.append_right _) hall hnames
    external
  have hback : ∀ f ∈ p.functions, Matches .all (afterNames p external)
      ((functionTask f).run (afterNames p external)).2 := fun f hf =>
    matches_function (hreturns f hf) htop hfirm (hsignatures f (List.mem_append_left _ hf))
  have hadds : Adds .all (p.foundInOrder external p.functions p.components)
      (afterNames p external) ((Check.program p).run (.start external)).2 :=
    p.adds_withDeclarations hvariables hexports htop hfirm hback (matches_refl View.whole_all _)
  have hadds' := p.adds_withDeclarations hvariables hexports htop hfirm
    (fun f hf => hback f (hfunctions.mem_iff.1 hf)) hm
  -- Nothing is noted or summarized before the first function is checked.
  have hnoted : found.types.entries = (p.foundInOrder external p.functions p.components).noted := by
    refine hadds.noted.trans ?_
    rw [htypes]
    exact List.append_nil _
  have hnoted' : found'.types.entries =
      (p.foundInOrder external functions components).noted := by
    refine hadds'.noted.trans ?_
    rw [htypes']
    exact List.append_nil _
  have hmade : found.components = (p.foundInOrder external p.functions p.components).made := by
    refine (hadds.made View.whole_all).trans ?_
    rw [hsummaries, List.nil_append]
  have hmade' : found'.components = (p.foundInOrder external functions components).made := by
    refine (hadds'.made View.whole_all).trans ?_
    rw [hsummaries', List.nil_append]
  refine ⟨fun d => ?_, ?_, fun hvisited id => ?_, _, _, _, fun k => made_component k _,
    hmade.trans (Program.made_foundInOrder ..), hmade'.trans (Program.made_foundInOrder ..)⟩
  · refine (List.mem_reverse.trans (hadds'.found d)).trans
      (Iff.trans ?_ (List.mem_reverse.trans (hadds.found d)).symm)
    rw [hreported, Program.mem_foundInOrder hfunctions hcomponents]
  · rw [hnoted, hnoted']
    exact Program.noted_perm hfunctions hcomponents
  · unfold TypeTable.get?
    rw [hnoted, hnoted', Program.lookup_noted hfunctions hcomponents hvisited]

/-- `function first(): Int { return second() }` -/
def callingFunction : Function :=
  ⟨"first", [], some (.named ⟨18, 21, 1, 19⟩ "Int"),
    ⟨[.returnStmt ⟨24, 39, 1, 25⟩ (some (.call ⟨1, ⟨31, 39, 1, 32⟩⟩
      (.identifier ⟨0, ⟨31, 37, 1, 32⟩⟩ "second") []))], ⟨22, 41, 1, 23⟩⟩,
    false, [], ⟨0, 41, 1, 1⟩⟩

/-- `function second(): String { return "s" }` -/
def calledFunction : Function :=
  ⟨"second", [], some (.named ⟨61, 67, 2, 20⟩ "String"),
    ⟨[.returnStmt ⟨70, 80, 2, 29⟩ (some (.literal ⟨2, ⟨77, 80, 2, 36⟩⟩ (.string "s")))],
      ⟨68, 82, 2, 27⟩⟩,
    false, [], ⟨42, 82, 2, 1⟩⟩

/-- The call is reported, whether the function that it calls is checked before it or after it. -/
theorem check_withDeclarations_calls :
    let p : Program := ⟨[], [], [callingFunction, calledFunction], [], []⟩
    [calledFunction, callingFunction].Perm p.functions ∧
      (p.allFunctions.map Function.name).Nodup ∧
      (∀ f ∈ p.functions, f.returnType.isSome) ∧
      .ofSpan .type (TypeFault.notReturnable .string .int).message ⟨31, 39, 1, 32⟩ ∈
        ((p.withDeclarations [calledFunction, callingFunction] []).check []).diagnostics := by
  intro p
  have hfunctions : [calledFunction, callingFunction].Perm p.functions := .swap _ _ _
  have hnames : (p.allFunctions.map Function.name).Nodup := by decide
  have hreturns : ∀ f ∈ p.functions, f.returnType.isSome := by
    intro f hf
    obtain rfl | rfl := List.mem_pair.1 hf <;> rfl
  have hreported : .ofSpan .type (TypeFault.notReturnable .string .int).message ⟨31, 39, 1, 32⟩ ∈
      (p.check []).diagnostics := by
    decide +kernel
  have hsame := check_withDeclarations (p := p) hfunctions (.refl []) (List.forall_mem_nil _)
    (List.forall_mem_nil _) hreturns hnames []
  exact ⟨hfunctions, hnames, hreturns, (hsame.1 _).2 hreported⟩

end ComponentLang
