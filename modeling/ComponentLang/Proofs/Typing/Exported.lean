import ComponentLang.Proofs.Typing.Annotated
import ComponentLang.Proofs.Typing.Local.Declare

/-!
# Variables that are exported

A variable that is declared among the statements at the top is in sight everywhere, also before its
declaration. One whose declaration is exported comes into sight only where its turn is among the
exports, after all functions and statements, and these report it if they use it. If none does, and
what the declaration starts from is the same in both places, then exporting a variable makes no
difference.
-/
namespace ComponentLang

open Scopes Checking

/-- A program with a variable at the top, and the places among the statements and the exports where
its declaration may stand. -/
structure VariableExport where
  imports : List Import
  functions : List Function
  components : List Component
  /-- The statements before the declaration. -/
  before : List Stmt
  /-- The statements after the declaration. -/
  after : List Stmt
  /-- The exports before the declaration, if it is exported. -/
  front : List Export
  /-- The exports after the declaration, if it is exported. -/
  back : List Export
  span : Span
  decl : VariableDecl
  isDefault : Bool
  exportSpan : Span

/-- The names that a part at the top defines there. -/
def TreePart.declared : TreePart → List String
  | .function f => [f.name]
  | .stmt s => s.declared
  | .exportDecl e => e.declared
  | _ => []

/-- All names that are defined at the top of a program. -/
def Program.declaredNames (p : Program) : List String :=
  Prelude.names.map TypedName.name ++
    (p.imports.flatMap (fun item => item.names ++ item.default.toList) ++
      (p.allComponents.map Component.name ++ (p.allFunctions.map Function.name ++
        p.tasks.flatMap TreePart.declared)))

namespace VariableExport

variable (e : VariableExport)

/-- The program without the variable. -/
def rest : Program := ⟨e.imports, e.front ++ e.back, e.functions, e.components, e.before ++ e.after⟩

/-- The variable is declared among the statements. -/
def plain : Program :=
  { e.rest with statements := e.before ++ .variableDecl e.span e.decl :: e.after }

/-- The variable is exported. -/
def exported : Program :=
  { e.rest with exports := e.front ++
      ⟨e.isDefault, .statement (.variableDecl e.span e.decl), e.exportSpan⟩ :: e.back }

/-- What is checked before the declaration in both programs. -/
def first : List TreePart := e.functions.map .function ++ e.before.map .stmt

/-- What is checked between the two places of the declaration. -/
def middle : List TreePart := e.after.map .stmt ++ e.front.map .exportDecl

/-- What is checked after the declaration in both programs. -/
def last : List TreePart := e.back.map .exportDecl ++ e.components.map .component

theorem tasks_rest : e.rest.tasks = e.first ++ (e.middle ++ e.last) := by
  simp [Program.tasks, rest, first, middle, last]

theorem tasks_plain : e.plain.tasks =
    e.first ++ .stmt (.variableDecl e.span e.decl) :: (e.middle ++ e.last) := by
  simp [Program.tasks, plain, rest, first, middle, last]

theorem tasks_exported : e.exported.tasks = e.first ++ (e.middle ++
    .exportDecl ⟨e.isDefault, .statement (.variableDecl e.span e.decl), e.exportSpan⟩ :: e.last) := by
  simp [Program.tasks, exported, rest, first, middle, last]

end VariableExport

namespace Check

variable {V : View} {D : Set String}

theorem local_task (hV : ∀ y, V.seen y) {p : Program} {task : TreePart} (h : task ∈ p.tasks)
    (hD : ∀ y ∈ task.declared, y ∈ D) : Local V D task.check := by
  simp only [Program.tasks, List.mem_append, List.mem_map] at h
  obtain ⟨f, -, rfl⟩ | ⟨s, -, rfl⟩ | ⟨e, -, rfl⟩ | ⟨k, -, rfl⟩ := h
  · exact (local_function hV f D (hD _ List.mem_cons_self)).bind fun _ => local_pure ()
  · exact local_stmt hV s D hD
  · exact local_exportDecl hV e D hD
  · exact local_component hV k D

/-! ## What is in sight before the first task -/

theorem afterNames_congr {p p' : Program} (himports : p'.imports = p.imports)
    (hcomponents : p'.allComponents = p.allComponents)
    (hfunctions : p'.allFunctions = p.allFunctions) (external : List TypedName) :
    afterNames p' external = afterNames p external := by
  unfold afterNames declareNames
  rw [himports, hcomponents, hfunctions]

theorem frames_functions {x : String} {fs : List Function} (h : x ∉ fs.map Function.name)
    (c : Checking) : Frames {x}ᶜ c ((each declareFunction fs).run c).2 := by
  have hlocal : Local .blind {x}ᶜ (each declareFunction fs) := by
    refine local_each fun f hf => local_declareFunction ?_
    rintro rfl
    exact h (List.mem_map_of_mem hf)
  exact hlocal.frames c

theorem afterNames_run (p : Program) (external : List TypedName) :
    afterNames p external =
      ((each declareFunction p.allFunctions).run (beforeFunctions p external)).2 :=
  rfl

theorem atTop_afterNames (p : Program) (external : List TypedName) :
    (afterNames p external).AtTop := by
  obtain ⟨htop, -, -, -, hcomponents, -, -⟩ := declares_beforeFunctions p external
  have hlocal : Local .blind Set.univ (each declareFunction p.allFunctions) :=
    local_each fun f _ => local_declareFunction (Set.mem_univ _)
  exact (hlocal.frames _).atTop (hcomponents.atTop htop)

theorem outermost_start {y : String} (h : y ∉ Prelude.names.map TypedName.name)
    (external : List TypedName) : (start external).scopes.outermost y = none := by
  rw [← lookup?_of_outer_nil (atTop_start external).outer]
  unfold start Prelude.install
  simp only [Prelude.names, List.map_cons, List.map_nil, List.mem_cons, not_or] at h
  simp only [Prelude.names, List.foldl_cons, List.foldl_nil, lookup?_define,
    if_neg (Ne.symm h.1), if_neg (Ne.symm h.2.1)]
  rfl

/-- What is declared nowhere is not in sight. -/
theorem outermost_afterNames {p : Program} {y : String} (h : y ∉ p.declaredNames)
    (external : List TypedName) : (afterNames p external).scopes.outermost y = none := by
  simp only [Program.declaredNames, List.mem_append, not_or] at h
  obtain ⟨hprelude, himports, hcomponents, hfunctions, -⟩ := h
  have himported := declares_imports (atTop_start external) p.imports
  obtain ⟨htop, -, -, -, hdeclared, -, -⟩ := declares_beforeFunctions p external
  have hbefore : (beforeFunctions p external).scopes.outermost y = none := by
    rw [hdeclared.others, himported.others, outermost_start hprelude]
    · simpa [importGives, List.map_flatMap] using himports
    · simpa [componentGives, List.map_flatMap, eq_comm] using hcomponents
  rw [afterNames_run, (frames_functions hfunctions _).outermost y (fun hy => absurd rfl hy),
    hbefore]
  rw [hbefore]
  exact nofun

/-- The variables at the top wait for their types. -/
def variableGives : Stmt → List TypedName
  | .variableDecl _ decl => [⟨decl.name, .unknown⟩]
  | _ => []

theorem type_of_mem_variables {ss : List Stmt} {t : TypedName}
    (h : t ∈ ss.flatMap variableGives) : t.type = .unknown := by
  obtain ⟨s, -, hs⟩ := List.mem_flatMap.1 h
  unfold variableGives at hs
  split at hs
  · rw [List.mem_singleton.1 hs]
  · cases hs

theorem declares_variables {c : Checking} (hc : c.AtTop) (ss : List Stmt) :
    let d := ((each declareVariable ss).run c).2
    Declares (ss.flatMap variableGives) c d ∧ d.diagnostics = c.diagnostics ∧
      d.components = c.components := by
  induction ss generalizing c with
  | nil => exact ⟨declares_refl c, rfl, rfl⟩
  | cons s rest ih =>
      have hfirst : Declares (variableGives s) c ((declareVariable s).run c).2 ∧
          ((declareVariable s).run c).2.diagnostics = c.diagnostics ∧
          ((declareVariable s).run c).2.components = c.components := by
        cases s with
        | variableDecl span decl => exact ⟨declares_define hc.outer _ _, rfl, rfl⟩
        | _ => exact ⟨declares_refl c, rfl, rfl⟩
      obtain ⟨hdeclares, hdiagnostics, hcomponents⟩ := hfirst
      obtain ⟨hlater, hdiagnostics', hcomponents'⟩ := ih (hdeclares.atTop hc)
      have hunambiguous : Unambiguous ((s :: rest).flatMap variableGives) :=
        unambiguous_of_type .unknown fun t ht => type_of_mem_variables ht
      exact ⟨hdeclares.trans hlater hunambiguous, hdiagnostics'.trans hdiagnostics,
        hcomponents'.trans hcomponents⟩

theorem mem_variableGives {s : Stmt} {y : String}
    (h : y ∈ (variableGives s).map TypedName.name) : y ∈ s.declared := by
  cases s with
  | variableDecl span decl => simpa [variableGives, Stmt.declared] using h
  | _ => cases h

end Check

/-! ## States that lack a variable -/

/-- The second state lacks `x`, which has type `t` in the first. -/
def View.lacking (x : String) (t : Ty) : View :=
  ⟨fun _ => True, fun y => if y = x then some t else none⟩

theorem View.gap_lacking_self (x : String) (t : Ty) : (lacking x t).gap x = some t := if_pos rfl

theorem View.gap_lacking_of_ne {x y : String} (h : y ≠ x) (t : Ty) :
    (lacking x t).gap y = none :=
  if_neg h

namespace Checking

variable {x : String} {t : Ty} {c d : Checking}

theorem admits_lacking (x : String) (t : Ty) (c : Checking) :
    (View.lacking x t).Admits {x}ᶜ c :=
  fun _ hy hgap => absurd (View.gap_lacking_of_ne hy t) hgap

theorem matches_lacking (hc : c.AtTop) (hd : d.AtTop) (hexternal : d.external = c.external)
    (hcomponents : ∀ y, y ∈ d.components ↔ y ∈ c.components)
    (hothers : ∀ y, y ≠ x → d.scopes.outermost y = c.scopes.outermost y)
    (hx : c.scopes.outermost x = some t) (hx' : d.scopes.outermost x = none) :
    Matches (.lacking x t) c d where
  entries y _ := by
    rw [entries_of_outer_nil hc.outer, entries_of_outer_nil hd.outer]
    by_cases hy : y = x
    · subst hy
      rw [View.gap_lacking_self, hx, hx']
      exact ⟨[], rfl, rfl⟩
    · rw [View.gap_lacking_of_ne hy, hothers y hy]
      exact agree_refl _
  depth := by rw [hc.outer, hd.outer]
  external := hexternal
  components := hcomponents
  returns := hd.returns.trans hc.returns.symm

/-- What is said at the top by two states of which the second lacks `x`. -/
theorem Matches.lacks (h : Matches (.lacking x t) c d) (hc : c.AtTop) :
    d.AtTop ∧ (∀ y, y ≠ x → d.scopes.outermost y = c.scopes.outermost y) ∧
      c.scopes.outermost x = some t ∧ d.scopes.outermost x = none := by
  have hd : d.AtTop := by
    refine ⟨?_, h.returns.trans hc.returns⟩
    rw [← List.length_eq_zero_iff, h.depth, hc.outer]
    rfl
  refine ⟨hd, fun y hy => ?_, ?_⟩
  · have hentries := h.entries y trivial
    rw [entries_of_outer_nil hc.outer, entries_of_outer_nil hd.outer,
      View.gap_lacking_of_ne hy] at hentries
    exact (List.cons.inj hentries).1
  · have hentries := h.entries x trivial
    rw [entries_of_outer_nil hc.outer, entries_of_outer_nil hd.outer,
      View.gap_lacking_self] at hentries
    obtain ⟨inner, hinner, hinner'⟩ := hentries
    cases inner with
    | nil => exact ⟨(List.cons.inj hinner).1, (List.cons.inj hinner').1⟩
    | cons first inner => simp at hinner

end Checking

open Check

/-! ## The two programs -/

namespace Program

variable {p : Program} {external : List TypedName} {done todo : List TreePart}

theorem stateAfter_append (p : Program) (external : List TypedName) (done more : List TreePart) :
    p.stateAfter external (done ++ more) =
      ((each TreePart.check more).run (p.stateAfter external done)).2 := by
  unfold stateAfter
  rw [each_append]
  rfl

theorem stateAfter_nil (p : Program) (external : List TypedName) :
    p.stateAfter external [] =
      ((each declareVariable p.statements).run (afterNames p external)).2 := by
  unfold stateAfter
  rw [declare_eq]
  rfl

/-- What a statement at the top defines is defined at the top of the program. -/
theorem mem_declaredNames {s : Stmt} {y : String} (hs : s ∈ p.statements) (hy : y ∈ s.declared) :
    y ∈ p.declaredNames := by
  have htask : TreePart.stmt s ∈ p.tasks := by simp [tasks, hs]
  simp only [declaredNames, List.mem_append]
  exact .inr (.inr (.inr (.inr (List.mem_flatMap.2 ⟨_, htask, hy⟩))))

/-- What is reported while the first tasks are checked is reported in the end. -/
theorem reported_stateAfter (htasks : p.tasks = done ++ todo) :
    (p.stateAfter external done).diagnostics ⊆ (p.check external).diagnostics :=
  fun _ hd => (mem_diagnostics_check htasks).2 ((leaves_each_check todo).diagnostics_subset _ hd)

end Program

namespace VariableExport

variable {e : VariableExport} {external : List TypedName}

/-- Nothing reports that the exported variable is not in sight. -/
def FoundInTime (e : VariableExport) (external : List TypedName) : Prop :=
  ∀ span, .ofSpan .type (TypeFault.undefinedVariable e.decl.name).message span ∉
      (e.exported.check external).diagnostics ∧
    .ofSpan .type (TypeFault.unknownComponent e.decl.name).message span ∉
      (e.exported.check external).diagnostics

/-- The names in the initial value have their types where the variable is declared, and get no
others up to where it is exported. -/
def Movable (e : VariableExport) (external : List TypedName) : Prop :=
  ∀ part ∈ Walk.expr? Walk.everywhere e.decl.init, ∀ y ∈ part.mention?, y ≠ e.decl.name →
    y ∉ e.middle.flatMap TreePart.declared ∧
      (e.plain.stateAfter external e.first).scopes.lookup? y ≠ some .unknown

theorem local_tasks {V : View} (hV : ∀ y, V.seen y) (hnew : e.decl.name ∉ e.rest.declaredNames)
    {tasks : List TreePart} (h : ∀ task ∈ tasks, task ∈ e.rest.tasks) :
    Local V {e.decl.name}ᶜ (each TreePart.check tasks) := by
  refine local_each fun task htask => local_task hV (h task htask) ?_
  rintro y hy rfl
  simp only [Program.declaredNames, List.mem_append, not_or] at hnew
  exact hnew.2.2.2.2 (List.mem_flatMap.2 ⟨task, h task htask, hy⟩)

/-- Before the first task the exported variable is all that is lacking. -/
theorem matches_declared (hnew : e.decl.name ∉ e.rest.declaredNames)
    (external : List TypedName) :
    (e.plain.stateAfter external []).AtTop ∧
    Matches (.lacking e.decl.name .unknown) (e.plain.stateAfter external [])
        (e.exported.stateAfter external []) ∧
      (e.exported.stateAfter external []).diagnostics =
        (e.plain.stateAfter external []).diagnostics := by
  have hplain : afterNames e.plain external = afterNames e.rest external :=
    afterNames_congr rfl rfl rfl external
  have hexported : afterNames e.exported external = afterNames e.rest external := by
    have himports : e.exported.imports = e.rest.imports := rfl
    refine afterNames_congr himports ?_ ?_ external
    · simp [Program.allComponents, exported, rest, ExportItem.component?]
    · simp [Program.allFunctions, exported, rest, ExportItem.function?]
  have htop := atTop_afterNames e.rest external
  have hx := outermost_afterNames hnew external
  rw [Program.stateAfter_nil, Program.stateAfter_nil, hplain, hexported]
  obtain ⟨hc, hdiagnostics, hcomponents⟩ := declares_variables htop e.plain.statements
  obtain ⟨hd, hdiagnostics', hcomponents'⟩ := declares_variables htop e.exported.statements
  have hothers : e.decl.name ∉
      (e.exported.statements.flatMap variableGives).map TypedName.name := by
    intro hmem
    obtain ⟨t, ht, hname⟩ := List.mem_map.1 hmem
    obtain ⟨s, hs, hgives⟩ := List.mem_flatMap.1 ht
    have hdeclared := mem_variableGives (List.mem_map_of_mem hgives)
    rw [hname] at hdeclared
    exact hnew (Program.mem_declaredNames (by simpa [exported] using hs) hdeclared)
  refine ⟨hc.atTop htop, matches_lacking (hc.atTop htop) (hd.atTop htop)
    (hd.external.trans hc.external.symm) (fun y => by rw [hcomponents, hcomponents']) ?_ ?_ ?_,
    hdiagnostics'.trans hdiagnostics.symm⟩
  · intro y hy
    by_cases hmem : y ∈ (e.exported.statements.flatMap variableGives).map TypedName.name
    · obtain ⟨t, ht, rfl⟩ := List.mem_map.1 hmem
      obtain ⟨s, hs, hgives⟩ := List.mem_flatMap.1 ht
      have hs' : s ∈ e.plain.statements := by
        simp only [exported, rest, List.mem_append] at hs
        simp only [plain, List.mem_append, List.mem_cons]
        tauto
      rw [hc.named t (List.mem_flatMap.2 ⟨s, hs', hgives⟩), hd.named t ht]
    · have hmem' : y ∉ (e.plain.statements.flatMap variableGives).map TypedName.name := by
        simp only [exported, rest, List.flatMap_append, List.map_append, List.mem_append] at hmem
        simpa [plain, variableGives, hy] using hmem
      rw [hc.others y hmem', hd.others y hmem]
  · refine hc.named ⟨e.decl.name, .unknown⟩ (List.mem_flatMap.2
      ⟨.variableDecl e.span e.decl, ?_, List.mem_cons_self⟩)
    exact List.mem_append_right _ List.mem_cons_self
  · rw [hd.others _ hothers, hx]

/-- Only the exported variable can be missed. -/
theorem FoundInTime.not_missed (h : e.FoundInTime external) {V : View} {d : Checking}
    (hgap : ∀ y, V.gap y ≠ none → y = e.decl.name)
    (hd : d.diagnostics ⊆ (e.exported.check external).diagnostics) : ¬ Missed V d := by
  rintro ⟨y, span, hy, hreported⟩
  obtain rfl := hgap y hy
  exact hreported.elim (fun hmem => (h span).1 (hd hmem)) (fun hmem => (h span).2 (hd hmem))

theorem eq_of_gap_lacking {x y : String} {t : Ty} (h : (View.lacking x t).gap y ≠ none) :
    y = x := by
  by_contra hne
  exact h (View.gap_lacking_of_ne hne t)

/-- What the declaration does at the top. -/
theorem variableDecl_atTop (decl : VariableDecl) {c : Checking} (hc : c.AtTop) :
    let d := ((variableDecl decl).run c).2
    d.AtTop ∧ d.external = c.external ∧ d.components = c.components ∧
      d.scopes.outermost decl.name = some ((declaredWith decl).run c).1 ∧
      (∀ y, y ≠ decl.name → d.scopes.outermost y = c.scopes.outermost y) ∧
      d.diagnostics = ((declaredWith decl).run c).2.diagnostics := by
  intro d
  have hlocal : Local .all ∅ (declaredWith decl) :=
    local_declaredWith (View.sees_of_all (fun _ => trivial) _)
  have hframes := hlocal.frames c
  have hscopes : ((declaredWith decl).run c).2.scopes = c.scopes := fixes_declaredWith decl c
  have hdefined := declares_define (hframes.atTop hc).outer decl.name ((declaredWith decl).run c).1
  have hd : d = ((define decl.name ((declaredWith decl).run c).1).run
      ((declaredWith decl).run c).2).2 := by
    unfold d
    rw [variableDecl_eq]
    rfl
  rw [hd]
  refine ⟨hdefined.atTop (hframes.atTop hc), hframes.external, hframes.components,
    hdefined.named _ List.mem_cons_self, fun y hy => ?_, rfl⟩
  refine (hdefined.others y (by simpa using hy)).trans ?_
  rw [hscopes]

/-- The declaration among the statements. -/
def declaration (e : VariableExport) : TreePart := .stmt (.variableDecl e.span e.decl)

/-- The declaration among the exports. -/
def exportedDeclaration (e : VariableExport) : TreePart :=
  .exportDecl ⟨e.isDefault, .statement (.variableDecl e.span e.decl), e.exportSpan⟩

theorem check_declaration (e : VariableExport) : e.declaration.check = variableDecl e.decl := by
  rw [declaration, TreePart.check, Check.stmt]

theorem check_exportedDeclaration (e : VariableExport) :
    e.exportedDeclaration.check = variableDecl e.decl := by
  rw [exportedDeclaration, TreePart.check, Check.exportDecl, Check.stmt]

section

variable (hnew : e.decl.name ∉ e.rest.declaredNames) (hfound : e.FoundInTime external)
include hnew hfound

/-- Up to the declaration the two checks are alike, since neither needs the variable. -/
theorem parallel_first :
    let c := e.plain.stateAfter external e.first
    let d := e.exported.stateAfter external e.first
    c.AtTop ∧ Matches (.lacking e.decl.name .unknown) c d ∧
      ∀ x, x ∈ d.diagnostics ↔ x ∈ c.diagnostics := by
  intro c d
  obtain ⟨htop, hm, hdiagnostics⟩ := matches_declared hnew external
  have hlocal : Local (.lacking e.decl.name .unknown) {e.decl.name}ᶜ
      (each TreePart.check e.first) := by
    refine local_tasks (fun _ => trivial) hnew fun task htask => ?_
    rw [tasks_rest]
    exact List.mem_append_left _ htask
  have hc : c = ((each TreePart.check e.first).run (e.plain.stateAfter external [])).2 :=
    e.plain.stateAfter_append external [] e.first
  have hd : d = ((each TreePart.check e.first).run (e.exported.stateAfter external [])).2 :=
    e.exported.stateAfter_append external [] e.first
  have hreported : d.diagnostics ⊆ (e.exported.check external).diagnostics :=
    Program.reported_stateAfter e.tasks_exported
  have hp := (hlocal.alike _ _ hm (admits_lacking _ _ _)).resolve_left
    (hfound.not_missed (fun y hy => eq_of_gap_lacking hy) (hd ▸ hreported))
  obtain ⟨log, hadds, hadds'⟩ := hp.added
  rw [hc, hd]
  refine ⟨(hlocal.frames _).atTop htop, hp.states, fun x => ?_⟩
  rw [hadds.found, hadds'.found, hdiagnostics]

/-- From the declaration on, the variable has its type in the one program and is lacking in the
other, up to where it is exported. -/
theorem parallel_middle :
    let first := e.plain.stateAfter external e.first
    let first' := e.exported.stateAfter external e.first
    let type := ((declaredWith e.decl).run first).1
    let c := e.plain.stateAfter external (e.first ++ e.declaration :: e.middle)
    let d := e.exported.stateAfter external (e.first ++ e.middle)
    c.AtTop ∧ Matches (.lacking e.decl.name type) c d ∧ ∃ log,
      Adds (.lacking e.decl.name type) log ((variableDecl e.decl).run first).2 c ∧
        Adds (.lacking e.decl.name type) log first' d := by
  intro first first' type c d
  obtain ⟨htop, hm, -⟩ := parallel_first hnew hfound
  obtain ⟨htop', hothers, hx, hx'⟩ := hm.lacks htop
  obtain ⟨htopDecl, hexternal, hcomponents, hname, hkept, -⟩ := variableDecl_atTop e.decl htop
  have hdeclared : Matches (.lacking e.decl.name type) ((variableDecl e.decl).run first).2 first' := by
    refine matches_lacking htopDecl htop' (hm.external.trans hexternal.symm) (fun y => ?_)
      (fun y hy => ?_) hname hx'
    · rw [hcomponents]
      exact hm.components y
    · rw [hothers y hy, hkept y hy]
  have hlocal : Local (.lacking e.decl.name type) {e.decl.name}ᶜ
      (each TreePart.check e.middle) := by
    refine local_tasks (fun _ => trivial) hnew fun task htask => ?_
    rw [tasks_rest]
    exact List.mem_append_right _ (List.mem_append_left _ htask)
  have hc : c = ((each TreePart.check e.middle).run ((variableDecl e.decl).run first).2).2 := by
    unfold c
    rw [Program.stateAfter_append, each, check_declaration]
    rfl
  have hd : d = ((each TreePart.check e.middle).run first').2 := Program.stateAfter_append ..
  have htasks : e.exported.tasks = (e.first ++ e.middle) ++ e.exportedDeclaration :: e.last := by
    rw [tasks_exported, List.append_assoc]
    rfl
  have hreported : d.diagnostics ⊆ (e.exported.check external).diagnostics :=
    Program.reported_stateAfter htasks
  have hp := (hlocal.alike _ _ hdeclared (admits_lacking _ _ _)).resolve_left
    (hfound.not_missed (fun y hy => eq_of_gap_lacking hy) (hd ▸ hreported))
  rw [hc, hd]
  exact ⟨(hlocal.frames _).atTop htopDecl, hp.states, hp.added⟩

/-- The state in which the exported declaration is checked keeps what the initial value starts
from. -/
theorem frames_middle (hmovable : e.Movable external) :
    let c := e.plain.stateAfter external e.first
    let d := e.exported.stateAfter external (e.first ++ e.middle)
    d.external = c.external ∧ (∀ y, y ∈ d.components ↔ y ∈ c.components) ∧
      ∀ part ∈ Walk.expr? Walk.everywhere e.decl.init, ∀ y ∈ part.mention?, y ≠ e.decl.name →
        d.scopes.outermost y = c.scopes.outermost y := by
  intro c d
  obtain ⟨htop, hm, -⟩ := parallel_first hnew hfound
  obtain ⟨-, hothers, -, -⟩ := hm.lacks htop
  have hlocal : Local .all {y | y ∈ e.middle.flatMap TreePart.declared}
      (each TreePart.check e.middle) := by
    refine local_each fun task htask => local_task (fun _ => trivial) (p := e.rest) ?_
      fun y hy => List.mem_flatMap.2 ⟨task, htask, hy⟩
    rw [tasks_rest]
    exact List.mem_append_right _ (List.mem_append_left _ htask)
  have hframes := hlocal.frames (e.exported.stateAfter external e.first)
  rw [← Program.stateAfter_append] at hframes
  refine ⟨hframes.external.trans hm.external, fun y => ?_, fun part hpart y hy hne => ?_⟩
  · rw [hframes.components]
    exact hm.components y
  · obtain ⟨hfree, hknown⟩ := hmovable part hpart y hy hne
    rw [lookup?_of_outer_nil htop.outer, ← hothers y hne] at hknown
    rw [hframes.outermost y (fun hmem => absurd hmem hfree) hknown, hothers y hne]

/-- The initial value gives the variable the same type in both places, and has the same faults. -/
theorem parallel_declaredWith (hmovable : e.Movable external) :
    let c := e.plain.stateAfter external e.first
    let d := e.exported.stateAfter external (e.first ++ e.middle)
    ((declaredWith e.decl).run d).1 = ((declaredWith e.decl).run c).1 ∧ ∃ found : List Diagnostic,
      (∀ x, x ∈ ((declaredWith e.decl).run c).2.diagnostics ↔ x ∈ found ∨ x ∈ c.diagnostics) ∧
      ∀ x, x ∈ ((declaredWith e.decl).run d).2.diagnostics ↔ x ∈ found ∨ x ∈ d.diagnostics := by
  intro c d
  obtain ⟨htop, hm, -⟩ := parallel_first hnew hfound
  obtain ⟨-, -, hx, -⟩ := hm.lacks htop
  obtain ⟨htopMiddle, hmiddle, -⟩ := parallel_middle hnew hfound
  obtain ⟨htop', -, -, hx'⟩ := hmiddle.lacks htopMiddle
  obtain ⟨hexternal, hcomponents, hkept⟩ := frames_middle hnew hfound hmovable
  -- The view of the initial value: the names in it, of which the variable itself is lacking.
  let V : View := ⟨fun y => ∃ part ∈ Walk.expr? Walk.everywhere e.decl.init, y ∈ part.mention?,
    (View.lacking e.decl.name .unknown).gap⟩
  have hmatches : Matches V c d := by
    refine ⟨fun y hy => ?_, by rw [htop.outer, htop'.outer], hexternal, hcomponents,
      htop'.returns.trans htop.returns.symm⟩
    obtain ⟨part, hpart, hy⟩ := hy
    rw [entries_of_outer_nil htop.outer, entries_of_outer_nil htop'.outer]
    change Agree ((View.lacking e.decl.name .unknown).gap y) _ _
    by_cases hne : y = e.decl.name
    · subst hne
      rw [View.gap_lacking_self, hx, hx']
      exact ⟨[], rfl, rfl⟩
    · rw [View.gap_lacking_of_ne hne, hkept part hpart y hy hne]
      exact agree_refl _
  have hlocal : Local V ∅ (declaredWith e.decl) :=
    local_declaredWith fun part hpart y hy => ⟨part, hpart, hy⟩
  have hreported : ((declaredWith e.decl).run d).2.diagnostics ⊆
      (e.exported.check external).diagnostics := by
    obtain ⟨-, -, -, -, -, hdiagnostics⟩ := variableDecl_atTop e.decl htop'
    have htasks : e.exported.tasks =
        (e.first ++ e.middle ++ [e.exportedDeclaration]) ++ e.last := by
      rw [tasks_exported, List.append_assoc, List.append_assoc]
      rfl
    have hlater : (e.exported.stateAfter external
        (e.first ++ e.middle ++ [e.exportedDeclaration])).diagnostics ⊆
          (e.exported.check external).diagnostics := Program.reported_stateAfter htasks
    rw [Program.stateAfter_concat, check_exportedDeclaration] at hlater
    exact hdiagnostics ▸ hlater
  have hp := (hlocal.alike c d hmatches nofun).resolve_left
    (hfound.not_missed (fun y hy => eq_of_gap_lacking hy) hreported)
  obtain ⟨log, hadds, hadds'⟩ := hp.added
  exact ⟨hp.result, log.found, hadds.found, hadds'.found⟩

/-- When both declarations have been checked, the same is in sight and the same is found. -/
theorem matches_declarations (hmovable : e.Movable external) :
    let c := e.plain.stateAfter external (e.first ++ e.declaration :: e.middle)
    let d := e.exported.stateAfter external (e.first ++ e.middle ++ [e.exportedDeclaration])
    Matches .all c d ∧ ∀ x, x ∈ d.diagnostics ↔ x ∈ c.diagnostics := by
  intro c d
  obtain ⟨htopFirst, -, hfirst⟩ := parallel_first hnew hfound
  obtain ⟨htop, hm, log, hadds, hadds'⟩ := parallel_middle hnew hfound
  obtain ⟨htype, found, hinit, hinit'⟩ := parallel_declaredWith hnew hfound hmovable
  obtain ⟨htop', hothers, hx, -⟩ := hm.lacks htop
  obtain ⟨-, -, -, -, -, hdiagnostics⟩ := variableDecl_atTop e.decl htopFirst
  obtain ⟨htopLast, hexternal, hcomponents, hname, hkept, hdiagnostics'⟩ :=
    variableDecl_atTop e.decl htop'
  have hd : d =
      ((variableDecl e.decl).run (e.exported.stateAfter external (e.first ++ e.middle))).2 := by
    unfold d
    rw [Program.stateAfter_concat, check_exportedDeclaration]
  rw [hd]
  constructor
  · refine matches_of_entries View.whole_all (fun y _ => ?_) (by rw [htopLast.outer, htop.outer])
      (hexternal.trans hm.external) (fun y => ?_) (htopLast.returns.trans htop.returns.symm)
    · rw [entries_of_outer_nil htopLast.outer, entries_of_outer_nil htop.outer]
      by_cases hy : y = e.decl.name
      · rw [hy, hname, hx, htype]
      · rw [hkept y hy, hothers y hy]
    · rw [hcomponents]
      exact hm.components y
  · intro x
    rw [hdiagnostics', hinit', hadds'.found, hfirst, hadds.found, hdiagnostics, hinit]
    tauto

end

/-- A variable that is found in time, and whose declaration may be moved, may be exported: the same
faults are reported, whether the declaration stands among the statements or among the exports. Its
name must not be declared a second time at the top. -/
theorem check_exported (hnew : e.decl.name ∉ e.rest.declaredNames)
    (hfound : e.FoundInTime external) (hmovable : e.Movable external) (x : Diagnostic) :
    x ∈ (e.exported.check external).diagnostics ↔ x ∈ (e.plain.check external).diagnostics := by
  obtain ⟨hm, hreported⟩ := matches_declarations hnew hfound hmovable
  have hlast : Local .all {e.decl.name}ᶜ (each TreePart.check e.last) := by
    refine local_tasks (fun _ => trivial) hnew fun task htask => ?_
    rw [tasks_rest]
    exact List.mem_append_right _ (List.mem_append_right _ htask)
  obtain ⟨log, hadds, hadds'⟩ := (hlast.parallel View.whole_all hm).added
  have htasks : e.plain.tasks = (e.first ++ e.declaration :: e.middle) ++ e.last := by
    rw [tasks_plain, List.append_assoc]
    rfl
  have htasks' : e.exported.tasks = (e.first ++ e.middle ++ [e.exportedDeclaration]) ++ e.last := by
    rw [tasks_exported, List.append_assoc, List.append_assoc]
    rfl
  rw [Program.mem_diagnostics_check htasks, Program.mem_diagnostics_check htasks', hadds.found,
    hadds'.found, hreported]

/-- `let x = 1`, before `export let y: String = x`. -/
def beforeMisfit : VariableExport where
  imports := []
  functions := []
  components := []
  before := []
  after := []
  front := []
  back := [⟨false, .statement (.variableDecl ⟨17, 34, 2, 8⟩
    ⟨.letVar, "y", some (.named ⟨24, 30, 2, 15⟩ "String"),
      some (.identifier ⟨1, ⟨33, 34, 2, 24⟩⟩ "x")⟩), ⟨10, 34, 2, 1⟩⟩]
  span := ⟨0, 9, 1, 1⟩
  decl := ⟨.letVar, "x", none, some (.literal ⟨0, ⟨8, 9, 1, 9⟩⟩ (.number "1" .int))⟩
  isDefault := false
  exportSpan := ⟨0, 9, 1, 1⟩

/-- The variable has its type for the other export, which is reported in either case. -/
theorem check_exported_beforeMisfit :
    beforeMisfit.decl.name ∉ beforeMisfit.rest.declaredNames ∧ beforeMisfit.FoundInTime [] ∧
      beforeMisfit.Movable [] ∧
      .ofSpan .type (TypeFault.notAssignable .int .string).message ⟨33, 34, 2, 24⟩ ∈
        (beforeMisfit.exported.check []).diagnostics := by
  have hnew : beforeMisfit.decl.name ∉ beforeMisfit.rest.declaredNames := by decide +kernel
  have hexported : (beforeMisfit.exported.check []).diagnostics =
      [.ofSpan .type (TypeFault.notAssignable .int .string).message ⟨33, 34, 2, 24⟩] := by
    decide +kernel
  have hplain : .ofSpan .type (TypeFault.notAssignable .int .string).message ⟨33, 34, 2, 24⟩ ∈
      (beforeMisfit.plain.check []).diagnostics := by
    decide +kernel
  have hmessages : (TypeFault.undefinedVariable "x").message ≠
        (TypeFault.notAssignable .int .string).message ∧
      (TypeFault.unknownComponent "x").message ≠
        (TypeFault.notAssignable .int .string).message := by
    decide +kernel
  have hfound : beforeMisfit.FoundInTime [] := by
    intro span
    rw [hexported, List.mem_singleton, List.mem_singleton]
    exact ⟨fun heq => hmessages.1 (congrArg Diagnostic.message heq),
      fun heq => hmessages.2 (congrArg Diagnostic.message heq)⟩
  have hmovable : beforeMisfit.Movable [] := by
    intro part hpart y hy
    obtain rfl := List.mem_singleton.1 hpart
    cases hy
  exact ⟨hnew, hfound, hmovable, (check_exported hnew hfound hmovable _).2 hplain⟩

/-- `let x = 1`, with a function that returns `x`. -/
def returned : VariableExport where
  imports := []
  functions := [⟨"f", [], none, ⟨[.returnStmt ⟨34, 42, 3, 3⟩
    (some (.identifier ⟨1, ⟨41, 42, 3, 10⟩⟩ "x"))], ⟨30, 44, 2, 14⟩⟩, false, [], ⟨17, 44, 2, 1⟩⟩]
  components := []
  before := []
  after := []
  front := []
  back := []
  span := ⟨7, 16, 1, 8⟩
  decl := ⟨.letVar, "x", none, some (.literal ⟨0, ⟨15, 16, 1, 16⟩⟩ (.number "1" .int))⟩
  isDefault := false
  exportSpan := ⟨0, 16, 1, 1⟩

/-- The function is checked before the exports, and does not find a variable that is exported. -/
theorem check_reports_exportedVariable :
    (returned.plain.check []).diagnostics = [] ∧
      (returned.exported.check []).diagnostics =
        [.ofSpan .type (TypeFault.undefinedVariable "x").message ⟨41, 42, 3, 10⟩] := by
  decide +kernel

end VariableExport

end ComponentLang
