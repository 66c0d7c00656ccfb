import ComponentLang.Proofs.Typing.MethodsLast
import ComponentLang.Proofs.Typing.Scoped
import Mathlib.Data.List.Induction

/-!
# What is summarized for a component

The state of a component are the names that its members introduce, in order: each variable that is
declared, and each plain assignment to a name that the scope of the component does not have yet. The
scope has the names of the methods from the beginning, and it keeps what it has got, so the names
that are introduced can be read off the members. Their types are those of the scope when all members
have been checked.
-/
namespace ComponentLang

open Checking Check

/-! ## Names in the scope at hand -/

/-- The names that the innermost scope has. -/
def Scopes.here (s : Scopes) : Set String := {x | s.definesHere x}

namespace Scopes

variable {s t : Scopes} {D : Set String} {x : String}

theorem mem_here : x ∈ s.here ↔ x ∈ s.inner.map TypedName.name := TypedName.isSome_lookup?

theorem here_push (s : Scopes) : s.push.here = ∅ := by
  ext x
  exact iff_of_false nofun (Set.notMem_empty x)

theorem mem_here_define (s : Scopes) (x : String) (type : Ty) : x ∈ (s.define x type).here := by
  change (TypedName.lookup? x (TypedName.put x type s.inner)).isSome = true
  rw [TypedName.lookup?_put, if_pos rfl]
  rfl

theorem Widens.here_subset (h : Widens D s t) : s.here ⊆ t.here := by
  obtain ⟨added, hadded, -⟩ := h.inner
  intro x hx
  rw [mem_here] at hx ⊢
  rw [hadded]
  exact List.mem_append_left added hx

/-- If all the names are there that may come in, they are those that have come in. -/
theorem Widens.here_eq (h : Widens D s t) (hD : D ⊆ t.here) : t.here = s.here ∪ D := by
  refine Set.Subset.antisymm (fun x hx => ?_) (Set.union_subset h.here_subset hD)
  obtain ⟨added, hadded, hmem⟩ := h.inner
  rw [mem_here, hadded, List.mem_append] at hx
  exact hx.imp mem_here.2 (hmem x)

end Scopes

namespace Check

variable {α : Type} {p : Check α} {c : Checking} {D : Set String}

theorem Fixes.here (h : LeavesScopes p) (c : Checking) :
    (p.run c).2.scopes.here = c.scopes.here := by
  rw [h c]

theorem mem_here_function (f : Function) (c : Checking) :
    f.name ∈ ((function f).run c).2.scopes.here := by
  obtain ⟨name, params, returnType, ⟨statements, blockSpan⟩, isAsync, modifiers, span⟩ := f
  rw [Check.function]
  exact Scopes.mem_here_define _ name _

theorem mem_here_variableDecl (decl : VariableDecl) (c : Checking) :
    decl.name ∈ ((variableDecl decl).run c).2.scopes.here := by
  rw [variableDecl_eq]
  exact Scopes.mem_here_define _ decl.name _

theorem mem_here_importNames {names : List String} {x : String} (hx : x ∈ names) (c : Checking) :
    x ∈ ((importNames names).run c).2.scopes.here := by
  induction names generalizing c with
  | nil => cases hx
  | cons name rest ih =>
      rcases List.mem_cons.1 hx with rfl | hrest
      · have hkept : Defines Set.univ (importNames rest) := defines_importNames fun _ _ => trivial
        exact (hkept _).here_subset (Scopes.mem_here_define c.scopes x .any)
      · exact ih hrest _

mutual

/-- What a statement declares where it stands is there when it has been checked. -/
theorem mem_here_stmt : ∀ (s : Stmt) (c : Checking),
    ∀ x ∈ s.declared, x ∈ ((stmt s).run c).2.scopes.here
  | .variableDecl span decl, c, x, hx => by
    rw [Check.stmt, List.mem_singleton.1 hx]
    exact mem_here_variableDecl decl c
  | .functionDecl span f, c, x, hx => by
    rw [Check.stmt, List.mem_singleton.1 hx]
    exact mem_here_function f c
  | .importDecl span item, c, x, hx => by
    rw [Check.stmt]
    exact mem_here_importNames hx c
  | .exportDecl span item, c, x, hx => by
    rw [Check.stmt]
    exact mem_here_exportDecl item c x hx
  | .ifElse span test consequent alternate, c, x, hx => by
    rw [Check.stmt]
    exact mem_here_stmt? alternate _ x hx
  | .expression .., _, _, hx | .block _, _, _, hx | .assignment .., _, _, hx
  | .whileLoop .., _, _, hx | .forLoop .., _, _, hx | .forIn .., _, _, hx
  | .returnStmt .., _, _, hx | .breakStmt _, _, _, hx | .continueStmt _, _, _, hx
  | .tryStmt .., _, _, hx | .throwStmt .., _, _, hx | .asyncBlock .., _, _, hx
  | .error .., _, _, hx => by cases hx

theorem mem_here_stmt? : ∀ (s : Option Stmt) (c : Checking),
    ∀ x ∈ Stmt.declared? s, x ∈ ((stmt? s).run c).2.scopes.here
  | none, _, _, hx => by cases hx
  | some s, c, x, hx => mem_here_stmt s c x hx

theorem mem_here_exportDecl : ∀ (e : Export) (c : Checking),
    ∀ x ∈ e.declared, x ∈ ((exportDecl e).run c).2.scopes.here
  | ⟨isDefault, .function f, span⟩, c, x, hx => by
    rw [Check.exportDecl, List.mem_singleton.1 hx]
    exact mem_here_function f c
  | ⟨isDefault, .component k, span⟩, _, _, hx => by cases hx
  | ⟨isDefault, .statement s, span⟩, c, x, hx => by
    rw [Check.exportDecl]
    exact mem_here_stmt s c x hx

end

/-- The names in the scope at hand are those that were there and those that a statement declares. -/
theorem here_stmt (s : Stmt) (c : Checking) :
    ((stmt s).run c).2.scopes.here = c.scopes.here ∪ {x | x ∈ s.declared} :=
  (defines_stmt s _ (fun _ h => h) c).here_eq (mem_here_stmt s c)

end Check

/-! ## Names that members introduce -/

namespace Stmt

def method? : Stmt → Option Function
  | .functionDecl _ f => some f
  | _ => none

/-- The names that a member leaves in the scope of its component. -/
def bound (s : Stmt) : List String := s.declared ++ s.stateName?.toList

/-- The state that a member begins where the component has the names `known`. -/
def introduces (known : List String) : Stmt → List String
  | .variableDecl _ decl => [decl.name]
  | s => s.stateName?.toList.filter (· ∉ known)

end Stmt

/-- The state that members begin, in order, where the component has the names `known`. -/
def introduced (known : List String) : List Stmt → List String
  | [] => []
  | s :: rest =>
    if isMethod s then introduced known rest
    else s.introduces known ++ introduced (known ++ s.bound) rest

section Introduced

variable {known : List String} {s : Stmt} {ss : List Stmt} {x : String}

theorem Stmt.mem_bound_of_introduces (hx : x ∈ s.introduces known) : x ∈ s.bound := by
  unfold introduces at hx
  split at hx
  · exact List.mem_append_left _ hx
  · exact List.mem_append_right _ (List.mem_of_mem_filter hx)

/-- The names that members leave in the scope of their component. -/
def boundBy (ss : List Stmt) : List String := (ss.filter fun s => !isMethod s).flatMap Stmt.bound

theorem introduced_append (known : List String) (ss others : List Stmt) :
    introduced known (ss ++ others) =
      introduced known ss ++ introduced (known ++ boundBy ss) others := by
  induction ss generalizing known with
  | nil => simp [introduced, boundBy]
  | cons s rest ih =>
      rw [List.cons_append, introduced, introduced]
      split
      next hmethod => rw [ih, boundBy, boundBy, List.filter_cons_of_neg (by simp [hmethod])]
      next hmethod =>
        rw [ih, boundBy, boundBy, List.filter_cons_of_pos (by simp [hmethod]), List.flatMap_cons]
        simp only [List.append_assoc]

theorem mem_boundBy_of_introduced (hx : x ∈ introduced known ss) : x ∈ boundBy ss := by
  induction ss generalizing known with
  | nil => cases hx
  | cons s rest ih =>
      rw [introduced] at hx
      unfold boundBy
      split at hx
      next hmethod =>
        rw [List.filter_cons_of_neg (by simp [hmethod])]
        exact ih hx
      next hmethod =>
        rw [List.filter_cons_of_pos (by simp [hmethod]), List.flatMap_cons]
        exact (List.mem_append.1 hx).elim
          (fun h => List.mem_append_left _ (Stmt.mem_bound_of_introduces h))
          (fun h => List.mem_append_right _ (ih h))

/-- Only a variable that is declared can be introduced again. -/
theorem nodup_introduced_iff : (introduced known ss).Nodup ↔
    ∀ before span decl after, ss = before ++ .variableDecl span decl :: after →
      decl.name ∉ introduced known before := by
  constructor
  · rintro hnodup before span decl after rfl hmem
    rw [introduced_append, introduced] at hnodup
    exact (List.nodup_append.1 hnodup).2.2 _ hmem _ List.mem_cons_self rfl
  · intro h
    induction ss using List.reverseRecOn with
    | nil => exact List.nodup_nil
    | append_singleton ss s ih =>
        have hbefore : (introduced known ss).Nodup := by
          refine ih fun before span decl after heq => h before span decl (after ++ [s]) ?_
          rw [heq, List.append_assoc]
          rfl
        rw [introduced_append, introduced, introduced, introduced, List.append_nil]
        split
        next => rwa [List.append_nil]
        next =>
          refine List.nodup_append.2 ⟨hbefore, ?_, ?_⟩
          · unfold Stmt.introduces
            split
            · exact List.nodup_singleton _
            · refine List.Nodup.filter _ ?_
              cases s.stateName? <;> simp
          · rintro x hx _ hs rfl
            unfold Stmt.introduces at hs
            split at hs
            next span decl _ =>
              rw [List.mem_singleton.1 hs] at hx
              exact h ss span decl [] rfl hx
            next =>
              have hfresh : x ∉ known ++ boundBy ss := by simpa using List.of_mem_filter hs
              exact hfresh (List.mem_append_right _ (mem_boundBy_of_introduced hx))

end Introduced

namespace Component

/-- The direct function members of a component, in order. -/
def methods (k : Component) : List Function := k.statements.filterMap Stmt.method?

def methodNames (k : Component) : List String := k.methods.map Function.name

/-- The names of the state of a component, as its members introduce them. -/
def stateNames (k : Component) : List String := introduced k.methodNames k.statements

end Component

namespace Check

variable {c : Checking} {known : List String}

theorem here_define (name : String) (type : Ty) (c : Checking) :
    ((define name type).run c).2.scopes.here = c.scopes.here ∪ {name} :=
  (Scopes.widens_define (Set.mem_singleton name) c.scopes type).here_eq
    (Set.singleton_subset_iff.2 (Scopes.mem_here_define _ _ _))

theorem here_bind_define {p : Check Ty} (hp : LeavesScopes p) (name : String) (c : Checking) :
    ((p >>= define name).run c).2.scopes.here = c.scopes.here ∪ {name} := by
  rw [StateT.run_bind, ← hp.here c]
  exact here_define name _ _

theorem here_declareMethods (ss : List Stmt) (c : Checking) :
    ((declareMethods ss).run c).2.scopes.here =
      c.scopes.here ∪ {x | x ∈ (ss.filterMap Stmt.method?).map Function.name} := by
  induction ss generalizing c with
  | nil =>
      ext x
      exact (or_iff_left List.not_mem_nil).symm
  | cons s rest ih =>
      cases s with
      | functionDecl span f =>
          have hrest := ih ((signature f >>= define f.name).run c).2
          rw [here_bind_define (fixes_signature f), Set.union_assoc] at hrest
          exact hrest.trans (congrArg (c.scopes.here ∪ ·) (Set.ext fun x => List.mem_cons.symm))
      | _ => exact ih c

theorem members_step_assignment (span : Span) (node : Node) (name : String) (value : Expr)
    (hknown : c.scopes.here = {x | x ∈ known}) (rest : List Stmt) :
    ∃ d, (members (.assignment span (.identifier node name) .assign value :: rest)).run c =
        (([name].filter (· ∉ known) ++ ·) <$> members rest).run d ∧
      d.scopes.here = {x | x ∈ known ++ [name]} := by
  rw [members_assignment]
  have hmem : c.scopes.definesHere name = true ↔ name ∈ known := Set.ext_iff.1 hknown name
  by_cases hname : name ∈ known
  · have hstmt := here_stmt (.assignment span (.identifier node name) .assign value) c
    rw [if_pos (hmem.2 hname), List.filter_cons_of_neg (by simpa using hname), List.filter_nil]
    refine ⟨_, rfl, hstmt.trans ?_⟩
    rw [hknown]
    ext x
    have hcases : x = name → x ∈ known := fun h => h ▸ hname
    simpa [Stmt.declared] using hcases
  · rw [if_neg (mt hmem.1 hname), List.filter_cons_of_pos (by simpa using hname), List.filter_nil]
    refine ⟨_, rfl, (here_define name _ _).trans ?_⟩
    have hleaves : LeavesScopes (do
        let type ← expr value
        record node.id type) :=
      (fixes_expr value).bind fun type => fixes_record node.id type
    have hbefore := (hleaves.here c).trans hknown
    have hafter : {x | x ∈ known} ∪ {name} = {x | x ∈ known ++ [name]} := by
      ext x
      simp [or_comm]
    exact (congrArg (· ∪ {name}) hbefore).trans hafter

/-- One member: the state that it begins, and the names that the component has after it. -/
theorem members_step {s : Stmt} (hmethod : isMethod s = false)
    (hknown : c.scopes.here = {x | x ∈ known}) (rest : List Stmt) :
    ∃ d, (members (s :: rest)).run c = ((s.introduces known ++ ·) <$> members rest).run d ∧
      d.scopes.here = {x | x ∈ known ++ s.bound} := by
  have hstmt : ((stmt s).run c).2.scopes.here = {x | x ∈ known ++ s.declared} := by
    rw [here_stmt, hknown]
    ext x
    exact List.mem_append.symm
  cases hordinary : isOrdinary s with
  | true =>
    have hname : s.stateName? = none := by
      cases s with
      | assignment span target op value =>
          cases target <;> cases op <;> first | rfl | cases hordinary
      | _ => rfl
    have hintroduces : s.introduces known = [] := by
      unfold Stmt.introduces
      split
      · cases hordinary
      · rw [hname]
        rfl
    refine ⟨((stmt s).run c).2, ?_, ?_⟩
    · rw [members_of_ordinary hordinary, hintroduces]
      rfl
    · rw [hstmt, Stmt.bound, hname, Option.toList_none, List.append_nil]
  | false =>
    cases s with
    | functionDecl => cases hmethod
    | variableDecl span decl =>
        refine ⟨((stmt (.variableDecl span decl)).run c).2, ?_, hstmt⟩
        rw [Check.members, Check.stmt]
        rfl
    | assignment span target op value =>
        cases target with
        | identifier node name =>
            cases op with
            | assign => exact members_step_assignment span node name value hknown rest
            | _ => cases hordinary
        | _ => cases hordinary
    | _ => cases hordinary

theorem members_result (ss : List Stmt) (hknown : c.scopes.here = {x | x ∈ known}) :
    ((members ss).run c).1 = introduced known ss ∧
      ∀ x ∈ introduced known ss, x ∈ ((members ss).run c).2.scopes.here := by
  induction ss generalizing c known with
  | nil => exact ⟨rfl, List.forall_mem_nil _⟩
  | cons s rest ih =>
      unfold introduced
      split
      next hmethod =>
        cases s with
        | functionDecl span f => exact ih hknown
        | _ => cases hmethod
      next hmethod =>
        rw [Bool.not_eq_true] at hmethod
        obtain ⟨d, hrun, hd⟩ := members_step hmethod hknown rest
        obtain ⟨hresult, hhere⟩ := ih hd
        rw [hrun]
        refine ⟨congrArg (s.introduces known ++ ·) hresult, fun x hx => ?_⟩
        rcases List.mem_append.1 hx with hfirst | hlater
        · have hbound : x ∈ d.scopes.here :=
            hd ▸ List.mem_append_right known (Stmt.mem_bound_of_introduces hfirst)
          exact (defines_members rest d).here_subset hbound
        · exact hhere x hlater

/-- Each method has its turn after the members that are no methods. -/
theorem methods_result (ss : List Stmt) (c : Checking) :
    List.Forall₂ (fun f m => m.name = f.name ∧ ∃ span d,
        (TreePart.stmt (.functionDecl span f), d) ∈
          TreePart.inOrder ((ss.filter isMethod).map .stmt) c ∧ ((function f).run d).1 = m.type)
      (ss.filterMap Stmt.method?) ((methods ss).run c).1 := by
  induction ss generalizing c with
  | nil => exact .nil
  | cons s rest ih =>
      cases s with
      | functionDecl span f =>
          rw [Check.methods]
          refine .cons ⟨rfl, span, c, List.mem_cons_self, rfl⟩ ?_
          refine (ih ((function f).run c).2).imp fun f' m hm => ?_
          obtain ⟨hname, span', d, hd, htype⟩ := hm
          refine ⟨hname, span', d, List.mem_cons_of_mem _ ?_, htype⟩
          rw [TreePart.check, Check.stmt]
          exact hd
      | _ => exact ih c

end Check

/-! ## Summaries -/

namespace Component

/-- The state when the methods of a component are in sight. -/
def entered (k : Component) (c : Checking) : Checking :=
  ((declareMethods k.statements).run c.opened).2

/-- The state when the methods of a component are next. -/
def beforeMethods (k : Component) (c : Checking) : Checking :=
  ((members k.statements).run (k.entered c)).2

/-- The state when all members of a component have been checked. -/
def afterMembers (k : Component) (c : Checking) : Checking :=
  ((Check.methods k.statements).run (k.beforeMethods c)).2

theorem here_entered (k : Component) (c : Checking) :
    (k.entered c).scopes.here = {x | x ∈ k.methodNames} := by
  rw [entered, here_declareMethods]
  exact (congrArg (· ∪ _) (Scopes.here_push c.scopes)).trans (Set.empty_union _)

end Component

/-- What is said of a component that is checked from `c`. The types of its state are those that its
own scope has when all members have been checked, and the types of its methods are those that the
checks of the methods give. -/
structure Summarizes (k : Component) (c : Checking) (summary : ComponentSummary) : Prop where
  name : summary.name = k.name
  names : summary.state.map TypedName.name = k.stateNames
  types : ∀ s ∈ summary.state,
    TypedName.lookup? s.name (k.afterMembers c).scopes.inner = some s.type
  methods : List.Forall₂ (fun f m => m.name = f.name ∧ ∃ span d,
      (TreePart.stmt (.functionDecl span f), d) ∈ (TreePart.component k).turns c ∧
        ((function f).run d).1 = m.type) k.methods summary.methods

/-- The names that a scope has itself are found there, each with its type. -/
theorem Scopes.found_here {s : Scopes} {names : List String} (h : ∀ x ∈ names, x ∈ s.here) :
    let found := names.filterMap fun x => (s.lookup? x).map (TypedName.mk x)
    found.map TypedName.name = names ∧
      ∀ e ∈ found, TypedName.lookup? e.name s.inner = some e.type := by
  have hlookup : ∀ x ∈ names, ∃ type, s.lookup? x = some type ∧
      TypedName.lookup? x s.inner = some type := by
    intro x hx
    obtain ⟨type, htype⟩ := Option.isSome_iff_exists.1 (h x hx)
    refine ⟨type, ?_, htype⟩
    rw [lookup?, List.findSome?_cons, htype]
  constructor
  · rw [List.map_filterMap]
    refine (List.filterMap_congr fun x hx => ?_).trans List.filterMap_some
    obtain ⟨type, htype, -⟩ := hlookup x hx
    rw [htype]
    rfl
  · intro e he
    obtain ⟨x, hx, hfound⟩ := List.mem_filterMap.1 he
    obtain ⟨type, htype, hinner⟩ := hlookup x hx
    rw [htype] at hfound
    cases hfound
    exact hinner

/-- A component is summarized last. -/
theorem summarizes_component (k : Component) (c : Checking) :
    ∃ earlier summary, ((component k).run c).2.summaries = earlier ++ [summary] ∧
      Summarizes k c summary := by
  obtain ⟨hnames, hhere⟩ := members_result k.statements (k.here_entered c)
  have hkept : ∀ x ∈ k.stateNames, x ∈ (k.afterMembers c).scopes.here :=
    fun x hx => (defines_methods k.statements _).here_subset (hhere x hx)
  have hlast : ((markups k.body).run (k.afterMembers c)).2.scopes = (k.afterMembers c).scopes :=
    fixes_markups k.body _
  have hsummary : ∃ earlier, ((component k).run c).2.summaries = earlier ++ [⟨k.name,
      ((members k.statements).run (k.entered c)).1.filterMap fun x =>
        (((markups k.body).run (k.afterMembers c)).2.scopes.lookup? x).map (TypedName.mk x),
      ((Check.methods k.statements).run (k.beforeMethods c)).1⟩] := by
    obtain ⟨name, modifiers, statements, body, span⟩ := k
    rw [Check.component]
    exact ⟨_, rfl⟩
  rw [hnames, hlast] at hsummary
  obtain ⟨earlier, hearlier⟩ := hsummary
  obtain ⟨hstate, htypes⟩ := Scopes.found_here hkept
  refine ⟨earlier, _, hearlier, rfl, hstate, htypes, ?_⟩
  refine (methods_result k.statements (k.beforeMethods c)).imp fun f m hm => ?_
  obtain ⟨hname, span, d, hd, htype⟩ := hm
  exact ⟨hname, span, d, List.mem_append_right _ hd, htype⟩

/-- The check of a program comes to each component in it, wherever that stands, and summarizes it
then. The state in the summary are the names that the members of the component introduce, in order:
each variable that is declared, and each name that a plain assignment is the first to give to the
scope of the component. Their types are those of that scope when all members have been checked. The
methods are the function members, in order, with the types that their checks give. A name is listed
once, unless a variable is declared with a name that has been introduced before. Where the methods
stand makes no difference to what is found. -/
theorem component_summarized {p : Program} {k : Component} (hk : p.Contains (.component k))
    (external : List TypedName) :
    (∃ c, LeadsTo (.program p, .start external) (.component k, c)) ∧
    (∀ c, LeadsTo (.program p, .start external) (.component k, c) →
      ∃ earlier summary later, ((component k).run c).2.summaries = earlier ++ [summary] ∧
        (p.check external).components = earlier ++ summary :: later ∧ Summarizes k c summary) ∧
    (k.stateNames.Nodup ↔ ∀ before span decl after,
      k.statements = before ++ .variableDecl span decl :: after →
        decl.name ∉ introduced k.methodNames before) ∧
    ∀ q : Program, q.methodsLast = p.methodsLast →
      (q.check external).diagnostics = (p.check external).diagnostics ∧
        (q.check external).types = (p.check external).types ∧
        (q.check external).components = (p.check external).components := by
  refine ⟨?_, fun c hc => ?_, nodup_introduced_iff, fun q hq => check_of_methodsLast_eq hq external⟩
  · have hturn : TreePart.Turnable (.component k) (.program p) :=
      ⟨rfl, fun _ => TreePart.noConfusion, fun _ => TreePart.noConfusion⟩
    exact TreePart.exists_leadsTo hturn hk _
  · obtain ⟨earlier, summary, hsummaries, hsummary⟩ := summarizes_component k c
    obtain ⟨later, hlater⟩ := hc.made
    have hcomponents : (p.check external).components = ((component k).run c).2.summaries ++ later :=
      hlater.symm
    refine ⟨earlier, summary, later, hsummaries, ?_, hsummary⟩
    rw [hcomponents, hsummaries, List.append_assoc]
    rfl

/-- A component that gives a new meaning to the name `Math`, with a method that stands before its
state. -/
def counter : Component :=
  ⟨"Counter", [],
    [.functionDecl ⟨20, 40, 2, 3⟩ ⟨"reset", [], none,
      ⟨[.assignment ⟨30, 38, 2, 13⟩ (.identifier ⟨0, ⟨30, 34, 2, 13⟩⟩ "Math") .assign
        (.literal ⟨1, ⟨37, 38, 2, 20⟩⟩ (.number "0" .int))], ⟨28, 40, 2, 11⟩⟩,
      false, [], ⟨20, 40, 2, 3⟩⟩,
    .assignment ⟨43, 51, 3, 3⟩ (.identifier ⟨2, ⟨43, 47, 3, 3⟩⟩ "Math") .assign
      (.literal ⟨3, ⟨50, 51, 3, 10⟩⟩ (.number "1" .int)),
    .variableDecl ⟨54, 66, 4, 3⟩ ⟨.letVar, "label", none,
      some (.literal ⟨4, ⟨66, 69, 4, 15⟩⟩ (.string "a"))⟩],
    [], ⟨0, 71, 1, 1⟩⟩

/-- The state of the component, though there is a `Math` outside. -/
theorem component_summarized_counter :
    let p : Program := ⟨[], [], [], [counter], []⟩
    p.Contains (.component counter) ∧
      ∃ summary ∈ (p.check []).components, summary.name = "Counter" ∧
        summary.state.map TypedName.name = ["Math", "label"] ∧
        (summary.state.map TypedName.name).Nodup := by
  intro p
  have hk : p.Contains (.component counter) := .single List.mem_cons_self
  obtain ⟨⟨c, hc⟩, hsummarized, hnodup, -⟩ := component_summarized hk []
  obtain ⟨earlier, summary, later, -, hcomponents, hsummary⟩ := hsummarized c hc
  have hnames : summary.state.map TypedName.name = ["Math", "label"] :=
    hsummary.names.trans (by decide)
  refine ⟨hk, summary, ?_, hsummary.name, hnames, ?_⟩
  · rw [hcomponents]
    exact List.mem_append_right _ List.mem_cons_self
  · rw [hnames]
    decide

/-- A variable that is declared twice is listed twice. -/
theorem component_lists_redeclared :
    (Analysis.ofSource? {} [] (.ofString "component A \x7b\n  let x = 1\n  let x = 2\n\x7d")).map
        (fun a => a.checked.components.map fun k => k.state.map TypedName.name) =
      some [["x", "x"]] ∧
    ¬ ["x", "x"].Nodup := by
  constructor
  · decide +kernel
  · decide

end ComponentLang
