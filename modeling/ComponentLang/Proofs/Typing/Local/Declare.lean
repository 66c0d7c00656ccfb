import ComponentLang.Proofs.Typing.Local.Sequence

/-!
# Bringing everything at the top into sight

What is declared at the top is defined in the outermost scope, and only what is written of functions
can be wrong. `Declares names c d` says what the outermost scope says in `d`: the names have the
types in `names`, and of other names it says what it said in `c`.
-/
namespace ComponentLang

open Scopes Checking

namespace Check

variable {α β : Type} {p : Check α} {f : α → Check β}

/-! ## Type expressions -/

/-- The check reports faults and changes nothing else. -/
def OnlyReports (p : Check α) : Prop := ∀ c, ∃ found, (p.run c).2 = { c with diagnostics := found }

theorem onlyReports_pure (a : α) : OnlyReports (pure a) := fun c => ⟨c.diagnostics, rfl⟩

theorem OnlyReports.bind (hp : OnlyReports p) (hf : ∀ a, OnlyReports (f a)) :
    OnlyReports (p >>= f) := by
  intro c
  obtain ⟨found, hfound⟩ := hp c
  obtain ⟨later, hlater⟩ := hf (p.run c).1 (p.run c).2
  refine ⟨later, hlater.trans ?_⟩
  rw [hfound]

theorem onlyReports_settle (verdict : Verdict) (span : Span) :
    OnlyReports (settle verdict span) := by
  unfold settle
  cases verdict.fault with
  | none => exact onlyReports_pure _
  | some fault => exact fun c => ⟨_, addDiagnostic_eq c _⟩

theorem onlyReports_namedType (name : String) (span : Span) :
    OnlyReports (namedType name span) := by
  have hknown : OnlyReports (isComponent name) := fun c => ⟨c.diagnostics, rfl⟩
  unfold namedType
  split
  · exact onlyReports_pure _
  · refine hknown.bind fun known => ?_
    split
    · exact onlyReports_pure _
    · exact onlyReports_settle _ span

mutual

theorem onlyReports_resolve : ∀ a : TypeExpr, OnlyReports (resolve a)
  | .named span name => onlyReports_namedType name span
  | .array _ element => (onlyReports_resolve element).bind fun _ => onlyReports_pure _
  | .optional _ element => (onlyReports_resolve element).bind fun _ => onlyReports_pure _
  | .union _ members => (onlyReports_resolveAll members).bind fun _ => onlyReports_pure _

theorem onlyReports_resolveAll : ∀ as : List TypeExpr, OnlyReports (resolveAll as)
  | [] => onlyReports_pure _
  | a :: rest =>
    (onlyReports_resolve a).bind fun _ =>
      (onlyReports_resolveAll rest).bind fun _ => onlyReports_pure _

end

theorem onlyReports_resolve? (a : Option TypeExpr) : OnlyReports (resolve? a) := by
  cases a with
  | none => exact onlyReports_pure _
  | some a => exact (onlyReports_resolve a).bind fun _ => onlyReports_pure _

theorem onlyReports_signature (f : Function) : OnlyReports (signature f) := by
  have hparams : ∀ params : List Param, OnlyReports (paramTypes params) := by
    intro params
    induction params with
    | nil => exact onlyReports_pure _
    | cons param rest ih =>
        exact (onlyReports_resolve? param.typeExpr).bind fun _ =>
          ih.bind fun _ => onlyReports_pure _
  unfold signature
  exact (hparams f.params).bind fun params =>
    (onlyReports_resolve? f.returnType).bind fun _ => onlyReports_pure _

end Check

/-! ## Names at the top -/

theorem Scopes.outermost_define_of_outer_nil {s : Scopes} (h : s.outer = []) (name other : String)
    (type : Ty) :
    (s.define name type).outermost other = if name = other then some type else s.outermost other := by
  have hdefined : (s.define name type).outer = [] := h
  rw [← lookup?_of_outer_nil hdefined, ← lookup?_of_outer_nil h, lookup?_define]

namespace Checking

/-- The names are defined in the outermost scope. Reports may be made, and no other name changes. -/
structure Declares (names : List TypedName) (c d : Checking) : Prop where
  external : d.external = c.external
  returns : d.returns = c.returns
  types : d.types = c.types
  summaries : d.summaries = c.summaries
  outer : d.scopes.outer = c.scopes.outer
  named : ∀ t ∈ names, d.scopes.outermost t.name = some t.type
  others : ∀ y, y ∉ names.map TypedName.name → d.scopes.outermost y = c.scopes.outermost y

/-- No name has two types. -/
def Unambiguous (names : List TypedName) : Prop :=
  ∀ t ∈ names, ∀ u ∈ names, t.name = u.name → t.type = u.type

variable {names later : List TypedName} {c c' d d' e : Checking}

theorem declares_refl (c : Checking) : Declares [] c c :=
  ⟨rfl, rfl, rfl, rfl, rfl, List.forall_mem_nil _, fun _ _ => rfl⟩

theorem Declares.trans (hcd : Declares names c d) (hde : Declares later d e)
    (h : Unambiguous (names ++ later)) : Declares (names ++ later) c e where
  external := hde.external.trans hcd.external
  returns := hde.returns.trans hcd.returns
  types := hde.types.trans hcd.types
  summaries := hde.summaries.trans hcd.summaries
  outer := hde.outer.trans hcd.outer
  named := by
    intro t ht
    by_cases hlater : t.name ∈ later.map TypedName.name
    · -- The later definition gives the name the same type.
      obtain ⟨u, hu, hname⟩ := List.mem_map.1 hlater
      rw [← hname, hde.named u hu, h u (List.mem_append_right _ hu) t ht hname]
    · rcases List.mem_append.1 ht with hnames | hmem
      · rw [hde.others _ hlater, hcd.named t hnames]
      · exact absurd (List.mem_map_of_mem hmem) hlater
  others := by
    intro y hy
    rw [List.map_append, List.mem_append, not_or] at hy
    rw [hde.others y hy.2, hcd.others y hy.1]

theorem Declares.atTop (h : Declares names c d) (hc : c.AtTop) : d.AtTop :=
  ⟨h.outer.trans hc.outer, h.returns.trans hc.returns⟩

theorem Declares.firm (h : Declares names c d) (hc : c.Firm)
    (hnames : ∀ t ∈ names, t.type ≠ .unknown) : d.Firm := by
  intro y
  by_cases hy : y ∈ names.map TypedName.name
  · obtain ⟨t, ht, rfl⟩ := List.mem_map.1 hy
    rw [h.named t ht]
    exact fun heq => hnames t ht (Option.some.inj heq)
  · rw [h.others y hy]
    exact hc y

/-- The same names are declared, in whatever order. -/
theorem Declares.agree (h : Declares names c d) (h' : Declares later c' d')
    (hsame : ∀ t, t ∈ later ↔ t ∈ names)
    (hc : ∀ y, c'.scopes.outermost y = c.scopes.outermost y) (y : String) :
    d'.scopes.outermost y = d.scopes.outermost y := by
  have hnames : y ∈ later.map TypedName.name ↔ y ∈ names.map TypedName.name := by
    simp only [List.mem_map, hsame]
  by_cases hy : y ∈ names.map TypedName.name
  · obtain ⟨t, ht, rfl⟩ := List.mem_map.1 hy
    rw [h.named t ht, h'.named t ((hsame t).2 ht)]
  · rw [h.others y hy, h'.others y (mt hnames.1 hy), hc]

theorem declares_define (h : c.scopes.outer = []) (name : String) (type : Ty) :
    Declares [⟨name, type⟩] c { c with scopes := c.scopes.define name type } where
  external := rfl
  returns := rfl
  types := rfl
  summaries := rfl
  outer := rfl
  named := by
    rw [List.forall_mem_singleton]
    exact (outermost_define_of_outer_nil h name name type).trans (if_pos rfl)
  others := by
    intro y hy
    have hname : name ≠ y := fun heq => hy (by simp [heq])
    exact (outermost_define_of_outer_nil h name y type).trans (if_neg hname)

end Checking

namespace Check

/-- What each item declares is declared, as long as `Inv` holds. -/
theorem declares_each {α : Type} (check : α → Check Unit) (gives : α → List TypedName)
    (Inv : Checking → Prop) {items : List α} {c : Checking}
    (h : ∀ a ∈ items, ∀ c, Inv c →
      Inv ((check a).run c).2 ∧ Declares (gives a) c ((check a).run c).2)
    (hunambiguous : Unambiguous (items.flatMap gives)) (hc : Inv c) :
    Inv ((each check items).run c).2 ∧
      Declares (items.flatMap gives) c ((each check items).run c).2 := by
  induction items generalizing c with
  | nil => exact ⟨hc, declares_refl c⟩
  | cons a rest ih =>
      rw [List.forall_mem_cons] at h
      obtain ⟨hinv, hfirst⟩ := h.1 c hc
      have hrest : Unambiguous (rest.flatMap gives) := fun t ht u hu =>
        hunambiguous t (List.mem_append_right _ ht) u (List.mem_append_right _ hu)
      obtain ⟨hlast, hlater⟩ := ih h.2 hrest hinv
      exact ⟨hlast, hfirst.trans hlater hunambiguous⟩

theorem unambiguous_of_type {names : List TypedName} (type : Ty) (h : ∀ t ∈ names, t.type = type) :
    Unambiguous names :=
  fun t ht u hu _ => (h t ht).trans (h u hu).symm

/-- The names that an import brings into sight. -/
def importGives (item : Import) : List TypedName :=
  (item.names ++ item.default.toList).map fun name => ⟨name, .any⟩

theorem declares_importNames {c : Checking} (hc : c.AtTop) (names : List String) :
    Declares (names.map fun name => ⟨name, .any⟩) c ((importNames names).run c).2 := by
  induction names generalizing c with
  | nil => exact declares_refl c
  | cons name rest ih =>
      have hfirst := declares_define hc.outer name .any
      refine hfirst.trans (ih (hfirst.atTop hc)) (unambiguous_of_type .any ?_)
      simp

theorem declares_imports {c : Checking} (hc : c.AtTop) (items : List Import) :
    Declares (items.flatMap importGives) c ((each importDecl items).run c).2 := by
  refine (declares_each importDecl importGives AtTop (fun item _ c hc => ?_)
    (unambiguous_of_type .any ?_) hc).2
  · have hnames := declares_importNames hc (item.names ++ item.default.toList)
    exact ⟨hnames.atTop hc, hnames⟩
  · intro t ht
    obtain ⟨item, -, hitem⟩ := List.mem_flatMap.1 ht
    obtain ⟨name, -, rfl⟩ := List.mem_map.1 hitem
    rfl

/-- The name of a component means the component. -/
def componentGives (k : Component) : List TypedName := [⟨k.name, .component k.name⟩]

theorem unambiguous_components (items : List Component) :
    Unambiguous (items.flatMap componentGives) := by
  have htype : ∀ t ∈ items.flatMap componentGives, t.type = .component t.name := by
    intro t ht
    obtain ⟨k, -, hk⟩ := List.mem_flatMap.1 ht
    obtain rfl := List.mem_singleton.1 hk
    rfl
  intro t ht u hu hname
  rw [htype t ht, htype u hu, hname]

theorem declares_components {c : Checking} (hc : c.AtTop) (items : List Component) :
    let d := ((each (fun k => declareComponent k.name) items).run c).2
    Declares (items.flatMap componentGives) c d ∧ d.diagnostics = c.diagnostics ∧
      d.components = c.components ++ items.map Component.name := by
  induction items generalizing c with
  | nil => exact ⟨declares_refl c, rfl, (List.append_nil _).symm⟩
  | cons k rest ih =>
      have hfirst : Declares (componentGives k) c ((declareComponent k.name).run c).2 := by
        have hdefined := declares_define (c := { c with components := c.components ++ [k.name] })
          hc.outer k.name (.component k.name)
        exact ⟨rfl, rfl, rfl, rfl, rfl, hdefined.named, hdefined.others⟩
      obtain ⟨hlater, hdiagnostics, hcomponents⟩ := ih (hfirst.atTop hc)
      exact ⟨hfirst.trans hlater (unambiguous_components (k :: rest)), hdiagnostics,
        hcomponents.trans (List.append_assoc c.components [k.name] _)⟩

/-! ## Functions -/

/-- The name of a function has the type that is written of it, in view of the components. -/
def functionGives (c : Checking) (f : Function) : List TypedName :=
  [⟨f.name, ((signature f).run c).1⟩]

theorem unambiguous_functions (c : Checking) {items : List Function}
    (h : (items.map Function.name).Nodup) : Unambiguous (items.flatMap (functionGives c)) := by
  intro t ht u hu hname
  obtain ⟨f, hf, ht⟩ := List.mem_flatMap.1 ht
  obtain ⟨g, hg, hu⟩ := List.mem_flatMap.1 hu
  obtain rfl := List.mem_singleton.1 ht
  obtain rfl := List.mem_singleton.1 hu
  rw [List.inj_on_of_nodup_map h hf hg hname]

theorem local_declareFunction {V : View} {D : Set String} {f : Function} (h : f.name ∈ D) :
    Local V D (declareFunction f) :=
  (local_signature f).bind fun type => local_define h type

theorem declares_declareFunction {c : Checking} (hc : c.AtTop) (f : Function) :
    Declares (functionGives c f) c ((declareFunction f).run c).2 := by
  obtain ⟨found, hfound⟩ := onlyReports_signature f c
  have hrun : ((declareFunction f).run c).2 = ((define f.name ((signature f).run c).1).run
      { c with diagnostics := found }).2 := by
    rw [← hfound]
    rfl
  rw [hrun]
  have hdefined := declares_define (c := { c with diagnostics := found }) hc.outer f.name
    ((signature f).run c).1
  exact ⟨rfl, rfl, rfl, rfl, rfl, hdefined.named, hdefined.others⟩

end Check

/-- Names do not matter: only the components, the values from outside and the depth are compared. -/
def View.blind : View := ⟨fun _ => False, fun _ => none⟩

theorem View.whole_blind : blind.Whole := fun _ => rfl

namespace Check

theorem matches_blind {c d : Checking} (hc : c.AtTop) (hd : d.AtTop)
    (hexternal : d.external = c.external) (hcomponents : ∀ y, y ∈ d.components ↔ y ∈ c.components) :
    Matches .blind c d :=
  matches_of_entries View.whole_blind (fun _ hy => hy.elim) (by rw [hc.outer, hd.outer]) hexternal
    hcomponents (hd.returns.trans hc.returns.symm)

theorem signature_of_matches {V : View} (hV : V.Whole) {c d : Checking} (h : Matches V c d)
    (f : Function) : ((signature f).run d).1 = ((signature f).run c).1 :=
  ((local_signature (D := ∅) f).parallel hV h).result

/-- Functions are declared with the types and the faults that are found from the state before them,
or from one like it. -/
theorem declares_functions {items : List Function} (hnames : (items.map Function.name).Nodup)
    {c d : Checking} (hc : c.AtTop) (hd : d.AtTop) (hm : Matches .blind c d) :
    let after := ((each declareFunction items).run d).2
    Declares (items.flatMap (functionGives c)) d after ∧ Matches .blind c after ∧
      Adds .blind (.concat (items.map fun f => log (declareFunction f) c)) d after := by
  have hback : ∀ f d, AtTop d → Matches .blind c d →
      Matches .blind c ((declareFunction f).run d).2 := by
    intro f d hd hm
    have hframes := (local_declareFunction (V := .blind) (Set.mem_univ f.name)).frames d
    refine matches_blind hc (hframes.atTop hd) (hframes.external.trans hm.external) fun y => ?_
    rw [hframes.components]
    exact hm.components y
  have hstep : ∀ f ∈ items, ∀ d, AtTop d ∧ Matches .blind c d →
      (AtTop ((declareFunction f).run d).2 ∧ Matches .blind c ((declareFunction f).run d).2) ∧
        Declares (functionGives c f) d ((declareFunction f).run d).2 := by
    rintro f - d ⟨hd, hm⟩
    have hdeclares := declares_declareFunction hd f
    unfold functionGives at hdeclares
    rw [signature_of_matches View.whole_blind hm] at hdeclares
    exact ⟨⟨hdeclares.atTop hd, hback f d hd hm⟩, hdeclares⟩
  obtain ⟨⟨-, hafter⟩, hdeclares⟩ := declares_each declareFunction (functionGives c) _ hstep
    (unambiguous_functions c hnames) ⟨hd, hm⟩
  refine ⟨hdeclares, hafter, ?_⟩
  exact (adds_each View.whole_blind (fun f _ => ⟨_, local_declareFunction (Set.mem_univ f.name)⟩)
    (fun f _ => hback f c hc (matches_refl View.whole_blind c)) hm).2

/-! ## Programs -/

/-- Bring everything at the top into sight, but for the variables. -/
def declareNames (p : Program) : Check Unit := do
  each importDecl p.imports
  each (fun k => declareComponent k.name) p.allComponents
  each declareFunction p.allFunctions

theorem declare_eq (p : Program) : declare p = (do
    declareNames p
    each declareVariable p.statements) := by
  unfold declare declareNames
  simp only [bind_assoc]

theorem atTop_start (external : List TypedName) : (start external).AtTop := ⟨rfl, rfl⟩

theorem firm_start (external : List TypedName) : (start external).Firm := by
  intro y
  rw [← lookup?_of_outer_nil (atTop_start external).outer]
  unfold start Prelude.install Prelude.names
  simp only [List.foldl_cons, List.foldl_nil, lookup?_define]
  split
  · exact nofun
  · split
    · exact nofun
    · exact nofun

/-- The state when imports and components are in sight. -/
def beforeFunctions (p : Program) (external : List TypedName) : Checking :=
  ((do
    each importDecl p.imports
    each (fun k => declareComponent k.name) p.allComponents : Check Unit).run (.start external)).2

/-- The state when functions are in sight too. -/
def afterNames (p : Program) (external : List TypedName) : Checking :=
  ((declareNames p).run (.start external)).2

variable {p p' : Program} {external : List TypedName}

theorem declares_beforeFunctions (p : Program) (external : List TypedName) :
    let c := ((each importDecl p.imports).run (.start external)).2
    c.AtTop ∧ c.Firm ∧ c.types = .empty ∧ c.summaries = [] ∧
      Declares (p.allComponents.flatMap componentGives) c (beforeFunctions p external) ∧
      (beforeFunctions p external).diagnostics = c.diagnostics ∧
      (beforeFunctions p external).components = c.components ++ p.allComponents.map Component.name := by
  intro c
  have himports := declares_imports (atTop_start external) p.imports
  have htop := himports.atTop (atTop_start external)
  refine ⟨htop, himports.firm (firm_start external) ?_, himports.types, himports.summaries,
    declares_components htop p.allComponents⟩
  intro t ht
  obtain ⟨item, -, hitem⟩ := List.mem_flatMap.1 ht
  obtain ⟨name, -, rfl⟩ := List.mem_map.1 hitem
  exact nofun

theorem declares_afterNames (hnames : (p.allFunctions.map Function.name).Nodup) {c : Checking}
    (hc : c.AtTop) (hm : Matches .blind c (beforeFunctions p external)) :
    Declares (p.allFunctions.flatMap (functionGives c)) (beforeFunctions p external)
        (afterNames p external) ∧ Matches .blind c (afterNames p external) ∧
      Adds .blind (.concat (p.allFunctions.map fun f => log (declareFunction f) c))
        (beforeFunctions p external) (afterNames p external) := by
  obtain ⟨htop, -, -, -, hcomponents, -, -⟩ := declares_beforeFunctions p external
  exact declares_functions hnames hc (hcomponents.atTop htop) hm

/-- What is known when everything but the variables is in sight. -/
theorem afterNames_spec (hnames : (p.allFunctions.map Function.name).Nodup)
    (external : List TypedName) :
    (afterNames p external).AtTop ∧ (afterNames p external).Firm ∧
      (afterNames p external).types = .empty ∧ (afterNames p external).summaries = [] ∧
      ∀ f ∈ p.allFunctions, (afterNames p external).scopes.outermost f.name =
        some ((signature f).run (afterNames p external)).1 := by
  obtain ⟨htop, hfirm, htypes, hsummaries, hcomponents, -, -⟩ :=
    declares_beforeFunctions p external
  have hbefore := hcomponents.atTop htop
  obtain ⟨hfunctions, hblind, -⟩ := declares_afterNames hnames hbefore
    (matches_refl View.whole_blind (beforeFunctions p external))
  refine ⟨hfunctions.atTop hbefore, hfunctions.firm (hcomponents.firm hfirm ?_) ?_,
    hfunctions.types.trans (hcomponents.types.trans htypes),
    hfunctions.summaries.trans (hcomponents.summaries.trans hsummaries), fun f hf => ?_⟩
  · intro t ht
    obtain ⟨k, -, hk⟩ := List.mem_flatMap.1 ht
    obtain rfl := List.mem_singleton.1 hk
    exact nofun
  · intro t ht
    obtain ⟨f, -, hf⟩ := List.mem_flatMap.1 ht
    obtain rfl := List.mem_singleton.1 hf
    exact nofun
  · rw [signature_of_matches View.whole_blind hblind]
    exact hfunctions.named _ (List.mem_flatMap.2 ⟨f, hf, List.mem_cons_self⟩)

/-- The order in which components and functions stand does not matter for what is in sight. -/
theorem matches_afterNames (himports : p'.imports = p.imports)
    (hcomponents : p'.allComponents.Perm p.allComponents)
    (hfunctions : p'.allFunctions.Perm p.allFunctions)
    (hnames : (p.allFunctions.map Function.name).Nodup) (external : List TypedName) :
    Matches .all (afterNames p external) (afterNames p' external) ∧
      ∀ x, x ∈ (afterNames p' external).diagnostics ↔ x ∈ (afterNames p external).diagnostics := by
  have hnames' : (p'.allFunctions.map Function.name).Nodup :=
    (hfunctions.map Function.name).nodup_iff.2 hnames
  obtain ⟨htop, -, -, -, hk, hdiagnostics, hlist⟩ := declares_beforeFunctions p external
  obtain ⟨htop', -, -, -, hk', hdiagnostics', hlist'⟩ := declares_beforeFunctions p' external
  rw [himports] at htop' hk' hdiagnostics' hlist'
  have hbefore := hk.atTop htop
  have hbefore' := hk'.atTop htop'
  have hblind : Matches .blind (beforeFunctions p external) (beforeFunctions p' external) := by
    refine matches_blind hbefore hbefore' (hk'.external.trans hk.external.symm) fun y => ?_
    rw [hlist, hlist', List.mem_append, List.mem_append, (hcomponents.map Component.name).mem_iff]
  have houtermost := hk.agree hk' (fun t => (hcomponents.flatMap_right _).mem_iff) fun _ => rfl
  obtain ⟨hf, hm, hadds⟩ := declares_afterNames hnames hbefore
    (matches_refl View.whole_blind (beforeFunctions p external))
  obtain ⟨hf', hm', hadds'⟩ := declares_afterNames hnames' hbefore hblind
  constructor
  · refine matches_of_entries View.whole_all (fun y _ => ?_) (hm'.depth.trans hm.depth.symm)
      (hm'.external.trans hm.external.symm)
      (fun y => (hm'.components y).trans (hm.components y).symm)
      (hm'.returns.trans hm.returns.symm)
    rw [entries_of_outer_nil (hf.atTop hbefore).outer,
      entries_of_outer_nil (hf'.atTop hbefore').outer,
      hf.agree hf' (fun t => (hfunctions.flatMap_right _).mem_iff) houtermost]
  · intro x
    rw [hadds.found, hadds'.found, hdiagnostics, hdiagnostics', Log.mem_found_concat,
      Log.mem_found_concat]
    simp only [(hfunctions.map _).mem_iff]

end Check

end ComponentLang
