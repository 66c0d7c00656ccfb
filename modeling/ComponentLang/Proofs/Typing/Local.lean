import ComponentLang.Proofs.Typing.Settled

/-!
# Checks that depend on what is in sight alone

`Local V D p` says two things of a check `p` that defines names `D` where it stands. What the
outermost scope says of a name is still said there afterwards, unless `p` stands in that scope and
defines the name, or the name had no known type. And run from two states that say the same of the
names in sight, `p` gives the same result, finds the same faults and notes the same types.

The second state may lack variables at the top that the first has, as the view `V` says. Then `p`
need not go the same way in both, but if it does not, one of these variables is reported in the
second.
-/
namespace ComponentLang

namespace Scopes

variable {s s' : Scopes} {name other : String} {type : Ty}

/-- What the outermost scope says of a name. -/
def outermost (s : Scopes) (name : String) : Option Ty := (s.entries name).getLastD none

theorem entries_eq_cons (s : Scopes) (name : String) :
    s.entries name = TypedName.lookup? name s.inner :: s.outer.map (TypedName.lookup? name) :=
  rfl

theorem entries_define (s : Scopes) (name : String) (type : Ty) :
    (s.define name type).entries name =
      some type :: s.outer.map (TypedName.lookup? name) := by
  rw [entries_eq_cons]
  unfold define
  rw [TypedName.lookup?_put, if_pos rfl]

theorem outermost_eq (s : Scopes) (name : String) :
    s.outermost name =
      (s.outer.map (TypedName.lookup? name)).getLastD (TypedName.lookup? name s.inner) := by
  unfold outermost
  rw [entries_eq_cons, List.getLastD_cons]

theorem outermost_push (s : Scopes) (name : String) : s.push.outermost name = s.outermost name := by
  rw [outermost_eq, outermost_eq]
  exact List.getLastD_cons

theorem outermost_pop (h : 0 < s.outer.length) (name : String) :
    s.pop.outermost name = s.outermost name := by
  obtain ⟨inner, outer⟩ := s
  cases outer with
  | nil => cases h
  | cons scope outer => rw [outermost_eq, outermost_eq, List.map_cons, List.getLastD_cons]; rfl

theorem length_outer_pop (s : Scopes) : s.pop.outer.length = s.outer.length - 1 := by
  obtain ⟨inner, outer⟩ := s
  cases outer <;> rfl

/-- A definition is not in the outermost scope, or is of another name. -/
theorem outermost_define (h : name = other → 0 < s.outer.length) (type : Ty) :
    (s.define name type).outermost other = s.outermost other := by
  by_cases hname : name = other
  · subst hname
    have hne : s.outer.map (TypedName.lookup? name) ≠ [] := by
      simpa using List.ne_nil_of_length_pos (h rfl)
    rw [outermost, outermost, entries_define, entries_eq_cons, List.getLastD_cons,
      List.getLastD_cons]
    obtain ⟨first, rest, hcons⟩ := List.exists_cons_of_ne_nil hne
    rw [hcons, List.getLastD_cons, List.getLastD_cons]
  · rw [outermost, outermost, entries_define_of_ne hname]

/-- The innermost entry of a name that is in sight becomes another. -/
def settleFirst (type : Ty) : List (Option Ty) → List (Option Ty)
  | [] => []
  | none :: rest => none :: settleFirst type rest
  | some _ :: rest => some type :: rest

theorem map_updateFirst? (name : String) (type : Ty) (scopes : List (List TypedName)) :
    ((updateFirst? name type scopes).getD scopes).map (TypedName.lookup? name) =
      settleFirst type (scopes.map (TypedName.lookup? name)) := by
  induction scopes with
  | nil => rfl
  | cons scope rest ih =>
      unfold updateFirst?
      cases hscope : TypedName.lookup? name scope with
      | some found => simp [hscope, settleFirst, TypedName.lookup?_put]
      | none =>
          rw [if_neg (by simp), List.map_cons, hscope, settleFirst, ← ih]
          cases updateFirst? name type rest <;> simp [hscope]

theorem entries_update? (s : Scopes) (name : String) (type : Ty) :
    ((s.update? name type).getD s).entries name = settleFirst type (s.entries name) := by
  rw [entries_eq_cons s]
  unfold update? definesHere
  cases hinner : TypedName.lookup? name s.inner with
  | some found => exact entries_define s name type
  | none =>
      have houter := map_updateFirst? name type s.outer
      rw [settleFirst, ← houter]
      cases updateFirst? name type s.outer <;> simp [entries_eq_cons, hinner]

theorem length_updateFirst? (name : String) (type : Ty) (scopes : List (List TypedName)) :
    ((updateFirst? name type scopes).getD scopes).length = scopes.length := by
  have h := congrArg List.length (map_updateFirst? name type scopes)
  have hsettle : ∀ es, (settleFirst type es).length = es.length := by
    intro es
    fun_induction settleFirst type es <;> simp_all
  simpa [hsettle] using h

theorem length_outer_update? (s : Scopes) (name : String) (type : Ty) :
    ((s.update? name type).getD s).outer.length = s.outer.length := by
  have hlength := length_updateFirst? name type s.outer
  unfold update?
  split
  · rfl
  · cases h : updateFirst? name type s.outer with
    | none => rfl
    | some outer =>
        rw [h] at hlength
        exact hlength

theorem settleFirst_append {es : List (Option Ty)} (h : (es.findSome? id).isSome) (type : Ty)
    (others : List (Option Ty)) :
    settleFirst type (es ++ others) = settleFirst type es ++ others := by
  fun_induction settleFirst type es with
  | case1 => cases h
  | case2 rest ih => exact congrArg (none :: ·) (ih h)
  | case3 found rest => rfl

/-- Only an entry like the innermost one can be changed. -/
theorem getLastD_settleFirst {es : List (Option Ty)} {old : Ty} (type : Ty)
    (h : es.findSome? id = none ∨ es.findSome? id = some old)
    (hlast : es.getLastD none ≠ some old) :
    (settleFirst type es).getLastD none = es.getLastD none := by
  fun_induction settleFirst type es with
  | case1 => rfl
  | case2 rest ih =>
      rw [List.getLastD_cons] at hlast ⊢
      rw [List.getLastD_cons]
      exact ih h hlast
  | case3 found rest =>
      obtain h | h := h <;> cases h
      cases rest with
      | nil => exact absurd rfl hlast
      | cons entry rest => rfl

/-! ## Scopes that say the same -/

/-- What two lists of scopes say of a name is the same, but that the second lacks the entry in the
outermost scope if there is a gap. -/
def Agree (gap : Option Ty) (es es' : List (Option Ty)) : Prop :=
  match gap with
  | none => es' = es
  | some t => ∃ inner, es = inner ++ [some t] ∧ es' = inner ++ [none]

variable {gap : Option Ty} {es es' : List (Option Ty)} {entry entry' : Option Ty}

theorem agree_refl (es : List (Option Ty)) : Agree none es es := rfl

theorem Agree.cons (h : Agree gap es es') (entry : Option Ty) :
    Agree gap (entry :: es) (entry :: es') := by
  cases gap with
  | none => exact congrArg (entry :: ·) h
  | some t =>
      obtain ⟨inner, rfl, rfl⟩ := h
      exact ⟨entry :: inner, rfl, rfl⟩

/-- Inside, the two scopes say the same. -/
theorem Agree.of_cons (h : Agree gap (entry :: es) (entry' :: es')) (hin : gap ≠ none → es ≠ []) :
    entry' = entry ∧ Agree gap es es' := by
  cases gap with
  | none => exact List.cons.inj h
  | some t =>
      obtain ⟨inner, hes, hes'⟩ := h
      cases inner with
      | nil => exact absurd (List.cons.inj hes).2 (hin nofun)
      | cons first inner =>
          obtain ⟨rfl, rfl⟩ := List.cons.inj hes
          obtain ⟨rfl, rfl⟩ := List.cons.inj hes'
          exact ⟨rfl, inner, rfl, rfl⟩

/-- The name means the same to both, or the second lacks it. -/
theorem Agree.findSome? (h : Agree gap es es') :
    es'.findSome? id = es.findSome? id ∨ (gap ≠ none ∧ es'.findSome? id = none) := by
  cases gap with
  | none => exact .inl (congrArg _ h)
  | some t =>
      obtain ⟨inner, rfl, rfl⟩ := h
      rw [List.findSome?_append, List.findSome?_append]
      cases inner.findSome? id with
      | none => exact .inr ⟨nofun, rfl⟩
      | some found => exact .inl rfl

/-- A name in sight of both is updated in the same scope. -/
theorem Agree.settleFirst (h : Agree gap es es') (hsame : es'.findSome? id = es.findSome? id)
    (type : Ty) : Agree gap (settleFirst type es) (settleFirst type es') := by
  cases gap with
  | none =>
      have heq : es' = es := h
      rw [heq]
      exact agree_refl _
  | some t =>
      obtain ⟨inner, rfl, rfl⟩ := h
      rw [List.findSome?_append, List.findSome?_append] at hsame
      have hinner : (inner.findSome? id).isSome := by
        cases hinner : inner.findSome? id with
        | none =>
            rw [hinner] at hsame
            cases hsame
        | some found => rfl
      exact ⟨_, settleFirst_append hinner type _, settleFirst_append hinner type _⟩

end Scopes

open Scopes

/-! ## States that are compared -/

/-- How two states are compared: the names that may be looked at, and the types of those that the
second state lacks in its outermost scope. -/
structure View where
  seen : String → Prop
  gap : String → Option Ty

namespace View

/-- Nothing is lacking. -/
def Whole (V : View) : Prop := ∀ y, V.gap y = none

/-- Everything is compared. -/
def all : View := ⟨fun _ => True, fun _ => none⟩

theorem whole_all : all.Whole := fun _ => rfl

end View

/-- What is found while a check runs: the faults that are reported, the types that are noted, newest
first, and the components that are summarized. -/
structure Log where
  found : List Diagnostic
  noted : List (Nat × Ty)
  made : List ComponentSummary

namespace Log

def nil : Log := ⟨[], [], []⟩

def followedBy (first later : Log) : Log :=
  ⟨later.found ++ first.found, later.noted ++ first.noted, first.made ++ later.made⟩

end Log

namespace Checking

/-- As far as a check can tell in view of `V`, the states are the same. -/
structure Matches (V : View) (c d : Checking) : Prop where
  entries : ∀ y, V.seen y → Agree (V.gap y) (c.scopes.entries y) (d.scopes.entries y)
  depth : d.scopes.outer.length = c.scopes.outer.length
  external : d.external = c.external
  components : ∀ y, y ∈ d.components ↔ y ∈ c.components
  returns : d.returns = c.returns

/-- A variable that only the first state has is reported in the second. -/
def Missed (V : View) (d : Checking) : Prop :=
  ∃ y span, V.gap y ≠ none ∧
    (.ofSpan .type (TypeFault.undefinedVariable y).message span ∈ d.diagnostics ∨
      .ofSpan .type (TypeFault.unknownComponent y).message span ∈ d.diagnostics)

/-- What is found between two states. Summaries are followed only where nothing is lacking. -/
structure Adds (V : View) (log : Log) (c d : Checking) : Prop where
  found : ∀ x, x ∈ d.diagnostics ↔ x ∈ log.found ∨ x ∈ c.diagnostics
  noted : d.types.entries = log.noted ++ c.types.entries
  made : V.Whole → d.summaries = c.summaries ++ log.made

/-- What stays when names `D` are defined in the scope at hand. -/
structure Frames (D : Set String) (c d : Checking) : Prop where
  external : d.external = c.external
  components : d.components = c.components
  returns : d.returns.length = c.returns.length
  depth : d.scopes.outer.length = c.scopes.outer.length
  reported : c.diagnostics ⊆ d.diagnostics
  outermost : ∀ y, (y ∈ D → 0 < c.scopes.outer.length) → c.scopes.outermost y ≠ some .unknown →
    d.scopes.outermost y = c.scopes.outermost y

variable {V : View} {D D' : Set String} {c c' d d' e : Checking} {log later : Log}

theorem Missed.mono (h : Missed V c) (hd : c.diagnostics ⊆ d.diagnostics) : Missed V d := by
  obtain ⟨y, span, hy, hreported⟩ := h
  exact ⟨y, span, hy, hreported.imp (fun h => hd h) (fun h => hd h)⟩

theorem adds_of_eq (hdiagnostics : d.diagnostics = c.diagnostics) (htypes : d.types = c.types)
    (hsummaries : d.summaries = c.summaries) : Adds V .nil c d where
  found x := by simp [hdiagnostics, Log.nil]
  noted := by rw [htypes, Log.nil, List.nil_append]
  made _ := by rw [hsummaries, Log.nil, List.append_nil]

theorem Adds.trans (hcd : Adds V log c d) (hde : Adds V later d e) :
    Adds V (log.followedBy later) c e where
  found x := by rw [hde.found, hcd.found, Log.followedBy, List.mem_append, or_assoc]
  noted := by rw [hde.noted, hcd.noted, Log.followedBy, List.append_assoc]
  made h := by rw [hde.made h, hcd.made h, Log.followedBy, List.append_assoc]

theorem adds_addDiagnostic (c : Checking) (x : Diagnostic) :
    Adds V ⟨[x], [], []⟩ c (c.addDiagnostic x) where
  found y := by rw [mem_addDiagnostic, List.mem_singleton, or_comm]
  noted := by rw [addDiagnostic_eq, List.nil_append]
  made _ := by rw [addDiagnostic_eq, List.append_nil]

/-- Nothing but the reports and what is noted has changed, and nothing is taken back. -/
theorem frames_of_eq (hscopes : d.scopes = c.scopes) (hexternal : d.external = c.external)
    (hcomponents : d.components = c.components) (hreturns : d.returns.length = c.returns.length)
    (hreported : c.diagnostics ⊆ d.diagnostics) : Frames D c d where
  external := hexternal
  components := hcomponents
  returns := hreturns
  depth := by rw [hscopes]
  reported := hreported
  outermost _ _ _ := by rw [hscopes]

theorem Frames.trans (hcd : Frames D c d) (hde : Frames D d e) : Frames D c e where
  external := hde.external.trans hcd.external
  components := hde.components.trans hcd.components
  returns := hde.returns.trans hcd.returns
  depth := hde.depth.trans hcd.depth
  reported := List.Subset.trans hcd.reported hde.reported
  outermost y hdepth hknown := by
    have hd := hcd.outermost y hdepth hknown
    have he := hde.outermost y (hcd.depth ▸ hdepth) (hd ▸ hknown)
    exact he.trans hd

theorem frames_addDiagnostic (c : Checking) (x : Diagnostic) : Frames D c (c.addDiagnostic x) := by
  have hreported : c.diagnostics ⊆ (c.addDiagnostic x).diagnostics :=
    fun _ h => mem_addDiagnostic.2 (.inl h)
  rw [addDiagnostic_eq] at hreported ⊢
  exact frames_of_eq rfl rfl rfl rfl hreported

/-- The names mean the same in both states, or the second lacks one. -/
theorem Matches.lookup? (h : Matches V c d) {y : String} (hy : V.seen y) :
    d.scopes.lookup? y = c.scopes.lookup? y ∨
      (V.gap y ≠ none ∧ d.scopes.lookup? y = none) := by
  rw [lookup?_eq_entries, lookup?_eq_entries]
  exact (h.entries y hy).findSome?

/-- What is found does not matter. -/
theorem Matches.addDiagnostic (h : Matches V c d) (x : Diagnostic) :
    Matches V (c.addDiagnostic x) (d.addDiagnostic x) := by
  rw [addDiagnostic_eq c, addDiagnostic_eq d]
  exact ⟨h.entries, h.depth, h.external, h.components, h.returns⟩

theorem Matches.opened (h : Matches V c d) : Matches V c.opened d.opened where
  entries y hy := (h.entries y hy).cons none
  depth := congrArg (· + 1) h.depth
  external := h.external
  components := h.components
  returns := h.returns

/-- The state when a scope is left. -/
def closed (c : Checking) : Checking := { c with scopes := c.scopes.pop }

theorem Matches.closed (h : Matches V c d) (hdepth : 0 < c.scopes.outer.length) :
    Matches V c.closed d.closed where
  entries y hy := by
    have hne : c.scopes.outer.map (TypedName.lookup? y) ≠ [] := by
      simpa using List.ne_nil_of_length_pos hdepth
    have hne' : d.scopes.outer.map (TypedName.lookup? y) ≠ [] := by
      simpa using List.ne_nil_of_length_pos (h.depth ▸ hdepth)
    have hentries := h.entries y hy
    rw [entries_eq_cons c.scopes, entries_eq_cons d.scopes] at hentries
    have hrest := (hentries.of_cons fun _ => hne).2
    rwa [← entries_pop (entries_eq_cons c.scopes y) hne,
      ← entries_pop (entries_eq_cons d.scopes y) hne'] at hrest
  depth := by
    change d.scopes.pop.outer.length = c.scopes.pop.outer.length
    rw [length_outer_pop, length_outer_pop, h.depth]
  external := h.external
  components := h.components
  returns := h.returns

/-- A name is defined in the same scope of both states, which is not one that lacks it. -/
theorem Matches.define (h : Matches V c d) {name : String}
    (hin : V.gap name ≠ none → 0 < c.scopes.outer.length) (type : Ty) :
    Matches V { c with scopes := c.scopes.define name type }
      { d with scopes := d.scopes.define name type } where
  entries y hy := by
    have hentries := h.entries y hy
    by_cases hname : name = y
    · subst hname
      rw [entries_eq_cons c.scopes, entries_eq_cons d.scopes] at hentries
      have hne : V.gap name ≠ none → c.scopes.outer.map (TypedName.lookup? name) ≠ [] := by
        intro hgap
        simpa using List.ne_nil_of_length_pos (hin hgap)
      rw [entries_define, entries_define]
      exact (hentries.of_cons hne).2.cons (some type)
    · rw [entries_define_of_ne hname, entries_define_of_ne hname]
      exact hentries
  depth := h.depth
  external := h.external
  components := h.components
  returns := h.returns

/-- A name that means the same in both states is updated in the same scope. -/
theorem Matches.update (h : Matches V c d) {name : String}
    (hsame : d.scopes.lookup? name = c.scopes.lookup? name) (type : Ty) :
    Matches V { c with scopes := (c.scopes.update? name type).getD c.scopes }
      { d with scopes := (d.scopes.update? name type).getD d.scopes } where
  entries y hy := by
    have hentries := h.entries y hy
    by_cases hname : name = y
    · subst hname
      rw [lookup?_eq_entries, lookup?_eq_entries] at hsame
      rw [entries_update?, entries_update?]
      exact hentries.settleFirst hsame type
    · rw [entries_update?_of_ne hname, entries_update?_of_ne hname]
      exact hentries
  depth := by
    change ((d.scopes.update? name type).getD d.scopes).outer.length =
      ((c.scopes.update? name type).getD c.scopes).outer.length
    rw [length_outer_update?, length_outer_update?, h.depth]
  external := h.external
  components := h.components
  returns := h.returns

end Checking

open Checking

/-- The names `D` are defined where the second state lacks nothing. -/
def View.Admits (V : View) (D : Set String) (c : Checking) : Prop :=
  ∀ y ∈ D, V.gap y ≠ none → 0 < c.scopes.outer.length

theorem View.Admits.of_depth {V : View} {D : Set String} {c d : Checking} (h : V.Admits D c)
    (hdepth : d.scopes.outer.length = c.scopes.outer.length) : V.Admits D d :=
  fun y hy hgap => hdepth ▸ h y hy hgap

namespace Check

variable {α β : Type} {V : View} {D D' : Set String} {p : Check α} {f : α → Check β}
variable {c d : Checking}

/-- Two runs of a check give the same result, find the same and leave matching states. -/
structure Parallel (V : View) (p : Check α) (c d : Checking) : Prop where
  result : (p.run d).1 = (p.run c).1
  states : Matches V (p.run c).2 (p.run d).2
  added : ∃ log, Adds V log c (p.run c).2 ∧ Adds V log d (p.run d).2

/-- Two runs are parallel, or a variable that the second state lacks is reported. -/
def Alike (V : View) (p : Check α) (c d : Checking) : Prop :=
  Missed V (p.run d).2 ∨ Parallel V p c d

/-- Where it stands, `p` defines no names but `D`. In view of `V` it runs alike from matching
states. -/
structure Local (V : View) (D : Set String) (p : Check α) : Prop where
  frames : ∀ c, Frames D c (p.run c).2
  alike : ∀ c d, Matches V c d → V.Admits D c → Alike V p c d

/-! ## Checks made from checks -/

theorem parallel_pure (a : α) (h : Matches V c d) : Parallel V (pure a : Check α) c d :=
  ⟨rfl, h, _, adds_of_eq rfl rfl rfl, adds_of_eq rfl rfl rfl⟩

theorem local_pure (a : α) : Local V D (pure a) where
  frames _ := frames_of_eq rfl rfl rfl rfl (List.Subset.refl _)
  alike _ _ h _ := .inr (parallel_pure a h)

/-- What is reported stays reported, so that what follows may take its own way. -/
theorem Alike.bind (hp : Alike V p c d)
    (hgrows : ∀ a e, e.diagnostics ⊆ ((f a).run e).2.diagnostics)
    (hf : Matches V (p.run c).2 (p.run d).2 →
      Alike V (f (p.run c).1) (p.run c).2 (p.run d).2) : Alike V (p >>= f) c d := by
  rcases hp with hmissed | hp
  · exact .inl (hmissed.mono (hgrows _ _))
  · have hrun : (p >>= f).run d = (f (p.run c).1).run (p.run d).2 := by
      rw [← hp.result]
      rfl
    unfold Alike
    rcases hf hp.states with hmissed | hf
    · rw [hrun]
      exact .inl hmissed
    · obtain ⟨log, hc, hd⟩ := hp.added
      obtain ⟨later, hc', hd'⟩ := hf.added
      refine .inr ⟨?_, ?_, _, hc.trans hc', ?_⟩
      · rw [hrun]
        exact hf.result
      · rw [hrun]
        exact hf.states
      · rw [hrun]
        exact hd.trans hd'

/-- The runs are those of another check. -/
theorem Alike.of_run {q : Check α} (h : Alike V q c d) (hc : p.run c = q.run c)
    (hd : p.run d = q.run d) : Alike V p c d := by
  unfold Alike
  rw [hd]
  refine h.imp_right fun hp => ⟨?_, ?_, ?_⟩
  · rw [hc, hd]
    exact hp.result
  · rw [hc, hd]
    exact hp.states
  · rw [hc, hd]
    exact hp.added

theorem Local.bind (hp : Local V D p) (hf : ∀ a, Local V D (f a)) : Local V D (p >>= f) where
  frames c := (hp.frames c).trans ((hf _).frames _)
  alike c d h hadmits := (hp.alike c d h hadmits).bind (fun a e => ((hf a).frames e).reported)
    fun h' => (hf _).alike _ _ h' (hadmits.of_depth (hp.frames c).depth)

theorem local_map {g : α → β} (h : Local V D p) : Local V D (g <$> p) where
  frames := h.frames
  alike c d hm hadmits := (h.alike c d hm hadmits).imp_right fun hp =>
    ⟨congrArg g hp.result, hp.states, hp.added⟩

/-- Something is read from the state that is the same in matching states. -/
theorem local_read_bind {γ : Type} (read : Checking → γ) {f : γ → Check α}
    (h : ∀ c d, Matches V c d → V.Admits D c → read d = read c) (hf : ∀ a, Local V D (f a)) :
    Local V D (get >>= fun c => f (read c)) where
  frames c := (hf (read c)).frames c
  alike c d hm hadmits := by
    refine ((hf (read c)).alike c d hm hadmits).of_run rfl ?_
    rw [← h c d hm hadmits]
    rfl

theorem local_ite {b : Prop} [Decidable b] {q : Check α} (hp : Local V D p) (hq : Local V D q) :
    Local V D (if b then p else q) := by
  split
  · exact hp
  · exact hq

/-- Whatever is defined in a scope of its own is gone afterwards. -/
theorem local_inScope (h : Local V D p) : Local V D' (inScope p) where
  frames c := by
    have hframes := h.frames c.opened
    have hdepth : (p.run c.opened).2.scopes.outer.length = c.scopes.outer.length + 1 :=
      hframes.depth
    exact {
      external := hframes.external
      components := hframes.components
      returns := hframes.returns
      depth := by
        change (p.run c.opened).2.scopes.pop.outer.length = _
        rw [length_outer_pop, hdepth, Nat.add_sub_cancel]
      reported := hframes.reported
      outermost := by
        intro y _ hknown
        have hopened : c.opened.scopes.outermost y = c.scopes.outermost y := outermost_push _ y
        have hkept := hframes.outermost y (fun _ => Nat.succ_pos _) (hopened ▸ hknown)
        have hin : 0 < (p.run c.opened).2.scopes.outer.length := by
          rw [hdepth]
          exact Nat.succ_pos _
        have hclosed := outermost_pop hin y
        exact hclosed.trans (hkept.trans hopened) }
  alike c d hm _ := by
    have hadmits : V.Admits D c.opened := fun _ _ _ => Nat.succ_pos _
    refine (h.alike c.opened d.opened hm.opened hadmits).imp_right fun hp => ?_
    have hdepth : 0 < (p.run c.opened).2.scopes.outer.length := by
      rw [(h.frames c.opened).depth]
      exact Nat.succ_pos _
    obtain ⟨log, hc, hd⟩ := hp.added
    exact ⟨hp.result, hp.states.closed hdepth, log, ⟨hc.found, hc.noted, hc.made⟩,
      hd.found, hd.noted, hd.made⟩

theorem local_each {check : α → Check Unit} {items : List α}
    (h : ∀ a ∈ items, Local V D (check a)) : Local V D (each check items) := by
  induction items with
  | nil => exact local_pure ()
  | cons a rest ih =>
      rw [List.forall_mem_cons] at h
      exact h.1.bind fun _ => ih h.2

/-! ## Reports and notes -/

theorem local_report (fault : TypeFault) (span : Span) : Local V D (report fault span) where
  frames c := frames_addDiagnostic c _
  alike c d h _ :=
    .inr ⟨rfl, h.addDiagnostic _, _, adds_addDiagnostic c _, adds_addDiagnostic d _⟩

theorem local_settle (verdict : Verdict) (span : Span) : Local V D (settle verdict span) := by
  unfold settle
  cases verdict.fault with
  | none => exact local_pure _
  | some fault => exact (local_report fault span).bind fun _ => local_pure _

theorem local_reportAll (found : List (TypeFault × Span)) : Local V D (reportAll found) := by
  induction found with
  | nil => exact local_pure ()
  | cons first rest ih => exact (local_report first.1 first.2).bind fun _ => ih

theorem local_expectStorable (value target : Ty) (span : Span) :
    Local V D (expectStorable value target span) := by
  unfold expectStorable
  split
  · exact local_report _ span
  · exact local_pure ()

theorem local_record (id : Nat) (type : Ty) : Local V D (record id type) where
  frames c := frames_of_eq rfl rfl rfl rfl (List.Subset.refl _)
  alike c d h _ := by
    have hadds : ∀ c : Checking, Adds V ⟨[], [(id, type)], []⟩ c ((record id type).run c).2 :=
      fun c => ⟨fun x => (or_iff_right List.not_mem_nil).symm, rfl,
        fun _ => (List.append_nil _).symm⟩
    exact .inr ⟨rfl, ⟨h.entries, h.depth, h.external, h.components, h.returns⟩, _, hadds c, hadds d⟩

/-- The type of an expression is noted last. -/
theorem local_noted (id : Nat) (type : Ty) :
    Local V D (do
      record id type
      return type) :=
  (local_record id type).bind fun _ => local_pure type

/-! ## Names -/

theorem local_define {name : String} (h : name ∈ D) (type : Ty) : Local V D (define name type) where
  frames c := {
    external := rfl
    components := rfl
    returns := rfl
    depth := rfl
    reported := List.Subset.refl _
    outermost := fun y hdepth _ => outermost_define (by rintro rfl; exact hdepth h) type }
  alike c d hm hadmits := .inr ⟨rfl, hm.define (hadmits name h) type, _, adds_of_eq rfl rfl rfl,
    adds_of_eq rfl rfl rfl⟩

/-- A variable that the second state lacks is reported there. -/
theorem local_variableType {name : String} (h : V.seen name) (span : Span) :
    Local V D (variableType name span) where
  frames c := by
    cases hlookup : c.scopes.lookup? name with
    | none =>
        rw [variableType_of_none hlookup]
        exact (local_settle (V := V) _ span).frames c
    | some type =>
        rw [variableType_of_some hlookup]
        exact (local_pure (V := V) type).frames c
  alike c d hm hadmits := by
    rcases hm.lookup? h with hsame | ⟨hgap, hnone⟩
    · cases hlookup : c.scopes.lookup? name with
      | none =>
          exact ((local_settle _ span).alike c d hm hadmits).of_run (variableType_of_none hlookup span)
            (variableType_of_none (hsame.trans hlookup) span)
      | some type =>
          exact ((local_pure type).alike c d hm hadmits).of_run (variableType_of_some hlookup span)
            (variableType_of_some (hsame.trans hlookup) span)
    · left
      rw [variableType_of_none hnone]
      exact ⟨name, span, hgap, .inl (mem_addDiagnostic.2 (.inr rfl))⟩

theorem local_isComponent (name : String) : Local V D (isComponent name) := by
  refine local_read_bind (fun c => c.components.contains name) ?_ fun _ => local_pure _
  intro c d hm _
  rw [Bool.eq_iff_iff, List.contains_iff_mem, List.contains_iff_mem]
  exact hm.components name

/-! ## Returns -/

theorem local_judgeReturn (declared : Option Ty) (type : Ty) (span : Span) :
    Local V D (judgeReturn declared type span) := by
  unfold judgeReturn
  split
  · exact local_pure ()
  · exact local_ite (local_pure ()) (local_report _ span)

theorem local_noteReturn (type : Ty) (span : Span) : Local V D (noteReturn type span) where
  frames c := by
    cases h : c.returns with
    | nil =>
        rw [noteReturn_of_nil h]
        exact (local_pure (V := V) ()).frames c
    | cons frame outer =>
        rw [noteReturn_of_cons h]
        have hframes := (local_judgeReturn (V := V) (D := D) frame.declared type span).frames
          { c with returns := { frame with seen := frame.seen ++ [type] } :: outer }
        exact { hframes with
          returns := by
            rw [h]
            exact hframes.returns }
  alike c d hm hadmits := by
    cases h : c.returns with
    | nil =>
        refine ((local_pure ()).alike c d hm hadmits).of_run (noteReturn_of_nil h type span)
          (noteReturn_of_nil (hm.returns.trans h) type span)
    | cons frame outer =>
        -- The two runs judge the return from states in which it is noted.
        have hnoted : Matches V
            { c with returns := { frame with seen := frame.seen ++ [type] } :: outer }
            { d with returns := { frame with seen := frame.seen ++ [type] } :: outer } :=
          ⟨hm.entries, hm.depth, hm.external, hm.components, rfl⟩
        have hjudged := (local_judgeReturn (D := D) frame.declared type span).alike _ _ hnoted
          hadmits
        have hrun := noteReturn_of_cons h type span
        have hrun' := noteReturn_of_cons (hm.returns.trans h) type span
        unfold Alike
        rw [hrun']
        refine hjudged.imp_right fun hp => ?_
        obtain ⟨log, hc, hd⟩ := hp.added
        refine ⟨rfl, ?_, log, ?_, ?_⟩
        · rw [hrun, hrun']
          exact hp.states
        · rw [hrun]
          exact ⟨hc.found, hc.noted, hc.made⟩
        · rw [hrun']
          exact ⟨hd.found, hd.noted, hd.made⟩

theorem local_collectReturns (declared : Option Ty) {body : Check Unit} (h : Local V D body) :
    Local V D (collectReturns declared body) where
  frames c := by
    have hframes := h.frames { c with returns := ⟨declared, []⟩ :: c.returns }
    exact {
      external := hframes.external
      components := hframes.components
      returns := by
        have hlength := hframes.returns
        rw [List.length_cons] at hlength
        change (List.drop 1 (body.run _).2.returns).length = _
        rw [List.length_drop, hlength, Nat.add_sub_cancel]
      depth := hframes.depth
      reported := hframes.reported
      outermost := hframes.outermost }
  alike c d hm hadmits := by
    have hentered : Matches V { c with returns := ⟨declared, []⟩ :: c.returns }
        { d with returns := ⟨declared, []⟩ :: d.returns } :=
      ⟨hm.entries, hm.depth, hm.external, hm.components,
        congrArg (List.cons _) hm.returns⟩
    refine (h.alike _ _ hentered hadmits).imp_right fun hp => ?_
    obtain ⟨log, hc, hd⟩ := hp.added
    have hreturns := hp.states.returns
    exact ⟨congrArg (fun returns => (returns.head?.map ReturnFrame.seen).getD []) hreturns,
      ⟨hp.states.entries, hp.states.depth, hp.states.external, hp.states.components,
        congrArg (List.drop 1) hreturns⟩, log, ⟨hc.found, hc.noted, hc.made⟩,
      hd.found, hd.noted, hd.made⟩

/-! ## Type expressions -/

theorem local_namedType (name : String) (span : Span) : Local V D (namedType name span) := by
  unfold namedType
  split
  · exact local_pure _
  · exact (local_isComponent name).bind fun known => local_ite (local_pure _) (local_settle _ span)

mutual

theorem local_resolve : ∀ a : TypeExpr, Local V D (resolve a)
  | .named span name => local_namedType name span
  | .array _ element => (local_resolve element).bind fun _ => local_pure _
  | .optional _ element => (local_resolve element).bind fun _ => local_pure _
  | .union _ members => (local_resolveAll members).bind fun _ => local_pure _

theorem local_resolveAll : ∀ as : List TypeExpr, Local V D (resolveAll as)
  | [] => local_pure _
  | a :: rest =>
    (local_resolve a).bind fun _ => (local_resolveAll rest).bind fun _ => local_pure _

end

theorem local_resolve? (a : Option TypeExpr) : Local V D (resolve? a) := by
  cases a with
  | none => exact local_pure _
  | some a => exact (local_resolve a).bind fun _ => local_pure _

end Check

end ComponentLang
