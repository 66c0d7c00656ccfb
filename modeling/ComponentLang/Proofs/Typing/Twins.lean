import ComponentLang.Proofs.Typing.Effects
import ComponentLang.Proofs.Typing.Relaxes.Tree
import ComponentLang.Proofs.Typing.Relaxes.Verdict

/-!
# Two checks side by side

A check is run beside another that knows less. `Twins G Q p p'` says that, if `G` holds, `p'` has
nothing to report where `p` has not, that what the two give is related by `Q`, and that they leave
states of which the second knows less. The exception are spoiled runs: the first has reported
something, or a type was noted that does not tell enough of what becomes of it. What is spoiled
stays so, whether `G` holds or not, which is why checks may follow each other.
-/
namespace ComponentLang

/-- A union that has an array in it. With less known arrays may fall together in it. -/
def Ty.MixesArrays (t : Ty) : Prop :=
  ∃ members element, t = .union members ∧ Ty.Inside (.array element) t

/-- The types that are noted for one expression. -/
structure Ty.Noted (t t' : Ty) : Prop where
  relaxes : t.RelaxesTo t'
  clear : t'.Clear
  separate : ¬ t.MixesArrays

theorem Ty.Noted.tame {t t' : Ty} (h : t.Noted t') : t.Tame t' := ⟨h.relaxes, .inr h.clear⟩

/-- The same return type is written, or less is known of it, and less is known of what is
returned. -/
structure ReturnFrame.RelaxesTo (frame frame' : ReturnFrame) : Prop where
  declared : Option.Rel Ty.Tame frame.declared frame'.declared
  seen : List.Forall₂ Ty.RelaxesTo frame.seen frame'.seen

namespace Checking

/-- Less is known in the second state, and nothing was reported there. -/
structure RelaxesTo (c c' : Checking) : Prop where
  scopes : c.scopes.RelaxesTo c'.scopes
  external : List.Forall₂ TypedName.RelaxesTo c.external c'.external
  components : c'.components = c.components
  returns : List.Forall₂ ReturnFrame.RelaxesTo c.returns c'.returns
  silent : c'.diagnostics = []

/-- Something was reported in the first state, or a type noted that does not tell what becomes of
it: arrays may fall together in a union, and little can be said of one that has `any` in it. -/
def Spoiled (c c' : Checking) : Prop :=
  c.diagnostics ≠ [] ∨ (∃ entry ∈ c.types.entries, entry.2.MixesArrays) ∨
    ∃ entry ∈ c'.types.entries, ¬ entry.2.Clear

/-- Reports and types are not taken back. -/
structure Keeps (c d : Checking) : Prop where
  reports : c.diagnostics ≠ [] → d.diagnostics ≠ []
  types : c.types.entries ⊆ d.types.entries

variable {c c' d d' : Checking}

theorem Keeps.refl (c : Checking) : Keeps c c := ⟨id, List.Subset.refl _⟩

theorem Keeps.trans {e : Checking} (hcd : Keeps c d) (hde : Keeps d e) : Keeps c e :=
  ⟨fun h => hde.reports (hcd.reports h), List.Subset.trans hcd.types hde.types⟩

theorem Grows.keeps {ids : Set Nat} (h : Grows ids c d) : Keeps c d where
  reports hne := by
    obtain ⟨found, hfound, -⟩ := h.reported
    rw [hfound]
    exact List.append_ne_nil_of_right_ne_nil _ hne
  types := h.kept

theorem keeps_of_eq (htypes : d.types = c.types) (hdiagnostics : d.diagnostics = c.diagnostics) :
    Keeps c d := by
  constructor
  · rw [hdiagnostics]
    exact id
  · rw [htypes]
    exact List.Subset.refl _

theorem diagnostics_addDiagnostic_ne_nil (c : Checking) (x : Diagnostic) :
    (c.addDiagnostic x).diagnostics ≠ [] := by
  unfold addDiagnostic
  split
  next hmem => exact List.ne_nil_of_mem hmem
  next => exact List.cons_ne_nil _ _

theorem keeps_addDiagnostic (c : Checking) (x : Diagnostic) : Keeps c (c.addDiagnostic x) := by
  refine ⟨fun _ => diagnostics_addDiagnostic_ne_nil c x, ?_⟩
  unfold addDiagnostic
  split <;> exact List.Subset.refl _

theorem Spoiled.of_keeps (h : Spoiled c c') (hd : Keeps c d) (hd' : Keeps c' d') :
    Spoiled d d' := by
  rcases h with hne | ⟨entry, hentry, hmixes⟩ | ⟨entry, hentry, hblurred⟩
  · exact .inl (hd.reports hne)
  · exact .inr (.inl ⟨entry, hd.types hentry, hmixes⟩)
  · exact .inr (.inr ⟨entry, hd'.types hentry, hblurred⟩)

end Checking

open Checking

namespace Check

variable {α β : Type} {G : Prop} {Q : α → α → Prop} {R : β → β → Prop}
variable {p p' : Check α} {f f' : α → Check β} {t t' : Ty}

/-- What has been found when the check starts is not taken back. -/
def Steady (p : Check α) : Prop := ∀ c, Keeps c (p.run c).2

theorem Leaves.steady {ids : Set Nat} (h : Leaves ids p) : Steady p := fun c => (h c).keeps

/-- Run beside each other, the second check with less known, both find nothing wrong and give
related results, unless they are spoiled. -/
structure Twins (G : Prop) (Q : α → α → Prop) (p p' : Check α) : Prop where
  steady : Steady p
  steady' : Steady p'
  along : G → ∀ c c', c.RelaxesTo c' → Spoiled (p.run c).2 (p'.run c').2 ∨
    (Q (p.run c).1 (p'.run c').1 ∧ (p.run c).2.RelaxesTo (p'.run c').2)

/-! ## Checks made from checks -/

theorem steady_pure (a : α) : Steady (pure a) := fun c => .refl c

theorem Steady.bind (hp : Steady p) (hf : ∀ a, Steady (f a)) : Steady (p >>= f) :=
  fun c => (hp c).trans (hf _ _)

theorem twins_pure {a a' : α} (h : G → Q a a') : Twins G Q (pure a) (pure a') :=
  ⟨steady_pure a, steady_pure a', fun g _ _ hc => .inr ⟨h g, hc⟩⟩

theorem Twins.bind (hp : Twins G Q p p') (hf : ∀ a a', Twins (G ∧ Q a a') R (f a) (f' a')) :
    Twins G R (p >>= f) (p' >>= f') where
  steady := hp.steady.bind fun a => (hf a a).steady
  steady' := hp.steady'.bind fun a => (hf a a).steady'
  along g c c' hc := by
    rcases hp.along g c c' hc with hspoiled | ⟨hq, hc⟩
    · -- Nothing is known of the two results, but what follows takes nothing back.
      exact .inl (hspoiled.of_keeps ((hf _ (p'.run c').1).steady _) ((hf (p.run c).1 _).steady' _))
    · exact (hf _ _).along ⟨g, hq⟩ _ _ hc

/-- Checks that follow one result. -/
theorem Twins.bind_eq (hp : Twins G Eq p p') (hf : ∀ a, Twins G R (f a) (f' a)) :
    Twins G R (p >>= f) (p' >>= f') where
  steady := hp.steady.bind fun a => (hf a).steady
  steady' := hp.steady'.bind fun a => (hf a).steady'
  along g c c' hc := by
    rcases hp.along g c c' hc with hspoiled | ⟨hq, hc⟩
    · exact .inl (hspoiled.of_keeps ((hf _).steady _) ((hf _).steady' _))
    · have hrun : (p' >>= f').run c' = (f' (p.run c).1).run (p'.run c').2 := by
        rw [hq]
        rfl
      rw [hrun]
      exact (hf _).along g _ _ hc

/-- Checks that follow the presence of a result. -/
theorem Twins.bind_option {γ : Type} {r : γ → γ → Prop} {p p' : Check (Option γ)}
    {f f' : Option γ → Check β} (hp : Twins G (Option.Rel r) p p')
    (hnone : Twins G R (f none) (f' none))
    (hsome : ∀ x x', Twins (G ∧ r x x') R (f (some x)) (f' (some x'))) :
    Twins G R (p >>= f) (p' >>= f') := by
  have hsteady : ∀ a, Steady (f a) := fun a => a.casesOn hnone.steady fun x => (hsome x x).steady
  have hsteady' : ∀ a, Steady (f' a) :=
    fun a => a.casesOn hnone.steady' fun x => (hsome x x).steady'
  refine hp.bind fun a a' => .mk (hsteady a) (hsteady' a') fun g => ?_
  obtain ⟨g, hrel⟩ := g
  cases hrel with
  | none => exact hnone.along g
  | some hx => exact (hsome _ _).along ⟨g, hx⟩

theorem Twins.mono {H : Prop} {Q' : α → α → Prop} (h : Twins H Q p p') (hG : G → H)
    (hQ : ∀ a a', Q a a' → Q' a a') : Twins G Q' p p' :=
  { h with
    along := fun g c c' hc =>
      (h.along (hG g) c c' hc).imp_right fun ⟨hq, hc⟩ => ⟨hQ _ _ hq, hc⟩ }

theorem twins_some (h : Twins G Q p p') : Twins G (Option.Rel Q) (some <$> p) (some <$> p') where
  steady := h.steady
  steady' := h.steady'
  along g c c' hc := (h.along g c c' hc).imp_right fun ⟨hq, hc⟩ => ⟨.some hq, hc⟩

theorem twins_get_bind {f f' : Checking → Check α}
    (h : ∀ c c', Twins (G ∧ c.RelaxesTo c') Q (f c) (f' c')) :
    Twins G Q (get >>= f) (get >>= f') where
  steady c := (h c c).steady c
  steady' c := (h c c).steady' c
  along g c c' hc := (h c c').along ⟨g, hc⟩ c c' hc

/-- Both runs take the same branch. -/
theorem twins_ite {b b' : Prop} [Decidable b] [Decidable b'] {q q' : Check α} (hb : G → (b' ↔ b))
    (hp : Twins G Q p p') (hq : Twins G Q q q') :
    Twins G Q (if b then p else q) (if b' then p' else q') where
  steady := by
    split
    · exact hp.steady
    · exact hq.steady
  steady' := by
    split
    · exact hp.steady'
    · exact hq.steady'
  along g := by
    rw [if_congr (hb g) (rfl : p' = p') (rfl : q' = q')]
    split
    · exact hp.along g
    · exact hq.along g

/-- A check of which only the effect matters. -/
theorem Twins.forget (h : Twins G Q p p') :
    Twins G Eq (do let _ ← p) (do let _ ← p') :=
  h.bind fun _ _ => twins_pure fun _ => rfl

/-- The state is changed, but for the types and the diagnostics. -/
theorem twins_modify {change change' : Checking → Checking}
    (hchange : ∀ c, (change c).types = c.types ∧ (change c).diagnostics = c.diagnostics)
    (hchange' : ∀ c, (change' c).types = c.types ∧ (change' c).diagnostics = c.diagnostics)
    (h : G → ∀ c c', c.RelaxesTo c' → (change c).RelaxesTo (change' c')) :
    Twins G Eq (modify change) (modify change') :=
  Twins.mk (fun c => keeps_of_eq (hchange c).1 (hchange c).2)
    (fun c => keeps_of_eq (hchange' c).1 (hchange' c).2)
    fun g c c' hc => .inr ⟨rfl, h g c c' hc⟩

theorem twins_inScope (h : Twins G Q p p') : Twins G Q (inScope p) (inScope p') := by
  have hpush : Twins G Eq (modify fun c : Checking => { c with scopes := c.scopes.push })
      (modify fun c => { c with scopes := c.scopes.push }) :=
    twins_modify (fun _ => ⟨rfl, rfl⟩) (fun _ => ⟨rfl, rfl⟩)
      fun _ _ _ hc => { hc with scopes := hc.scopes.push }
  have hpop : ∀ {G : Prop}, Twins G Eq
      (modify fun c : Checking => { c with scopes := c.scopes.pop })
      (modify fun c => { c with scopes := c.scopes.pop }) :=
    twins_modify (fun _ => ⟨rfl, rfl⟩) (fun _ => ⟨rfl, rfl⟩)
      fun _ _ _ hc => { hc with scopes := hc.scopes.pop }
  exact hpush.bind_eq fun _ => h.bind fun _ _ => hpop.bind_eq fun _ => twins_pure And.right

/-! ## Reports and notes -/

theorem steady_report (fault : TypeFault) (span : Span) : Steady (report fault span) :=
  fun c => keeps_addDiagnostic c _

/-- Nothing needs to be said of what is run beside a report. -/
theorem spoiled_report (fault : TypeFault) (span : Span) (c c' : Checking) :
    Spoiled ((report fault span).run c).2 c' :=
  .inl (diagnostics_addDiagnostic_ne_nil c _)

theorem twins_report {Q : Unit → Unit → Prop} (fault : TypeFault) (span : Span) :
    Twins G Q (report fault span) (report fault span) :=
  .mk (steady_report fault span) (steady_report fault span)
    fun _ c _ _ => .inl (spoiled_report fault span c _)

theorem settle_of_none {verdict : Verdict} (h : verdict.fault = none) (span : Span) :
    settle verdict span = pure verdict.type := by
  unfold settle
  rw [h]

theorem settle_of_some {verdict : Verdict} {fault : TypeFault} (h : verdict.fault = some fault)
    (span : Span) : settle verdict span = (do report fault span; pure verdict.type) := by
  unfold settle
  rw [h]

theorem steady_settle (verdict : Verdict) (span : Span) : Steady (settle verdict span) := by
  cases h : verdict.fault with
  | none =>
      rw [settle_of_none h]
      exact steady_pure _
  | some fault =>
      rw [settle_of_some h]
      exact (steady_report fault span).bind fun _ => steady_pure _

theorem twins_settle {verdict verdict' : Verdict} {span : Span}
    (h : G → verdict.RelaxesTo verdict') :
    Twins G Ty.Tame (settle verdict span) (settle verdict' span) := by
  refine .mk (steady_settle _ _) (steady_settle _ _) fun g c c' hc => ?_
  cases hfault : verdict.fault with
  | some fault =>
      left
      rw [settle_of_some hfault]
      exact spoiled_report fault span c _
  | none =>
      obtain ⟨hfault', htype⟩ := h g hfault
      rw [settle_of_none hfault, settle_of_none hfault']
      exact .inr ⟨htype, hc⟩

/-- An operation without a type, in both runs. -/
theorem twins_fail {Q : Ty → Ty → Prop} (fault : TypeFault) (span : Span) :
    Twins G Q (settle (.fail fault) span) (settle (.fail fault) span) :=
  .mk (steady_settle _ _) (steady_settle _ _) fun _ c _ _ => .inl (spoiled_report fault span c _)

theorem steady_reportAll (found : List (TypeFault × Span)) : Steady (reportAll found) := by
  induction found with
  | nil => exact steady_pure ()
  | cons first rest ih => exact (steady_report _ _).bind fun _ => ih

theorem twins_reportAll {found found' : List (TypeFault × Span)}
    (h : G → found = [] → found' = []) :
    Twins G (fun _ _ => found = []) (reportAll found) (reportAll found') := by
  refine .mk (steady_reportAll _) (steady_reportAll _) fun g c c' hc => ?_
  cases found with
  | nil =>
      rw [h g rfl]
      exact .inr ⟨rfl, hc⟩
  | cons first rest =>
      left
      obtain ⟨fault, span⟩ := first
      have hne := diagnostics_addDiagnostic_ne_nil c (.ofSpan .type fault.message span)
      exact .inl ((steady_reportAll rest _).reports hne)

theorem twins_expectStorable {value value' target target' : Ty} {span : Span}
    (h : G → value.Tame value' ∧ target.Tame target') :
    Twins G Eq (expectStorable value target span) (expectStorable value' target' span) := by
  refine .mk leaves_expectStorable.steady leaves_expectStorable.steady
    fun g c c' hc => ?_
  obtain ⟨hvalue, htarget⟩ := h g
  cases hfault : Ty.storeFault? value target with
  | some fault =>
      left
      unfold expectStorable
      rw [hfault]
      exact spoiled_report fault span c _
  | none =>
      right
      unfold expectStorable
      rw [hfault, hvalue.storeFault?_eq_none htarget hfault]
      exact ⟨rfl, hc⟩

/-- The types of an expression are noted, and have noted all that is needed unless the runs are
spoiled. -/
theorem twins_record (id : Nat) (h : G → t.RelaxesTo t') :
    Twins G (fun _ _ => t.Noted t') (record id t) (record id t') := by
  refine .mk (leaves_record id t).steady (leaves_record id t').steady
    fun g _ _ hc => ?_
  -- Runs with types that tell too little are spoiled from here on, so the others are as needed.
  by_cases hclear : t'.Clear
  · by_cases hmixes : t.MixesArrays
    · exact .inl (.inr (.inl ⟨(id, t), List.mem_cons_self, hmixes⟩))
    · exact .inr ⟨⟨h g, hclear, hmixes⟩, { hc with }⟩
  · exact .inl (.inr (.inr ⟨(id, t'), List.mem_cons_self, hclear⟩))

theorem twins_noted (id : Nat) (h : G → t.RelaxesTo t') :
    Twins G Ty.Noted
      (do
        record id t
        return t)
      (do
        record id t'
        return t') :=
  (twins_record id h).bind fun _ _ => twins_pure And.right

/-! ## Names -/

theorem twins_lookup? (name : String) :
    Twins G (Option.Rel Ty.RelaxesTo) (lookup? name) (lookup? name) :=
  Twins.mk (leaves_lookup? name).steady (leaves_lookup? name).steady
    fun _ _ _ hc => .inr ⟨hc.scopes.lookup? name, hc⟩

theorem twins_isComponent (name : String) :
    Twins G Eq (isComponent name) (isComponent name) :=
  Twins.mk (leaves_isComponent name).steady (leaves_isComponent name).steady
    fun _ _ _ hc => .inr ⟨congrArg (List.contains · name) hc.components.symm, hc⟩

theorem twins_define (name : String) (h : G → t.RelaxesTo t') :
    Twins G Eq (define name t) (define name t') :=
  twins_modify (fun _ => ⟨rfl, rfl⟩) (fun _ => ⟨rfl, rfl⟩)
    fun g _ _ hc => { hc with scopes := hc.scopes.define name (h g) }

theorem twins_update (name : String) (h : G → t.RelaxesTo t') :
    Twins G Eq (update name t) (update name t') :=
  twins_modify (fun _ => ⟨rfl, rfl⟩) (fun _ => ⟨rfl, rfl⟩)
    fun g _ _ hc => { hc with scopes := hc.scopes.update name (h g) }

/-- The variable is in sight of both or of neither. -/
theorem twins_variableType (name : String) (span : Span) :
    Twins G Ty.RelaxesTo (variableType name span) (variableType name span) := by
  refine .mk (leaves_variableType name span).steady
    (leaves_variableType name span).steady fun _ c c' hc => ?_
  have hfound := hc.scopes.lookup? name
  cases h : c.scopes.lookup? name with
  | none =>
      rw [variableType_of_none h]
      exact .inl (spoiled_report _ span c _)
  | some t =>
      rw [h] at hfound
      cases h' : c'.scopes.lookup? name with
      | none =>
          rw [h'] at hfound
          cases hfound
      | some t' =>
          rw [h'] at hfound
          rw [variableType_of_some h, variableType_of_some h']
          cases hfound with
          | some ht => exact .inr ⟨ht, hc⟩

theorem twins_declareComponent (name : String) :
    Twins G Eq (declareComponent name) (declareComponent name) := by
  have hmore : Twins G Eq
      (modify fun c : Checking => { c with components := c.components ++ [name] })
      (modify fun c => { c with components := c.components ++ [name] }) :=
    twins_modify (fun _ => ⟨rfl, rfl⟩) (fun _ => ⟨rfl, rfl⟩)
      fun _ _ _ hc => { hc with components := congrArg (· ++ [name]) hc.components }
  exact hmore.bind_eq fun _ => twins_define name fun _ => .refl _

/-! ## Returns -/

theorem twins_judgeReturn {declared declared' : Option Ty} {span : Span}
    (hdeclared : G → Option.Rel Ty.Tame declared declared') (h : G → t.Tame t') :
    Twins G Eq (judgeReturn declared t span) (judgeReturn declared' t' span) := by
  refine .mk (leaves_judgeReturn declared t span).steady
    (leaves_judgeReturn declared' t' span).steady fun g c c' hc => ?_
  unfold judgeReturn
  have hrel := hdeclared g
  cases hrel with
  | none => exact .inr ⟨rfl, hc⟩
  | some htame =>
      dsimp only
      split
      next hfits =>
        rw [if_pos ((h g).fits htame hfits)]
        exact .inr ⟨rfl, hc⟩
      next => exact .inl (spoiled_report _ span c _)

theorem twins_noteReturn {span : Span} (h : G → t.Tame t') :
    Twins G Eq (noteReturn t span) (noteReturn t' span) := by
  refine .mk (leaves_noteReturn t span).steady (leaves_noteReturn t' span).steady
    fun g c c' hc => ?_
  cases hreturns : c.returns with
  | nil =>
      have hnil : c'.returns = [] := List.forall₂_nil_left_iff.1 (hreturns ▸ hc.returns)
      rw [noteReturn_of_nil hreturns, noteReturn_of_nil hnil]
      exact .inr ⟨rfl, hc⟩
  | cons frame outer =>
      obtain ⟨frame', outer', ⟨hdeclared, hseen⟩, houter, hreturns'⟩ :=
        List.forall₂_cons_left_iff.1 (hreturns ▸ hc.returns)
      rw [noteReturn_of_cons hreturns, noteReturn_of_cons hreturns']
      have hseen := List.rel_append hseen (.cons (h g).relaxes .nil)
      exact (twins_judgeReturn (fun _ => hdeclared) h).along g _ _
        { hc with returns := .cons ⟨hdeclared, hseen⟩ houter }

/-- The end of a function, which gives the types that it has returned. -/
def leaveFunction : Check (List Ty) := do
  let c ← get
  set { c with returns := c.returns.drop 1 }
  return (c.returns.head?.map ReturnFrame.seen).getD []

theorem leaves_leaveFunction : LeavesNothing leaveFunction := fun _ => grows_of_eq rfl rfl (List.prefix_refl _)

theorem twins_leaveFunction :
    Twins G (List.Forall₂ Ty.RelaxesTo) leaveFunction leaveFunction := by
  refine .mk leaves_leaveFunction.steady leaves_leaveFunction.steady
    fun _ c c' hc => .inr ?_
  obtain ⟨scopes, external, components, returns, diagnostics, types, summaries⟩ := c
  obtain ⟨scopes', external', components', returns', diagnostics', types', summaries'⟩ := c'
  have hreturns : List.Forall₂ ReturnFrame.RelaxesTo returns returns' := hc.returns
  cases hreturns with
  | nil => exact ⟨.nil, { hc with }⟩
  | cons hframe houter => exact ⟨hframe.seen, { hc with returns := houter }⟩

theorem twins_collectReturns {declared declared' : Option Ty} {body body' : Check Unit}
    (hdeclared : G → Option.Rel Ty.Tame declared declared') (h : Twins G Eq body body') :
    Twins G (List.Forall₂ Ty.RelaxesTo) (collectReturns declared body)
      (collectReturns declared' body') := by
  have henter : Twins G Eq
      (modify fun c : Checking => { c with returns := ⟨declared, []⟩ :: c.returns })
      (modify fun c => { c with returns := ⟨declared', []⟩ :: c.returns }) :=
    twins_modify (fun _ => ⟨rfl, rfl⟩) (fun _ => ⟨rfl, rfl⟩)
      fun g _ _ hc => { hc with returns := .cons ⟨hdeclared g, .nil⟩ hc.returns }
  exact henter.bind_eq fun _ => h.bind_eq fun _ => twins_leaveFunction

end Check

end ComponentLang
