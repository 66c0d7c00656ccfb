import ComponentLang.Proofs.Typing.Effects
import ComponentLang.Typing.Program

/-!
# Scopes while a program is checked

`p.LeavesScopes` says that `p` changes nothing in the scopes: so it is with everything that is not a
statement. `Preserves x p` is for what defines names. As long as the type of `x` is known, `p` gives
it no other type and puts no other `x` before it, in whatever scopes it opens and leaves again.
-/
namespace ComponentLang

namespace Scopes

/-- What each scope says of a name, innermost first. -/
def entries (s : Scopes) (name : String) : List (Option Ty) :=
  (s.inner :: s.outer).map (TypedName.lookup? name)

variable {s : Scopes} {name other : String} {type : Ty}

theorem lookup?_eq_entries (s : Scopes) (name : String) :
    s.lookup? name = (s.entries name).findSome? id := by
  unfold lookup? entries
  rw [List.findSome?_map]
  rfl

/-- What was said before a scope was opened is said again when it is left. -/
theorem entries_pop {first : Option Ty} {rest : List (Option Ty)}
    (h : s.entries name = first :: rest) (hrest : rest ≠ []) : s.pop.entries name = rest := by
  obtain ⟨inner, outer⟩ := s
  obtain ⟨-, houter⟩ := List.cons.inj h
  cases outer with
  | nil => exact absurd houter.symm hrest
  | cons scope outer => exact houter

theorem lookup?_put_of_ne (h : other ≠ name) (names : List TypedName) :
    TypedName.lookup? name (TypedName.put other type names) = TypedName.lookup? name names := by
  rw [TypedName.lookup?_put, if_neg h]

theorem entries_define_of_ne (h : other ≠ name) (s : Scopes) :
    (s.define other type).entries name = s.entries name := by
  unfold define entries
  rw [List.map_cons, List.map_cons, lookup?_put_of_ne h]

theorem map_updateFirst?_of_ne (h : other ≠ name) {scopes updated : List (List TypedName)}
    (hupdated : updateFirst? other type scopes = some updated) :
    updated.map (TypedName.lookup? name) = scopes.map (TypedName.lookup? name) := by
  induction scopes generalizing updated with
  | nil => cases hupdated
  | cons scope rest ih =>
      unfold updateFirst? at hupdated
      split at hupdated
      · cases hupdated
        rw [List.map_cons, List.map_cons, lookup?_put_of_ne h]
      · obtain ⟨later, hlater, rfl⟩ := Option.map_eq_some_iff.1 hupdated
        rw [List.map_cons, List.map_cons, ih hlater]

theorem entries_update?_of_ne (h : other ≠ name) (s : Scopes) :
    ((s.update? other type).getD s).entries name = s.entries name := by
  unfold update?
  split
  · exact entries_define_of_ne h s
  · cases hupdated : updateFirst? other type s.outer with
    | none => rfl
    | some outer =>
        have houter := map_updateFirst?_of_ne h hupdated
        exact congrArg (TypedName.lookup? name s.inner :: ·) houter

end Scopes

namespace Checking

/-- A name is in sight, and its type is known. -/
def Settled (c : Checking) (x : String) : Prop :=
  ∃ type, c.scopes.lookup? x = some type ∧ type ≠ .unknown

variable {c d : Checking} {x : String}

theorem lookup?_of_entries (h : d.scopes.entries x = c.scopes.entries x) :
    d.scopes.lookup? x = c.scopes.lookup? x := by
  rw [Scopes.lookup?_eq_entries, Scopes.lookup?_eq_entries, h]

theorem Settled.of_entries (hc : c.Settled x) (h : d.scopes.entries x = c.scopes.entries x) :
    d.Settled x := by
  obtain ⟨type, htype, hknown⟩ := hc
  exact ⟨type, (lookup?_of_entries h).trans htype, hknown⟩

/-- The state in a new scope. -/
def opened (c : Checking) : Checking := { c with scopes := c.scopes.push }

theorem lookup?_opened (c : Checking) (x : String) :
    c.opened.scopes.lookup? x = c.scopes.lookup? x := by
  rw [Scopes.lookup?_eq_entries, Scopes.lookup?_eq_entries]
  rfl

theorem Settled.opened (h : c.Settled x) : c.opened.Settled x := by
  obtain ⟨type, htype, hknown⟩ := h
  exact ⟨type, (lookup?_opened c x).trans htype, hknown⟩

end Checking

open Checking

namespace Check

variable {α β : Type} {p : Check α} {f : α → Check β} {x : String}

/-! ## What stays as it is -/

/-- What `view` shows of the state is as it was. -/
def Fixes {γ : Type} (view : Checking → γ) (p : Check α) : Prop :=
  ∀ c, view (p.run c).2 = view c

abbrev LeavesScopes (p : Check α) : Prop := Fixes Checking.scopes p

abbrev LeavesReturns (p : Check α) : Prop := Fixes Checking.returns p

/-- What is found has no part in what `view` shows. -/
class IgnoresFindings {γ : Type} (view : Checking → γ) : Prop where
  reports : ∀ c x, view (c.addDiagnostic x) = view c
  notes : ∀ (c : Checking) (types : TypeTable), view { c with types } = view c
  summaries : ∀ (c : Checking) (summaries : List ComponentSummary),
    view { c with summaries } = view c

instance : IgnoresFindings Checking.scopes where
  reports c x := by rw [addDiagnostic_eq]
  notes _ _ := rfl
  summaries _ _ := rfl

instance : IgnoresFindings Checking.returns where
  reports c x := by rw [addDiagnostic_eq]
  notes _ _ := rfl
  summaries _ _ := rfl

section Fixes

variable {γ : Type} {view : Checking → γ}

theorem fixes_pure (a : α) : Fixes view (pure a) := fun _ => rfl

theorem Fixes.bind (hp : Fixes view p) (hf : ∀ a, Fixes view (f a)) :
    Fixes view (p >>= f) :=
  fun c => (hf (p.run c).1 (p.run c).2).trans (hp c)

theorem fixes_get_bind {f : Checking → Check α} (h : ∀ c, Fixes view (f c)) :
    Fixes view (get >>= f) :=
  fun c => h c c

theorem fixes_map {g : α → β} (h : Fixes view p) : Fixes view (g <$> p) := h

theorem fixes_report [IgnoresFindings view] (fault : TypeFault) (span : Span) :
    Fixes view (report fault span) :=
  fun c => IgnoresFindings.reports c _

theorem fixes_settle [IgnoresFindings view] (verdict : Verdict) (span : Span) :
    Fixes view (settle verdict span) := by
  unfold settle
  split
  · exact (fixes_report _ span).bind fun _ => fixes_pure _
  · exact fixes_pure _

theorem fixes_reportAll [IgnoresFindings view] (found : List (TypeFault × Span)) :
    Fixes view (reportAll found) := by
  induction found with
  | nil => exact fixes_pure ()
  | cons first rest ih => exact (fixes_report first.1 first.2).bind fun _ => ih

theorem fixes_expectStorable [IgnoresFindings view] (value target : Ty) (span : Span) :
    Fixes view (expectStorable value target span) := by
  unfold expectStorable
  split
  · exact fixes_report _ span
  · exact fixes_pure ()

theorem fixes_record [IgnoresFindings view] (id : Nat) (type : Ty) : Fixes view (record id type) :=
  fun c => IgnoresFindings.notes c _

/-- The type of an expression is noted last. -/
theorem fixes_noted [IgnoresFindings view] (id : Nat) (type : Ty) :
    Fixes view (do
      record id type
      return type) :=
  (fixes_record id type).bind fun _ => fixes_pure type

theorem fixes_lookup? (name : String) : Fixes view (lookup? name) :=
  fixes_get_bind fun _ => fixes_pure _

theorem fixes_isComponent (name : String) : Fixes view (isComponent name) :=
  fixes_get_bind fun _ => fixes_pure _

theorem fixes_variableType [IgnoresFindings view] (name : String) (span : Span) :
    Fixes view (variableType name span) := by
  unfold variableType
  refine (fixes_lookup? name).bind fun found => ?_
  split
  · exact fixes_pure _
  · exact fixes_settle _ span

theorem fixes_judgeReturn [IgnoresFindings view] (declared : Option Ty) (type : Ty) (span : Span) :
    Fixes view (judgeReturn declared type span) := by
  unfold judgeReturn
  split
  · exact fixes_pure ()
  · split
    · exact fixes_pure ()
    · exact fixes_report _ span

theorem fixes_namedType [IgnoresFindings view] (name : String) (span : Span) :
    Fixes view (namedType name span) := by
  unfold namedType
  split
  · exact fixes_pure _
  · refine (fixes_isComponent name).bind fun known => ?_
    split
    · exact fixes_pure _
    · exact fixes_settle _ span

mutual

theorem fixes_resolve [IgnoresFindings view] : ∀ a : TypeExpr, Fixes view (resolve a)
  | .named span name => fixes_namedType name span
  | .array _ element => (fixes_resolve element).bind fun _ => fixes_pure _
  | .optional _ inner => (fixes_resolve inner).bind fun _ => fixes_pure _
  | .union _ members => (fixes_resolveAll members).bind fun _ => fixes_pure _

theorem fixes_resolveAll [IgnoresFindings view] : ∀ as : List TypeExpr, Fixes view (resolveAll as)
  | [] => fixes_pure _
  | a :: rest =>
    (fixes_resolve a).bind fun _ =>
      (fixes_resolveAll rest).bind fun _ => fixes_pure _

end

theorem fixes_resolve? [IgnoresFindings view] (a : Option TypeExpr) : Fixes view (resolve? a) := by
  cases a with
  | none => exact fixes_pure _
  | some a => exact (fixes_resolve a).bind fun _ => fixes_pure _

theorem fixes_externalType (name : String) : Fixes view (externalType name) :=
  fixes_get_bind fun _ => fixes_pure _

theorem fixes_noteTag [IgnoresFindings view] (name : String) (looksLikeComponent : Bool)
    (span : Span) : Fixes view (noteTag name looksLikeComponent span) := by
  unfold noteTag
  refine (fixes_isComponent name).bind fun isKnown =>
    (fixes_lookup? name).bind fun found => ?_
  dsimp only
  split
  · exact fixes_report _ span
  · exact fixes_pure ()

theorem fixes_tagType (t : Tag) : Fixes view (tagType t) := by
  unfold tagType
  refine (fixes_isComponent t.name).bind fun isKnown => ?_
  split <;> exact fixes_pure _

mutual

theorem fixes_expr [IgnoresFindings view] : ∀ e : Expr, Fixes view (expr e)
  | .literal .. => by
    rw [Check.expr]
    exact (fixes_pure _).bind (fixes_noted _)
  | .identifier node name => by
    rw [Check.expr]
    exact (fixes_variableType name _).bind (fixes_noted _)
  | .valueBinding node name => by
    rw [Check.expr]
    exact (fixes_externalType name).bind (fixes_noted _)
  | .binary node left op right => by
    rw [Check.expr]
    exact (fixes_expr left).bind fun l => (fixes_expr right).bind fun r =>
      (fixes_settle _ _).bind (fixes_noted _)
  | .unary node op operand => by
    rw [Check.expr]
    exact (fixes_expr operand).bind fun t =>
      (fixes_settle _ _).bind (fixes_noted _)
  | .await node operand => by
    rw [Check.expr]
    exact (fixes_expr operand).bind (fixes_noted _)
  | .call node callee arguments => by
    rw [Check.expr]
    exact (fixes_expr callee).bind fun t => (fixes_exprs arguments).bind fun types =>
      (fixes_reportAll _).bind fun _ => (fixes_pure _).bind (fixes_noted _)
  | .member node object property => by
    rw [Check.expr]
    exact (fixes_expr object).bind fun t =>
      (fixes_settle _ _).bind (fixes_noted _)
  | .index node object index => by
    rw [Check.expr]
    exact (fixes_expr object).bind fun t => (fixes_expr index).bind fun i =>
      (fixes_settle _ _).bind (fixes_noted _)
  | .array node items => by
    rw [Check.expr]
    exact (fixes_exprs items).bind fun types =>
      (fixes_pure _).bind (fixes_noted _)
  | .object node properties => by
    rw [Check.expr]
    exact (fixes_propertyList [] properties).bind fun fields =>
      (fixes_pure _).bind (fixes_noted _)
  | .conditional node test consequent alternate => by
    rw [Check.expr]
    exact (fixes_expr test).bind fun _ => (fixes_expr consequent).bind fun a =>
      (fixes_expr alternate).bind fun b =>
        (fixes_pure _).bind (fixes_noted _)
  | .tag node t => by
    rw [Check.expr]
    exact (fixes_tag t).bind fun _ =>
      (fixes_tagType t).bind (fixes_noted _)

theorem fixes_exprs [IgnoresFindings view] : ∀ es : List Expr, Fixes view (exprs es)
  | [] => fixes_pure _
  | e :: rest => by
    rw [Check.exprs]
    exact (fixes_expr e).bind fun type => (fixes_exprs rest).bind fun types =>
      fixes_pure _

theorem fixes_propertyList [IgnoresFindings view] (fields : List TypedName) :
    ∀ ps : List Property, Fixes view (propertyList fields ps)
  | [] => fixes_pure _
  | .named key value :: rest => by
    rw [Check.propertyList]
    exact (fixes_expr value).bind fun type => fixes_propertyList _ rest
  | .computed key value :: rest => by
    rw [Check.propertyList]
    exact (fixes_expr value).bind fun _ => (fixes_expr key).bind fun _ =>
      fixes_propertyList _ rest

theorem fixes_tag [IgnoresFindings view] : ∀ t : Tag, Fixes view (tag t)
  | ⟨name, attributes, styles, children, selfClosing, span⟩ => by
    rw [Check.tag]
    exact (fixes_noteTag _ _ _).bind fun _ =>
      (fixes_attributeList attributes).bind fun _ => fixes_markups children

theorem fixes_attributeList [IgnoresFindings view] :
    ∀ as : List Attribute, Fixes view (attributeList as)
  | [] => fixes_pure _
  | ⟨name, some value, event, span⟩ :: rest => by
    rw [Check.attributeList]
    exact (fixes_expr value).bind fun _ => fixes_attributeList rest
  | ⟨name, none, event, span⟩ :: rest => by
    rw [Check.attributeList]
    exact fixes_attributeList rest

theorem fixes_markup [IgnoresFindings view] : ∀ m : Markup, Fixes view (markup m)
  | .tag t => by
    rw [Check.markup]
    exact fixes_tag t
  | .text .. => by
    rw [Check.markup]
    exact fixes_pure ()
  | .expr e => by
    rw [Check.markup]
    exact (fixes_expr e).bind fun _ => fixes_pure ()

theorem fixes_markups [IgnoresFindings view] : ∀ ms : List Markup, Fixes view (markups ms)
  | [] => fixes_pure _
  | m :: rest => by
    rw [Check.markups]
    exact (fixes_markup m).bind fun _ => fixes_markups rest

end

theorem fixes_expr? [IgnoresFindings view] (e : Option Expr) : Fixes view (expr? e) := by
  cases e with
  | none => exact fixes_pure ()
  | some e => exact (fixes_expr e).bind fun _ => fixes_pure ()

theorem fixes_paramTypes [IgnoresFindings view] (params : List Param) :
    Fixes view (paramTypes params) := by
  induction params with
  | nil => exact fixes_pure _
  | cons param rest ih =>
      exact (fixes_resolve? param.typeExpr).bind fun _ =>
        ih.bind fun _ => fixes_pure _

theorem fixes_signature [IgnoresFindings view] (f : Function) : Fixes view (signature f) := by
  unfold signature
  exact (fixes_paramTypes f.params).bind fun params =>
    (fixes_resolve? f.returnType).bind fun _ => fixes_pure _

theorem fixes_assignmentTarget [IgnoresFindings view] (target : Expr) :
    Fixes view (assignmentTarget target) := by
  unfold assignmentTarget
  split
  · exact (fixes_variableType _ _).bind (fixes_noted _)
  · exact fixes_expr target

theorem fixes_assignedType [IgnoresFindings view] (op : AssignOp) (target value : Ty)
    (span : Span) : Fixes view (assignedType op target value span) := by
  unfold assignedType
  split
  · exact fixes_pure _
  · exact fixes_settle _ span

theorem fixes_summarize [IgnoresFindings view] (name : String) (state : List String)
    (methods : List TypedName) : Fixes view (summarize name state methods) :=
  fun c => IgnoresFindings.summaries c _

end Fixes

theorem leavesScopes_noteReturn (type : Ty) (span : Span) :
    LeavesScopes (noteReturn type span) := by
  intro c
  cases h : c.returns with
  | nil => rw [noteReturn_of_nil h]
  | cons frame outer =>
      rw [noteReturn_of_cons h]
      exact fixes_judgeReturn frame.declared type span _

/-! ## Names that keep their types -/

/-- A name with a known type keeps it, and no other entry for the name comes before it. -/
def Preserves (x : String) (p : Check α) : Prop :=
  ∀ c, c.Settled x → (p.run c).2.scopes.entries x = c.scopes.entries x

theorem Fixes.preserves (h : LeavesScopes p) : Preserves x p :=
  fun c _ => congrArg (Scopes.entries · x) (h c)

theorem Preserves.settled (h : Preserves x p) {c : Checking} (hc : c.Settled x) :
    (p.run c).2.Settled x :=
  hc.of_entries (h c hc)

theorem Preserves.lookup? (h : Preserves x p) {c : Checking} (hc : c.Settled x) :
    (p.run c).2.scopes.lookup? x = c.scopes.lookup? x :=
  lookup?_of_entries (h c hc)

theorem Preserves.bind (hp : Preserves x p) (hf : ∀ a, Preserves x (f a)) :
    Preserves x (p >>= f) :=
  fun c hc => (hf (p.run c).1 _ (hp.settled hc)).trans (hp c hc)

/-- What leaves the scopes as they are comes first. -/
theorem Fixes.then (hp : LeavesScopes p) (hf : ∀ a, Preserves x (f a)) :
    Preserves x (p >>= f) :=
  Preserves.bind hp.preserves hf

/-- What leaves the scopes as they are comes last. -/
theorem Preserves.before (hp : Preserves x p) (hf : ∀ a, LeavesScopes (f a)) :
    Preserves x (p >>= f) :=
  hp.bind fun a => (hf a).preserves

theorem preserves_pure (a : α) : Preserves x (pure a : Check α) := (fixes_pure a).preserves

theorem preserves_get_bind {f : Checking → Check α} (h : ∀ c, Preserves x (f c)) :
    Preserves x (get >>= f) :=
  fun c => h c c

theorem preserves_inScope (h : Preserves x p) : Preserves x (inScope p) := by
  intro c hc
  have hinside : ((p.run c.opened).2).scopes.entries x = none :: c.scopes.entries x :=
    h c.opened hc.opened
  exact Scopes.entries_pop hinside (List.cons_ne_nil _ _)

theorem preserves_define {name : String} (h : name ≠ x) (type : Ty) :
    Preserves x (define name type) :=
  fun c _ => Scopes.entries_define_of_ne h c.scopes

theorem preserves_update {name : String} (h : name ≠ x) (type : Ty) :
    Preserves x (update name type) :=
  fun c _ => Scopes.entries_update?_of_ne h c.scopes

theorem preserves_collectReturns {declared : Option Ty} {body : Check Unit}
    (h : Preserves x body) : Preserves x (collectReturns declared body) :=
  fun c hc => h { c with returns := ⟨declared, []⟩ :: c.returns } hc

theorem preserves_each {check : α → Check Unit} {items : List α}
    (h : ∀ a ∈ items, Preserves x (check a)) : Preserves x (each check items) := by
  induction items with
  | nil => exact preserves_pure ()
  | cons a rest ih =>
      rw [List.forall_mem_cons] at h
      exact h.1.bind fun _ => ih h.2

end Check

end ComponentLang
