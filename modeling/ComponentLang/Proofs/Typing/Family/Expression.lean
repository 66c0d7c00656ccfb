import ComponentLang.Proofs.Tree.Labels
import ComponentLang.Proofs.Typing.Effects
import ComponentLang.Proofs.Typing.Family

/-!
# Checks that keep to a family of types

A state keeps to a family if the types in it do, in the scopes, in the functions that are being
checked, among the values from outside, in what was noted and in what was summarized, and if every
fault that was reported does. `Builds F K p` says that `p` gives something of the kind `K` and leaves
such a state, from whatever such state it is run. What is checked has its names and keys from the
family.
-/
namespace ComponentLang

open TypedName

variable {F : Ty.Family}

/-- What a function says it returns, and what it has returned. -/
structure ReturnFrame.In (F : Ty.Family) (frame : ReturnFrame) : Prop where
  declared : ∀ t ∈ frame.declared, F.Has t
  seen : ∀ t ∈ frame.seen, F.Has t

structure ComponentSummary.In (F : Ty.Family) (summary : ComponentSummary) : Prop where
  state : Each F.Has summary.state
  methods : Each F.Has summary.methods

/-- All types that are kept are of the family, and so is what was reported. -/
structure Checking.In (F : Ty.Family) (c : Checking) : Prop where
  scopes : c.scopes.Each F.Has
  external : Each F.Has c.external
  returns : ∀ frame ∈ c.returns, frame.In F
  types : ∀ entry ∈ c.types.entries, F.Has entry.2
  summaries : ∀ summary ∈ c.summaries, summary.In F
  reported : ∀ d ∈ c.diagnostics, ∃ fault : TypeFault, fault.In F ∧ d.message = fault.message

theorem Checking.In.addDiagnostic {c : Checking} {fault : TypeFault} (h : c.In F)
    (hfault : fault.In F) (span : Span) :
    (c.addDiagnostic (.ofSpan .type fault.message span)).In F := by
  unfold Checking.addDiagnostic
  split
  · exact h
  · exact { h with reported := List.forall_mem_cons.2 ⟨⟨fault, hfault, rfl⟩, h.reported⟩ }

/-- The names and keys in the part are from the family. -/
abbrev Ty.Family.Part (F : Ty.Family) (part : TreePart) : Prop := part.Spelled F.Named F.Named

namespace Check

variable {α β : Type} {K : α → Prop} {L : β → Prop} {p : Check α} {f : α → Check β} {type : Ty}

/-- From a state that keeps to the family, `p` gives something of the kind `K` and leaves such a
state. -/
def Builds (F : Ty.Family) (K : α → Prop) (p : Check α) : Prop :=
  ∀ c : Checking, c.In F → K (p.run c).1 ∧ (p.run c).2.In F

/-- Nothing is said of what is given. -/
abbrev KeepsTo (F : Ty.Family) (p : Check α) : Prop := Builds F (fun _ => True) p

/-! ## Checks made from checks -/

theorem builds_pure {a : α} (h : K a) : Builds F K (pure a) := fun _ hc => ⟨h, hc⟩

theorem Builds.bind (hp : Builds F K p) (hf : ∀ a, K a → Builds F L (f a)) :
    Builds F L (p >>= f) := by
  intro c hc
  obtain ⟨ha, hafter⟩ := hp c hc
  exact hf _ ha _ hafter

/-- There is a type, and it is of the family. -/
theorem builds_some {p : Check Ty} (h : Builds F F.Has p) :
    Builds F (fun found => ∀ t ∈ found, F.Has t) (some <$> p) := by
  intro c hc
  refine ⟨?_, (h c hc).2⟩
  rintro t ⟨⟩
  exact (h c hc).1

theorem builds_get_bind {f : Checking → Check β} (h : ∀ c, c.In F → Builds F L (f c)) :
    Builds F L (get >>= f) :=
  fun c hc => h c hc c hc

theorem keepsTo_modify {change : Checking → Checking}
    (h : ∀ c : Checking, c.In F → (change c).In F) : KeepsTo F (modify change) :=
  fun c hc => ⟨trivial, h c hc⟩

theorem builds_inScope (h : Builds F K p) : Builds F K (inScope p) := by
  have hpush : KeepsTo F (modify fun c : Checking => { c with scopes := c.scopes.push }) :=
    keepsTo_modify fun c hc => { hc with scopes := hc.scopes.push }
  have hpop : KeepsTo F (modify fun c : Checking => { c with scopes := c.scopes.pop }) :=
    keepsTo_modify fun c hc => { hc with scopes := hc.scopes.pop }
  exact hpush.bind fun _ _ => h.bind fun _ ha => hpop.bind fun _ _ => builds_pure ha

theorem keepsTo_each {check : α → Check Unit} {items : List α}
    (h : ∀ a ∈ items, KeepsTo F (check a)) : KeepsTo F (each check items) := by
  induction items with
  | nil => exact builds_pure trivial
  | cons a rest ih =>
      obtain ⟨ha, hrest⟩ := List.forall_mem_cons.1 h
      exact ha.bind fun _ _ => ih hrest

/-! ## Reports and notes -/

theorem keepsTo_report {fault : TypeFault} (h : fault.In F) (span : Span) :
    KeepsTo F (report fault span) :=
  keepsTo_modify fun _ hc => hc.addDiagnostic h span

theorem builds_settle {verdict : Verdict} (h : verdict.In F) (span : Span) :
    Builds F F.Has (settle verdict span) := by
  have hfault := h.fault
  unfold settle
  generalize verdict.fault = found at hfault
  cases found with
  | none => exact builds_pure h.type
  | some fault =>
      exact (keepsTo_report (hfault fault rfl) span).bind fun _ _ => builds_pure h.type

theorem keepsTo_reportAll {found : List (TypeFault × Span)} (h : ∀ f ∈ found, f.1.In F) :
    KeepsTo F (reportAll found) := by
  induction found with
  | nil => exact builds_pure trivial
  | cons first rest ih =>
      obtain ⟨hfirst, hrest⟩ := List.forall_mem_cons.1 h
      exact (keepsTo_report hfirst first.2).bind fun _ _ => ih hrest

theorem keepsTo_expectStorable {value target : Ty} (hvalue : F.Has value) (htarget : F.Has target)
    (span : Span) : KeepsTo F (expectStorable value target span) := by
  unfold expectStorable
  split
  next fault hfault =>
    unfold Ty.storeFault? at hfault
    split at hfault
    · cases hfault
    · cases hfault
      exact keepsTo_report (TypeFault.in_of_types rfl rfl hvalue htarget) span
  next => exact builds_pure trivial

theorem keepsTo_record (id : Nat) (h : F.Has type) : KeepsTo F (record id type) :=
  keepsTo_modify fun _ hc => { hc with types := List.forall_mem_cons.2 ⟨h, hc.types⟩ }

/-- The type of an expression is noted last. -/
theorem builds_noted (id : Nat) (h : F.Has type) :
    Builds F F.Has (do
      record id type
      return type) :=
  (keepsTo_record id h).bind fun _ _ => builds_pure h

/-! ## Names -/

theorem keepsTo_define (name : String) (h : F.Has type) : KeepsTo F (define name type) :=
  keepsTo_modify fun _ hc => { hc with scopes := hc.scopes.define h }

theorem keepsTo_update (name : String) (h : F.Has type) : KeepsTo F (update name type) :=
  keepsTo_modify fun _ hc => { hc with scopes := hc.scopes.update h }

theorem builds_lookup? (name : String) :
    Builds F (fun found => ∀ t ∈ found, F.Has t) (lookup? name) :=
  fun _ hc => ⟨fun _ hlookup => hc.scopes.lookup? hlookup, hc⟩

theorem builds_variableType {name : String} (hname : F.Named name) (span : Span) :
    Builds F F.Has (variableType name span) := by
  refine (builds_lookup? name).bind fun found hfound => ?_
  cases found with
  | none => exact builds_settle (Verdict.in_fail (TypeFault.in_of_name rfl rfl hname)) span
  | some type => exact builds_pure (hfound type rfl)

theorem builds_externalType (name : String) : Builds F F.Has (externalType name) := by
  refine builds_get_bind fun c hc => builds_pure ?_
  cases hlookup : TypedName.lookup? name c.external with
  | none => exact F.any
  | some type => exact hc.external.lookup? hlookup

theorem keepsTo_isComponent (name : String) : KeepsTo F (isComponent name) :=
  builds_get_bind fun _ _ => builds_pure trivial

theorem keepsTo_declareComponent {name : String} (hname : F.Named name) :
    KeepsTo F (declareComponent name) := by
  have hmore : KeepsTo F
      (modify fun c : Checking => { c with components := c.components ++ [name] }) :=
    keepsTo_modify fun _ hc => { hc with }
  exact hmore.bind fun _ _ => keepsTo_define name (F.component hname)

theorem keepsTo_noteTag {name : String} (hname : F.Named name) (looksLikeComponent : Bool)
    (span : Span) : KeepsTo F (noteTag name looksLikeComponent span) := by
  refine (keepsTo_isComponent name).bind fun isKnown _ =>
    (builds_lookup? name).bind fun found _ => ?_
  dsimp only
  split
  · exact keepsTo_report (TypeFault.in_of_name rfl rfl hname) span
  · exact builds_pure trivial

theorem builds_tagType {t : Tag} (hname : F.Named t.name) : Builds F F.Has (tagType t) := by
  refine (keepsTo_isComponent t.name).bind fun isKnown _ => ?_
  split
  · exact builds_pure (F.component hname)
  · exact builds_pure F.any

/-! ## Returns -/

theorem keepsTo_judgeReturn {declared : Option Ty} (hdeclared : ∀ t ∈ declared, F.Has t)
    (h : F.Has type) (span : Span) : KeepsTo F (judgeReturn declared type span) := by
  unfold judgeReturn
  split
  · exact builds_pure trivial
  next declared =>
    split
    · exact builds_pure trivial
    · exact keepsTo_report (TypeFault.in_of_types rfl rfl h (hdeclared declared rfl)) span

theorem keepsTo_noteReturn (h : F.Has type) (span : Span) : KeepsTo F (noteReturn type span) := by
  intro c hc
  cases hreturns : c.returns with
  | nil =>
      rw [noteReturn_of_nil hreturns]
      exact ⟨trivial, hc⟩
  | cons frame outer =>
      obtain ⟨hframe, houter⟩ := List.forall_mem_cons.1 (hreturns ▸ hc.returns)
      rw [noteReturn_of_cons hreturns]
      refine keepsTo_judgeReturn hframe.declared h span _ { hc with returns := ?_ }
      have hseen : ∀ t ∈ frame.seen ++ [type], F.Has t :=
        List.forall_mem_append.2 ⟨hframe.seen, List.forall_mem_singleton.2 h⟩
      exact List.forall_mem_cons.2 ⟨⟨hframe.declared, hseen⟩, houter⟩

theorem builds_collectReturns {declared : Option Ty} {body : Check Unit}
    (hdeclared : ∀ t ∈ declared, F.Has t) (h : KeepsTo F body) :
    Builds F (fun types => ∀ t ∈ types, F.Has t) (collectReturns declared body) := by
  intro c hc
  have hreturns : ∀ frame ∈ ⟨declared, []⟩ :: c.returns, ReturnFrame.In F frame :=
    List.forall_mem_cons.2 ⟨⟨hdeclared, List.forall_mem_nil _⟩, hc.returns⟩
  have hafter := (h { c with returns := ⟨declared, []⟩ :: c.returns }
    { hc with returns := hreturns }).2
  refine ⟨?_, { hafter with
    returns := fun frame hframe => hafter.returns frame (List.mem_of_mem_drop hframe) }⟩
  change ∀ t ∈ ((body.run { c with returns := ⟨declared, []⟩ :: c.returns }).2.returns.head?.map
    ReturnFrame.seen).getD [], F.Has t
  cases hhead : (body.run { c with returns := ⟨declared, []⟩ :: c.returns }).2.returns.head? with
  | none => exact List.forall_mem_nil _
  | some frame => exact (hafter.returns frame (List.mem_of_mem_head? hhead)).seen

/-! ## Type expressions -/

theorem has_of_namedType? {name : String} (h : namedType? name = some type) : F.Has type := by
  unfold namedType? at h
  split_ifs at h <;> cases h
  · exact F.primitive _
  · exact F.primitive _
  · exact F.primitive _
  · exact F.primitive _
  · exact F.primitive _
  · exact F.any
  · exact F.unknown
  · exact F.array F.any

theorem builds_namedType {name : String} (hname : F.Named name) (span : Span) :
    Builds F F.Has (namedType name span) := by
  unfold namedType
  split
  next type hfixed => exact builds_pure (has_of_namedType? hfixed)
  next =>
    refine (keepsTo_isComponent name).bind fun known _ => ?_
    split
    · exact builds_pure (F.component hname)
    · exact builds_settle (Verdict.in_fail (TypeFault.in_of_name rfl rfl hname)) span

mutual

theorem builds_resolve : ∀ a : TypeExpr, (∀ name ∈ a.names, F.Named name) →
    Builds F F.Has (resolve a)
  | .named span name, h => builds_namedType (h name (List.mem_singleton_self name)) span
  | .array _ element, h =>
    (builds_resolve element h).bind fun _ h => builds_pure (F.array h)
  | .optional _ inner, h =>
    (builds_resolve inner h).bind fun _ h => builds_pure (F.optional h)
  | .union _ members, h =>
    (builds_resolveAll members (forall_names_union.1 h)).bind fun _ h => builds_pure (F.unionOf h)

theorem builds_resolveAll : ∀ as : List TypeExpr, (∀ a ∈ as, ∀ name ∈ a.names, F.Named name) →
    Builds F (fun types => ∀ t ∈ types, F.Has t) (resolveAll as)
  | [], _ => builds_pure (List.forall_mem_nil _)
  | a :: rest, h =>
    (builds_resolve a (List.forall_mem_cons.1 h).1).bind fun _ ha =>
      (builds_resolveAll rest (List.forall_mem_cons.1 h).2).bind fun _ hrest =>
        builds_pure (List.forall_mem_cons.2 ⟨ha, hrest⟩)

end

theorem builds_resolve? {a : Option TypeExpr} (h : ∀ b ∈ a, ∀ name ∈ b.names, F.Named name) :
    Builds F (fun found => ∀ t ∈ found, F.Has t) (resolve? a) := by
  cases a with
  | none => exact builds_pure nofun
  | some a => exact builds_some (builds_resolve a (h a rfl))

/-! ## Expressions -/

/-- The arguments of a call, with their places. -/
theorem has_zip {types : List Ty} (h : ∀ t ∈ types, F.Has t) (spans : List Span) :
    ∀ a ∈ types.zip spans, F.Has a.1 :=
  fun _ ha => h _ (List.of_mem_zip ha).1

mutual

theorem builds_expr : ∀ e : Expr, F.Part (.expr e) → Builds F F.Has (expr e)
  | .literal node value, _ => by
    rw [Check.expr]
    exact (builds_pure (F.ofLiteral value)).bind fun _ h => builds_noted _ h
  | .identifier node name, h => by
    rw [Check.expr]
    exact (builds_variableType (spelled_identifier.1 h) _).bind fun _ h => builds_noted _ h
  | .valueBinding node name, _ => by
    rw [Check.expr]
    exact (builds_externalType name).bind fun _ h => builds_noted _ h
  | .binary node left op right, h => by
    obtain ⟨hleft, hright⟩ := spelled_binary.1 h
    rw [Check.expr]
    exact (builds_expr left hleft).bind fun _ hl => (builds_expr right hright).bind fun _ hr =>
      (builds_settle (F.ofBinary hl hr op) _).bind fun _ h => builds_noted _ h
  | .unary node op operand, h => by
    rw [Check.expr]
    exact (builds_expr operand (spelled_unary.1 h)).bind fun _ h =>
      (builds_settle (F.ofUnary op h) _).bind fun _ h => builds_noted _ h
  | .await node operand, h => by
    rw [Check.expr]
    exact (builds_expr operand (spelled_await.1 h)).bind fun _ h => builds_noted _ h
  | .call node callee arguments, h => by
    obtain ⟨hcallee, harguments⟩ := spelled_call.1 h
    rw [Check.expr]
    refine (builds_expr callee hcallee).bind fun t ht =>
      (builds_exprs arguments harguments).bind fun types htypes => ?_
    obtain ⟨hresult, hfaults⟩ := F.ofCall ht (has_zip htypes _) node.span
    exact (keepsTo_reportAll hfaults).bind fun _ _ => (builds_pure hresult).bind
      fun _ h => builds_noted _ h
  | .member node object property, h => by
    obtain ⟨hproperty, hobject⟩ := spelled_member.1 h
    rw [Check.expr]
    exact (builds_expr object hobject).bind fun _ h =>
      (builds_settle (F.ofMember hproperty h) _).bind fun _ h => builds_noted _ h
  | .index node object index, h => by
    obtain ⟨hobject, hindex⟩ := spelled_index.1 h
    rw [Check.expr]
    exact (builds_expr object hobject).bind fun _ h => (builds_expr index hindex).bind fun _ hi =>
      (builds_settle (F.ofIndex h hi) _).bind fun _ h => builds_noted _ h
  | .array node items, h => by
    rw [Check.expr]
    exact (builds_exprs items (spelled_array.1 h)).bind fun _ h =>
      (builds_pure (F.array (F.unionOf h))).bind fun _ h => builds_noted _ h
  | .object node properties, h => by
    rw [Check.expr]
    exact (builds_propertyList properties [] (spelled_object.1 h) fields_nil).bind
      fun _ h => (builds_pure (F.object h.nodup h.each)).bind fun _ h => builds_noted _ h
  | .conditional node test consequent alternate, h => by
    obtain ⟨htest, hconsequent, halternate⟩ := spelled_conditional.1 h
    rw [Check.expr]
    exact (builds_expr test htest).bind fun _ _ => (builds_expr consequent hconsequent).bind
      fun _ ha => (builds_expr alternate halternate).bind fun _ hb =>
        (builds_pure (F.unionOf (List.forall_mem_cons.2
          ⟨ha, List.forall_mem_singleton.2 hb⟩))).bind fun _ h => builds_noted _ h
  | .tag node t, h => by
    have htag := spelled_tagExpr.1 h
    rw [Check.expr]
    exact ((keepsTo_tag t htag).bind fun _ _ => builds_tagType (spelled_tag.1 htag).1).bind
      fun _ h => builds_noted _ h

theorem builds_exprs : ∀ es : List Expr, (∀ e ∈ es, F.Part (.expr e)) →
    Builds F (fun types => ∀ t ∈ types, F.Has t) (exprs es)
  | [], _ => builds_pure (List.forall_mem_nil _)
  | e :: rest, h => by
    obtain ⟨he, hrest⟩ := List.forall_mem_cons.1 h
    rw [exprs]
    exact (builds_expr e he).bind fun _ h => (builds_exprs rest hrest).bind fun _ hrest =>
      builds_pure (List.forall_mem_cons.2 ⟨h, hrest⟩)

theorem builds_propertyList : ∀ (ps : List Property) (fields : List TypedName),
    (∀ p ∈ ps, SpelledProperty F.Named F.Named p) → Fields F fields →
      Builds F (Fields F) (propertyList fields ps)
  | [], _, _, h => builds_pure h
  | .named key value :: rest, _, hps, h => by
    obtain ⟨⟨hkey, hvalue⟩, hrest⟩ := List.forall_mem_cons.1 hps
    rw [propertyList]
    exact (builds_expr value (hvalue value List.mem_cons_self)).bind fun type htype =>
      builds_propertyList rest _ hrest (h.put (hkey key rfl) htype)
  | .computed key value :: rest, _, hps, h => by
    obtain ⟨⟨-, hexprs⟩, hrest⟩ := List.forall_mem_cons.1 hps
    obtain ⟨hkey, hvalue⟩ := List.forall_mem_cons.1 hexprs
    rw [propertyList]
    exact (builds_expr value (hvalue value List.mem_cons_self)).bind fun _ _ =>
      (builds_expr key hkey).bind fun _ _ => builds_propertyList rest _ hrest h

theorem keepsTo_tag : ∀ t : Tag, F.Part (.tag t) → KeepsTo F (tag t)
  | ⟨name, attributes, styles, children, selfClosing, span⟩, h => by
    obtain ⟨hname, hattributes, hchildren⟩ := spelled_tag.1 h
    rw [Check.tag]
    exact (keepsTo_noteTag hname _ _).bind fun _ _ =>
      (keepsTo_attributeList attributes hattributes).bind fun _ _ =>
        keepsTo_markups children hchildren

theorem keepsTo_attributeList : ∀ as : List Attribute, (∀ a ∈ as, F.Part (.attribute a)) →
    KeepsTo F (attributeList as)
  | [], _ => builds_pure trivial
  | ⟨name, some value, event, span⟩ :: rest, h => by
    obtain ⟨hvalue, hrest⟩ := List.forall_mem_cons.1 h
    rw [Check.attributeList]
    exact (builds_expr value (spelled_attribute.1 hvalue value rfl)).bind fun _ _ =>
      keepsTo_attributeList rest hrest
  | ⟨name, none, event, span⟩ :: rest, h => by
    rw [Check.attributeList]
    exact keepsTo_attributeList rest (List.forall_mem_cons.1 h).2

theorem keepsTo_markup : ∀ m : Markup, F.Part (.markup m) → KeepsTo F (markup m)
  | .tag t, h => by
    rw [Check.markup]
    exact keepsTo_tag t (spelled_markupTag.1 h)
  | .text content span, _ => by
    rw [Check.markup]
    exact builds_pure trivial
  | .expr e, h => by
    rw [Check.markup]
    exact (builds_expr e (spelled_markupExpr.1 h)).bind fun _ _ => builds_pure trivial

theorem keepsTo_markups : ∀ ms : List Markup, (∀ m ∈ ms, F.Part (.markup m)) →
    KeepsTo F (markups ms)
  | [], _ => builds_pure trivial
  | m :: rest, h => by
    obtain ⟨hm, hrest⟩ := List.forall_mem_cons.1 h
    rw [Check.markups]
    exact (keepsTo_markup m hm).bind fun _ _ => keepsTo_markups rest hrest

end

theorem keepsTo_expr? {e : Option Expr} (h : ∀ value ∈ e, F.Part (.expr value)) :
    KeepsTo F (expr? e) := by
  cases e with
  | none => exact builds_pure trivial
  | some e => exact (builds_expr e (h e rfl)).bind fun _ _ => builds_pure trivial

end Check

end ComponentLang
