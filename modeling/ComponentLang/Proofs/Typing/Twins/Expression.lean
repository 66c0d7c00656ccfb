import ComponentLang.Proofs.Typing.Effects
import ComponentLang.Proofs.Typing.Relaxes.Tree
import ComponentLang.Proofs.Typing.Twins

/-!
# Annotations and expressions side by side

The two runs read annotations of which some are replaced, and expressions that are the same.
-/

/-! ## Annotations side by side

One type expression means one type in both runs. Where a name for `any` stands in place of a plain
type expression, all was known of the type, unless something was reported of it. -/

namespace ComponentLang.Check

open Checking

variable {α β : Type} {G : Prop} {p : Check α} {f : α → Check β}

theorem twins_namedType (name : String) (span : Span) :
    Twins G Eq (namedType name span) (namedType name span) := by
  unfold namedType
  split
  · exact twins_pure fun _ => rfl
  · refine (twins_isComponent name).bind_eq fun known => ?_
    split
    · exact twins_pure fun _ => rfl
    · exact twins_fail _ span

mutual

theorem twins_resolve : ∀ a : TypeExpr, Twins G Eq (resolve a) (resolve a)
  | .named span name => twins_namedType name span
  | .array _ element => (twins_resolve element).bind_eq fun _ => twins_pure fun _ => rfl
  | .optional _ inner => (twins_resolve inner).bind_eq fun _ => twins_pure fun _ => rfl
  | .union _ members => (twins_resolveAll members).bind_eq fun _ => twins_pure fun _ => rfl

theorem twins_resolveAll : ∀ as : List TypeExpr, Twins G Eq (resolveAll as) (resolveAll as)
  | [] => twins_pure fun _ => rfl
  | a :: rest =>
    (twins_resolve a).bind_eq fun _ => (twins_resolveAll rest).bind_eq fun _ =>
      twins_pure fun _ => rfl

end

/-- The check reports something, or gives a result of this kind and leaves the state as it is. -/
def Finds (K : α → Prop) (p : Check α) : Prop :=
  ∀ c, (p.run c).2.diagnostics ≠ [] ∨ (K (p.run c).1 ∧ (p.run c).2 = c)

theorem finds_pure {K : α → Prop} {a : α} (h : K a) : Finds K (pure a) := fun _ => .inr ⟨h, rfl⟩

theorem Finds.bind {K : α → Prop} {L : β → Prop} (hp : Finds K p) (hf : ∀ a, K a → Finds L (f a))
    (hsteady : ∀ a, Steady (f a)) : Finds L (p >>= f) := by
  intro c
  rcases hp c with hne | ⟨hk, hc⟩
  · exact .inl ((hsteady _ _).reports hne)
  · have hrun : (p >>= f).run c = (f (p.run c).1).run c := by
      change (f (p.run c).1).run (p.run c).2 = _
      rw [hc]
    rw [hrun]
    exact hf _ hk c

theorem known_of_namedType? {name : String} {type : Ty} (hname : name ≠ "unknown")
    (h : namedType? name = some type) : type.Known := by
  unfold namedType? at h
  split_ifs at h <;> cases h
  · exact Ty.known_primitive _
  · exact Ty.known_primitive _
  · exact Ty.known_primitive _
  · exact Ty.known_primitive _
  · exact Ty.known_primitive _
  · exact Ty.known_any
  · exact Ty.known_of_children nofun nofun (List.forall_mem_singleton.2 Ty.known_any)

theorem finds_namedType {name : String} (h : name ≠ "unknown") (span : Span) :
    Finds Ty.Known (namedType name span) := by
  unfold namedType
  split
  next type hname => exact finds_pure (known_of_namedType? h hname)
  next =>
    refine Finds.bind (K := fun _ => True) (fun _ => .inr ⟨trivial, rfl⟩) ?_ ?_
    · intro known _
      split
      · exact finds_pure (Ty.known_of_children nofun nofun nofun)
      · exact fun c => .inl (diagnostics_addDiagnostic_ne_nil c _)
    · intro known
      split
      · exact steady_pure _
      · exact steady_settle _ _

mutual

/-- All is known of the type that a plain type expression means. -/
theorem finds_resolve : ∀ a : TypeExpr, a.Plain → Finds Ty.Known (resolve a)
  | .named span _, h => finds_namedType h span
  | .array _ element, h =>
    (finds_resolve element h).bind (fun _ htype => finds_pure (Ty.known_of_children nofun nofun
      (List.forall_mem_singleton.2 htype))) fun _ => steady_pure _
  | .optional _ inner, h =>
    (finds_resolve inner h).bind (fun _ htype => finds_pure (Ty.known_of_children nofun nofun
      (List.forall_mem_singleton.2 htype))) fun _ => steady_pure _
  | .union _ members, ⟨hne, h⟩ =>
    (finds_resolveAll members h).bind (fun types htypes => finds_pure (Ty.known_unionOf
      (by
        rintro rfl
        exact hne (List.length_eq_zero_iff.1 htypes.1.symm))
      htypes.2)) fun _ => steady_pure _

theorem finds_resolveAll : ∀ as : List TypeExpr, TypeExpr.PlainAll as →
    Finds (fun types => types.length = as.length ∧ ∀ t ∈ types, t.Known) (resolveAll as)
  | [], _ => finds_pure ⟨rfl, nofun⟩
  | a :: rest, ⟨ha, hrest⟩ =>
    (finds_resolve a ha).bind
      (fun _ htype => (finds_resolveAll rest hrest).bind
        (fun _ htypes => finds_pure
          ⟨congrArg (· + 1) htypes.1, List.forall_mem_cons.2 ⟨htype, htypes.2⟩⟩)
        fun _ => steady_pure _)
      fun _ => (leaves_resolveAll rest).steady.bind fun _ => steady_pure _

end

theorem twins_resolve_of_relaxesTo {a a' : TypeExpr} (h : a.RelaxesTo a') :
    Twins G Ty.Tame (resolve a) (resolve a') := by
  cases h with
  | refl => exact (twins_resolve a).mono id fun _ _ heq => heq ▸ .refl _
  | @any span name hplain hname =>
      have hany : resolve (.named span name) = pure .any := by
        rw [resolve, namedType, hname]
      rw [hany]
      refine .mk (leaves_resolve a).steady (steady_pure _) fun _ c c' hc => ?_
      rcases finds_resolve a hplain c with hne | ⟨hknown, hsame⟩
      · exact .inl (.inl hne)
      · exact .inr ⟨.any hknown, hsame.symm ▸ hc⟩

theorem twins_resolve? {a a' : Option TypeExpr} (h : Option.Rel TypeExpr.RelaxesTo a a') :
    Twins G (Option.Rel Ty.Tame) (resolve? a) (resolve? a') := by
  cases h with
  | none => exact twins_pure fun _ => .none
  | some h => exact (twins_resolve_of_relaxesTo h).bind fun _ _ => twins_pure fun g => .some g.2

end ComponentLang.Check

/-! ## Expressions side by side

No annotation is in an expression, so both runs check the same. What they note for it is alike, and
less is known in the second, unless the runs are spoiled. -/

namespace ComponentLang.Check

variable {G : Prop}

theorem twins_externalType (name : String) :
    Twins G Ty.RelaxesTo (externalType name) (externalType name) := by
  refine .mk (leaves_externalType name).steady (leaves_externalType name).steady
    fun _ c c' hc => .inr ⟨?_, hc⟩
  have hfound := TypedName.rel_lookup? name hc.external
  change ((TypedName.lookup? name c.external).getD .any).RelaxesTo
    ((TypedName.lookup? name c'.external).getD .any)
  generalize TypedName.lookup? name c.external = found at hfound
  generalize TypedName.lookup? name c'.external = found' at hfound
  cases hfound with
  | some ht => exact ht
  | none => exact .refl _

theorem twins_noteTag (name : String) (looksLikeComponent : Bool) (span : Span) :
    Twins G Eq (noteTag name looksLikeComponent span) (noteTag name looksLikeComponent span) := by
  unfold noteTag
  refine (twins_isComponent name).bind_eq fun isKnown => (twins_lookup? name).bind fun _ _ => ?_
  refine twins_ite (fun g => ?_) (twins_report _ span) (twins_pure fun _ => rfl)
  rw [isSome_eq_of_rel g.2]

theorem twins_tagType (t : Tag) : Twins G Eq (tagType t) (tagType t) := by
  unfold tagType
  refine (twins_isComponent t.name).bind_eq fun known => ?_
  exact twins_ite (fun _ => Iff.rfl) (twins_pure fun _ => rfl) (twins_pure fun _ => rfl)

mutual

theorem twins_expr : ∀ (e : Expr) {G : Prop}, Twins G Ty.Noted (expr e) (expr e)
  | .literal node value, _ => by
    rw [Check.expr]
    exact (twins_pure fun _ => rfl).bind_eq fun _ => twins_noted _ fun _ => .refl _
  | .identifier node name, _ => by
    rw [Check.expr]
    exact (twins_variableType name _).bind fun _ _ => twins_noted _ And.right
  | .valueBinding node name, _ => by
    rw [Check.expr]
    exact (twins_externalType name).bind fun _ _ => twins_noted _ And.right
  | .binary node left op right, _ => by
    rw [Check.expr]
    exact (twins_expr left).bind fun _ _ => (twins_expr right).bind fun _ _ =>
      (twins_settle fun g => Ty.relaxesTo_ofBinary op g.1.2.tame g.2.tame).bind fun _ _ =>
        twins_noted _ fun g => g.2.relaxes
  | .unary node op operand, _ => by
    rw [Check.expr]
    exact (twins_expr operand).bind fun _ _ =>
      (twins_settle fun g => Ty.relaxesTo_ofUnary op g.2.tame).bind fun _ _ =>
        twins_noted _ fun g => g.2.relaxes
  | .await node operand, _ => by
    rw [Check.expr]
    exact (twins_expr operand).bind fun _ _ => twins_noted _ fun g => g.2.relaxes
  | .call node callee arguments, G => by
    rw [Check.expr]
    refine (twins_expr callee).bind fun t t' => (twins_exprs arguments).bind fun types types' => ?_
    have hcall (g : (G ∧ t.Noted t') ∧ List.Forall₂ Ty.Noted types types') :=
      Ty.tame_ofCall (arguments.map Expr.span) node.span g.1.2.tame (g.2.imp fun _ _ h => h.tame)
    exact (twins_reportAll fun g h => (hcall g h).1).bind fun _ _ =>
      (twins_pure fun g => (hcall g.1 g.2).2.relaxes).bind fun _ _ => twins_noted _ And.right
  | .member node object property, _ => by
    rw [Check.expr]
    exact (twins_expr object).bind fun _ _ =>
      (twins_settle fun g => Ty.relaxesTo_ofMember property g.2.tame).bind fun _ _ =>
        twins_noted _ fun g => g.2.relaxes
  | .index node object index, _ => by
    rw [Check.expr]
    exact (twins_expr object).bind fun _ _ => (twins_expr index).bind fun _ _ =>
      (twins_settle fun g => Ty.relaxesTo_ofIndex g.1.2.tame g.2.tame).bind fun _ _ =>
        twins_noted _ fun g => g.2.relaxes
  | .array node items, _ => by
    rw [Check.expr]
    exact (twins_exprs items).bind fun _ _ =>
      (twins_pure (Q := Ty.RelaxesTo) fun g => .array (Ty.relaxesTo_unionOf (g.2.imp
        fun _ _ h => h.relaxes))).bind fun _ _ => twins_noted _ And.right
  | .object node properties, _ => by
    rw [Check.expr]
    exact (twins_propertyList properties fun _ => ⟨.nil, List.nodup_nil⟩).bind fun _ _ =>
      (twins_pure (Q := Ty.RelaxesTo) fun g => .ofNames g.2.1 g.2.2).bind fun _ _ =>
        twins_noted _ And.right
  | .conditional node test consequent alternate, _ => by
    rw [Check.expr]
    exact (twins_expr test).bind fun _ _ => (twins_expr consequent).bind fun _ _ =>
      (twins_expr alternate).bind fun _ _ =>
        (twins_pure (Q := Ty.RelaxesTo) fun g => Ty.relaxesTo_unionOf
          (.cons g.1.2.relaxes (.cons g.2.relaxes .nil))).bind fun _ _ => twins_noted _ And.right
  | .tag node t, _ => by
    rw [Check.expr]
    exact (twins_tag t).bind_eq fun _ => (twins_tagType t).bind_eq fun _ =>
      twins_noted _ fun _ => .refl _

theorem twins_exprs : ∀ (es : List Expr) {G : Prop},
    Twins G (List.Forall₂ Ty.Noted) (exprs es) (exprs es)
  | [], _ => twins_pure fun _ => .nil
  | e :: rest, _ => by
    rw [exprs]
    exact (twins_expr e).bind fun _ _ => (twins_exprs rest).bind fun _ _ =>
      twins_pure fun g => .cons g.1.2 g.2

theorem twins_propertyList : ∀ (ps : List Property) {G : Prop} {fields fields' : List TypedName},
    (G → List.Forall₂ TypedName.RelaxesTo fields fields' ∧ (fields.map TypedName.name).Nodup) →
      Twins G (fun fields fields' => List.Forall₂ TypedName.RelaxesTo fields fields' ∧
        (fields.map TypedName.name).Nodup) (propertyList fields ps) (propertyList fields' ps)
  | [], _, _, _, h => twins_pure h
  | .named key value :: rest, _, _, _, h => by
    rw [propertyList, propertyList]
    exact (twins_expr value).bind fun _ _ => twins_propertyList rest fun g =>
      ⟨TypedName.relaxesTo_put key (h g.1).1 g.2.relaxes, TypedName.nodup_put key _ (h g.1).2⟩
  | .computed key value :: rest, _, _, _, h => by
    rw [propertyList, propertyList]
    exact (twins_expr value).bind fun _ _ => (twins_expr key).bind fun _ _ =>
      twins_propertyList rest fun g => h g.1.1

theorem twins_tag : ∀ (t : Tag) {G : Prop}, Twins G Eq (tag t) (tag t)
  | ⟨name, attributes, styles, children, selfClosing, span⟩, _ => by
    rw [Check.tag]
    exact (twins_noteTag _ _ _).bind_eq fun _ => (twins_attributeList attributes).bind_eq
      fun _ => twins_markups children

theorem twins_attributeList : ∀ (as : List Attribute) {G : Prop},
    Twins G Eq (attributeList as) (attributeList as)
  | [], _ => twins_pure fun _ => rfl
  | ⟨name, some value, event, span⟩ :: rest, _ => by
    rw [Check.attributeList]
    exact (twins_expr value).bind fun _ _ => twins_attributeList rest
  | ⟨name, none, event, span⟩ :: rest, _ => by
    rw [Check.attributeList]
    exact twins_attributeList rest

theorem twins_markup : ∀ (m : Markup) {G : Prop}, Twins G Eq (markup m) (markup m)
  | .tag t, _ => by
    rw [Check.markup]
    exact twins_tag t
  | .text content span, _ => by
    rw [Check.markup]
    exact twins_pure fun _ => rfl
  | .expr e, _ => by
    rw [Check.markup]
    exact (twins_expr e).forget

theorem twins_markups : ∀ (ms : List Markup) {G : Prop}, Twins G Eq (markups ms) (markups ms)
  | [], _ => twins_pure fun _ => rfl
  | m :: rest, _ => by
    rw [Check.markups]
    exact (twins_markup m).bind_eq fun _ => twins_markups rest

end

theorem twins_expr? (e : Option Expr) : Twins G Eq (expr? e) (expr? e) := by
  cases e with
  | none => exact twins_pure fun _ => rfl
  | some e => exact (twins_expr e).forget

end ComponentLang.Check
