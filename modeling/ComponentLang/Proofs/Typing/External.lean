import ComponentLang.Proofs.Grammar.Provenance.Program
import ComponentLang.Proofs.Typing.Effects

/-!
# Checks that consult the values from outside

What a program is given from outside is read in one place, where an expression takes a value from
outside. `Consults program p` says two things of a check `p` of a part of a program. If the values
from outside become others that say the same of the names that the program takes, `p` does the same
as before. And a type that `p` notes is noted for an expression of the program; that of a value from
outside is what is given for its name, whatever the scopes say of the name.

The expressions are those that stand anywhere in the program, so the rules for trees go from what is
contained to what is directly in it.
-/
namespace ComponentLang

theorem Program.Contains.child {program : Program} {part inner : TreePart}
    (h : program.Contains part) (hinner : inner ∈ part.children) : program.Contains inner :=
  h.tail hinner

/-- The type of a value from outside: `any`, unless another is given. -/
def givenType (external : List TypedName) (name : String) : Ty :=
  (TypedName.lookup? name external).getD .any

namespace Checking

/-- The same state, with other values from outside. -/
def withExternal (c : Checking) (external : List TypedName) : Checking := { c with external }

/-- The noted type is that of an expression of the program. If the expression is a value from
outside, the type is the one that is given for it. -/
def Owned (program : Program) (external : List TypedName) (entry : Nat × Ty) : Prop :=
  ∃ e, program.Contains (.expr e) ∧ entry.1 = e.id ∧
    ∀ node name, e = .valueBinding node name → entry.2 = givenType external name

theorem addDiagnostic_withExternal (c : Checking) (external : List TypedName) (d : Diagnostic) :
    (c.withExternal external).addDiagnostic d = (c.addDiagnostic d).withExternal external := by
  unfold addDiagnostic withExternal
  split <;> rfl

end Checking

open Checking

namespace Check

variable {α β : Type} {program : Program} {p : Check α} {f : α → Check β} {e : Expr}

/-- Only what is given for the names that the program takes from outside makes a difference to `p`,
and it notes the types of expressions of the program. -/
structure Consults (program : Program) (p : Check α) : Prop where
  same : ∀ c external,
    (∀ name ∈ program.bindings, givenType external name = givenType c.external name) →
      p.run (c.withExternal external) = ((p.run c).1, (p.run c).2.withExternal external)
  noted : ∀ c, ∀ entry ∈ (p.run c).2.types.entries,
    entry ∈ c.types.entries ∨ Owned program c.external entry

/-- The values from outside stay as they are. -/
theorem Consults.external (h : Consults program p) (c : Checking) :
    (p.run c).2.external = c.external := by
  have hsame := h.same c c.external fun _ _ => rfl
  exact congrArg (fun after => after.2.external) hsame

/-! ## Checks made from checks -/

/-- A step that neither reads nor changes the values from outside, and notes nothing. -/
theorem consults_step
    (hsame : ∀ c external,
      p.run (c.withExternal external) = ((p.run c).1, (p.run c).2.withExternal external))
    (htypes : ∀ c, (p.run c).2.types = c.types) : Consults program p where
  same c external _ := hsame c external
  noted c _ hentry := .inl (htypes c ▸ hentry)

theorem consults_pure (a : α) : Consults program (pure a : Check α) :=
  consults_step (fun _ _ => rfl) fun _ => rfl

theorem Consults.bind (hp : Consults program p) (hf : ∀ a, Consults program (f a)) :
    Consults program (p >>= f) where
  same c external hagree := by
    have hrest := (hf (p.run c).1).same (p.run c).2 external (hp.external c ▸ hagree)
    rw [StateT.run_bind, hp.same c external hagree]
    exact hrest
  noted c entry hentry := by
    obtain hbefore | howned := (hf (p.run c).1).noted (p.run c).2 entry hentry
    · exact hp.noted c entry hbefore
    · exact .inr (hp.external c ▸ howned)

/-- What is read first is not what is given from outside. -/
theorem consults_get_bind {f : Checking → Check α}
    (hread : ∀ c external, f (c.withExternal external) = f c) (h : ∀ c, Consults program (f c)) :
    Consults program (get >>= f) where
  same c external hagree := by
    change (f (c.withExternal external)).run (c.withExternal external) = _
    rw [hread]
    exact (h c).same c external hagree
  noted c := (h c).noted c

theorem consults_map {g : α → β} (h : Consults program p) : Consults program (g <$> p) :=
  h.bind fun a => consults_pure (g a)

theorem consults_inScope (h : Consults program p) : Consults program (inScope p) := by
  unfold inScope
  refine (consults_step (fun _ _ => rfl) fun _ => rfl).bind fun _ => h.bind fun result => ?_
  exact (consults_step (fun _ _ => rfl) fun _ => rfl).bind fun _ => consults_pure result

theorem consults_each {check : α → Check Unit} {items : List α}
    (h : ∀ a ∈ items, Consults program (check a)) : Consults program (each check items) := by
  induction items with
  | nil => exact consults_pure ()
  | cons a rest ih =>
      obtain ⟨ha, hrest⟩ := List.forall_mem_cons.1 h
      exact ha.bind fun _ => ih hrest

/-! ## Reports and notes -/

theorem consults_report (fault : TypeFault) (span : Span) :
    Consults program (report fault span) := by
  refine consults_step (fun c external => ?_) fun c => ?_
  · exact Prod.ext rfl (addDiagnostic_withExternal c external _)
  · change (c.addDiagnostic (.ofSpan .type fault.message span)).types = c.types
    rw [addDiagnostic_eq]

theorem consults_settle (verdict : Verdict) (span : Span) :
    Consults program (settle verdict span) := by
  unfold settle
  cases verdict.fault with
  | none => exact consults_pure _
  | some fault => exact (consults_report fault span).bind fun _ => consults_pure _

theorem consults_reportAll (found : List (TypeFault × Span)) :
    Consults program (reportAll found) := by
  induction found with
  | nil => exact consults_pure ()
  | cons first rest ih => exact (consults_report first.1 first.2).bind fun _ => ih

theorem consults_expectStorable (value target : Ty) (span : Span) :
    Consults program (expectStorable value target span) := by
  unfold expectStorable
  split
  · exact consults_report _ span
  · exact consults_pure ()

/-- The type of an expression that is no value from outside may be any. -/
theorem consults_record (h : program.Contains (.expr e))
    (hkind : ∀ node name, e ≠ .valueBinding node name) (type : Ty) :
    Consults program (record e.id type) where
  same _ _ _ := rfl
  noted c entry hentry := by
    obtain rfl | hbefore := List.mem_cons.1 hentry
    · exact .inr ⟨e, h, rfl, fun node name heq => absurd heq (hkind node name)⟩
    · exact .inl hbefore

theorem consults_noted (h : program.Contains (.expr e))
    (hkind : ∀ node name, e ≠ .valueBinding node name) (type : Ty) :
    Consults program (do
      record e.id type
      return type) :=
  (consults_record h hkind type).bind fun _ => consults_pure type

/-! ## Names -/

theorem consults_lookup? (name : String) : Consults program (lookup? name) :=
  consults_get_bind (fun _ _ => rfl) fun _ => consults_pure _

theorem consults_isComponent (name : String) : Consults program (isComponent name) :=
  consults_get_bind (fun _ _ => rfl) fun _ => consults_pure _

theorem consults_define (name : String) (type : Ty) : Consults program (define name type) :=
  consults_step (fun _ _ => rfl) fun _ => rfl

theorem consults_update (name : String) (type : Ty) : Consults program (update name type) :=
  consults_step (fun _ _ => rfl) fun _ => rfl

theorem consults_variableType (name : String) (span : Span) :
    Consults program (variableType name span) := by
  unfold variableType
  refine (consults_lookup? name).bind fun found => ?_
  split
  · exact consults_pure _
  · exact consults_settle _ span

theorem consults_declareComponent (name : String) : Consults program (declareComponent name) :=
  (consults_step (fun _ _ => rfl) fun _ => rfl).bind fun _ => consults_define name _

/-! ## Returns -/

theorem consults_judgeReturn (declared : Option Ty) (type : Ty) (span : Span) :
    Consults program (judgeReturn declared type span) := by
  unfold judgeReturn
  split
  · exact consults_pure ()
  · split
    · exact consults_pure ()
    · exact consults_report _ span

theorem consults_noteReturn (type : Ty) (span : Span) :
    Consults program (noteReturn type span) where
  same c external hagree := by
    cases h : c.returns with
    | nil => rw [noteReturn_of_nil h, noteReturn_of_nil (by exact h)]
    | cons frame outer =>
        rw [noteReturn_of_cons h, noteReturn_of_cons (by exact h)]
        exact (consults_judgeReturn frame.declared type span).same { c with
          returns := { frame with seen := frame.seen ++ [type] } :: outer } external hagree
  noted c := by
    cases h : c.returns with
    | nil =>
        rw [noteReturn_of_nil h]
        exact fun _ => .inl
    | cons frame outer =>
        rw [noteReturn_of_cons h]
        exact (consults_judgeReturn frame.declared type span).noted { c with
          returns := { frame with seen := frame.seen ++ [type] } :: outer }

theorem consults_collectReturns {declared : Option Ty} {body : Check Unit}
    (h : Consults program body) : Consults program (collectReturns declared body) :=
  (consults_step (fun _ _ => rfl) fun _ => rfl).bind fun _ => h.bind fun _ =>
    consults_step (fun _ _ => rfl) fun _ => rfl

/-! ## Type expressions -/

theorem consults_namedType (name : String) (span : Span) :
    Consults program (namedType name span) := by
  unfold namedType
  split
  · exact consults_pure _
  · refine (consults_isComponent name).bind fun known => ?_
    split
    · exact consults_pure _
    · exact consults_settle _ span

mutual

theorem consults_resolve : ∀ a : TypeExpr, Consults program (resolve a)
  | .named span name => consults_namedType name span
  | .array _ element => (consults_resolve element).bind fun _ => consults_pure _
  | .optional _ inner => (consults_resolve inner).bind fun _ => consults_pure _
  | .union _ members => (consults_resolveAll members).bind fun _ => consults_pure _

theorem consults_resolveAll : ∀ as : List TypeExpr, Consults program (resolveAll as)
  | [] => consults_pure _
  | a :: rest =>
    (consults_resolve a).bind fun _ => (consults_resolveAll rest).bind fun _ => consults_pure _

end

theorem consults_resolve? (a : Option TypeExpr) : Consults program (resolve? a) := by
  cases a with
  | none => exact consults_pure _
  | some a => exact (consults_resolve a).bind fun _ => consults_pure _

/-! ## Expressions -/

/-- A value from outside has the type that is given for its name. -/
theorem consults_valueBinding {node : Node} {name : String}
    (h : program.Contains (.expr (.valueBinding node name))) :
    Consults program (expr (.valueBinding node name)) where
  same c external hagree := by
    have hgiven := hagree name (Grammar.mem_bindings.2 ⟨node, h⟩)
    rw [Check.expr]
    change (givenType external name,
        { c with external, types := c.types.insert node.id (givenType external name) }) = _
    rw [hgiven]
    rfl
  noted c entry hentry := by
    rw [Check.expr] at hentry
    obtain rfl | hbefore := List.mem_cons.1 hentry
    · refine .inr ⟨_, h, rfl, fun other otherName heq => ?_⟩
      cases heq
      rfl
    · exact .inl hbefore

theorem consults_noteTag (name : String) (looksLikeComponent : Bool) (span : Span) :
    Consults program (noteTag name looksLikeComponent span) := by
  unfold noteTag
  refine (consults_isComponent name).bind fun isKnown =>
    (consults_lookup? name).bind fun found => ?_
  dsimp only
  split
  · exact consults_report _ span
  · exact consults_pure ()

theorem consults_tagType (t : Tag) : Consults program (tagType t) := by
  unfold tagType
  refine (consults_isComponent t.name).bind fun isKnown => ?_
  split <;> exact consults_pure _

mutual

theorem consults_expr : ∀ e : Expr, program.Contains (.expr e) → Consults program (expr e)
  | .literal node value, h => by
    rw [Check.expr]
    exact (consults_pure _).bind (consults_noted h nofun)
  | .identifier node name, h => by
    rw [Check.expr]
    exact (consults_variableType name _).bind (consults_noted h nofun)
  | .valueBinding node name, h => consults_valueBinding h
  | .binary node left op right, h => by
    rw [Check.expr]
    exact (consults_expr left (h.child (by simp [TreePart.children, Expr.children]))).bind fun l =>
      (consults_expr right (h.child (by simp [TreePart.children, Expr.children]))).bind fun r =>
        (consults_settle _ _).bind (consults_noted h nofun)
  | .unary node op operand, h => by
    rw [Check.expr]
    exact (consults_expr operand (h.child (by simp [TreePart.children, Expr.children]))).bind
      fun t => (consults_settle _ _).bind (consults_noted h nofun)
  | .await node operand, h => by
    rw [Check.expr]
    exact (consults_expr operand (h.child (by simp [TreePart.children, Expr.children]))).bind
      (consults_noted h nofun)
  | .call node callee arguments, h => by
    have harguments : ∀ a ∈ arguments, program.Contains (.expr a) :=
      fun a ha => h.child (by simp [TreePart.children, Expr.children, ha])
    rw [Check.expr]
    exact (consults_expr callee (h.child (by simp [TreePart.children, Expr.children]))).bind
      fun t => (consults_exprs arguments harguments).bind fun types =>
        (consults_reportAll _).bind fun _ => (consults_pure _).bind (consults_noted h nofun)
  | .member node object property, h => by
    rw [Check.expr]
    exact (consults_expr object (h.child (by simp [TreePart.children, Expr.children]))).bind
      fun t => (consults_settle _ _).bind (consults_noted h nofun)
  | .index node object index, h => by
    rw [Check.expr]
    exact (consults_expr object (h.child (by simp [TreePart.children, Expr.children]))).bind
      fun t => (consults_expr index (h.child (by simp [TreePart.children, Expr.children]))).bind
        fun i => (consults_settle _ _).bind (consults_noted h nofun)
  | .array node items, h => by
    have hitems : ∀ a ∈ items, program.Contains (.expr a) :=
      fun a ha => h.child (by simp [TreePart.children, Expr.children, ha])
    rw [Check.expr]
    exact (consults_exprs items hitems).bind fun types =>
      (consults_pure _).bind (consults_noted h nofun)
  | .object node properties, h => by
    have hproperties : ∀ p ∈ properties, ∀ a ∈ p.exprs, program.Contains (.expr a) := by
      intro p hp a ha
      refine h.child ?_
      simp only [TreePart.children, Expr.children, List.mem_map, List.mem_flatMap]
      exact ⟨a, ⟨p, hp, ha⟩, rfl⟩
    rw [Check.expr]
    exact (consults_propertyList [] properties hproperties).bind fun fields =>
      (consults_pure _).bind (consults_noted h nofun)
  | .conditional node test consequent alternate, h => by
    rw [Check.expr]
    exact (consults_expr test (h.child (by simp [TreePart.children, Expr.children]))).bind fun _ =>
      (consults_expr consequent (h.child (by simp [TreePart.children, Expr.children]))).bind
        fun a =>
          (consults_expr alternate (h.child (by simp [TreePart.children, Expr.children]))).bind
            fun b => (consults_pure _).bind (consults_noted h nofun)
  | .tag node t, h => by
    rw [Check.expr]
    exact (consults_tag t (h.child (by simp [TreePart.children, Expr.children]))).bind fun _ =>
      (consults_tagType t).bind (consults_noted h nofun)

theorem consults_exprs : ∀ es : List Expr, (∀ e ∈ es, program.Contains (.expr e)) →
    Consults program (exprs es)
  | [], _ => consults_pure _
  | e :: rest, h => by
    obtain ⟨he, hrest⟩ := List.forall_mem_cons.1 h
    rw [Check.exprs]
    exact (consults_expr e he).bind fun type =>
      (consults_exprs rest hrest).bind fun types => consults_pure _

theorem consults_propertyList (fields : List TypedName) : ∀ ps : List Property,
    (∀ p ∈ ps, ∀ e ∈ p.exprs, program.Contains (.expr e)) →
      Consults program (propertyList fields ps)
  | [], _ => consults_pure _
  | .named key value :: rest, h => by
    obtain ⟨hp, hrest⟩ := List.forall_mem_cons.1 h
    rw [Check.propertyList]
    exact (consults_expr value (hp value (by simp [Property.exprs]))).bind fun type =>
      consults_propertyList _ rest hrest
  | .computed key value :: rest, h => by
    obtain ⟨hp, hrest⟩ := List.forall_mem_cons.1 h
    rw [Check.propertyList]
    exact (consults_expr value (hp value (by simp [Property.exprs]))).bind fun _ =>
      (consults_expr key (hp key (by simp [Property.exprs]))).bind fun _ =>
        consults_propertyList fields rest hrest

theorem consults_tag : ∀ t : Tag, program.Contains (.tag t) → Consults program (tag t)
  | ⟨name, attributes, styles, children, selfClosing, span⟩, h => by
    have hattributes : ∀ a ∈ attributes, program.Contains (.attribute a) :=
      fun a ha => h.child (by simp [TreePart.children, ha])
    have hchildren : ∀ m ∈ children, program.Contains (.markup m) :=
      fun m hm => h.child (by simp [TreePart.children, hm])
    rw [Check.tag]
    exact (consults_noteTag _ _ _).bind fun _ =>
      (consults_attributeList attributes hattributes).bind fun _ =>
        consults_markups children hchildren

theorem consults_attributeList : ∀ as : List Attribute,
    (∀ a ∈ as, program.Contains (.attribute a)) → Consults program (attributeList as)
  | [], _ => consults_pure _
  | ⟨name, some value, event, span⟩ :: rest, h => by
    obtain ⟨ha, hrest⟩ := List.forall_mem_cons.1 h
    rw [Check.attributeList]
    exact (consults_expr value (ha.child (by simp [TreePart.children]))).bind fun _ =>
      consults_attributeList rest hrest
  | ⟨name, none, event, span⟩ :: rest, h => by
    rw [Check.attributeList]
    exact consults_attributeList rest (List.forall_mem_cons.1 h).2

theorem consults_markup : ∀ m : Markup, program.Contains (.markup m) → Consults program (markup m)
  | .tag t, h => by
    rw [Check.markup]
    exact consults_tag t (h.child (by simp [TreePart.children, Markup.children]))
  | .text content span, _ => by
    rw [Check.markup]
    exact consults_pure ()
  | .expr e, h => by
    rw [Check.markup]
    exact (consults_expr e (h.child (by simp [TreePart.children, Markup.children]))).bind
      fun _ => consults_pure ()

theorem consults_markups : ∀ ms : List Markup, (∀ m ∈ ms, program.Contains (.markup m)) →
    Consults program (markups ms)
  | [], _ => consults_pure _
  | m :: rest, h => by
    obtain ⟨hm, hrest⟩ := List.forall_mem_cons.1 h
    rw [Check.markups]
    exact (consults_markup m hm).bind fun _ => consults_markups rest hrest

end

theorem consults_expr? (e : Option Expr) (h : ∀ a ∈ e.toList, program.Contains (.expr a)) :
    Consults program (expr? e) := by
  cases e with
  | none => exact consults_pure ()
  | some e => exact (consults_expr e (h e (by simp))).bind fun _ => consults_pure ()

end Check

end ComponentLang
