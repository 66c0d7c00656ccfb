import ComponentLang.Grammar.Markup
import ComponentLang.Proofs.Grammar.Expression
import ComponentLang.Proofs.Grammar.Spans

/-!
# The places of types, expressions and markup

All that is read from a row of tokens lies between the first of them and the one taken last.
-/

/-! ## The places of type expressions

A type expression begins at a token and ends at the token taken last, so all places in it are spans
of the source. -/

namespace ComponentLang.Grammar

open Parse ComponentLang.TypeExpr

variable {source : Source} {s : State} {span : Span}

/-! ### Type expressions from their parts -/

theorem on_named {name : String} (hspan : span.On source) :
    TypeExpr.On source (.named span name) :=
  everywhere_iff.2 ⟨hspan, List.forall_mem_nil _⟩

theorem on_array {element : TypeExpr} (hspan : span.On source) (h : element.On source) :
    TypeExpr.On source (.array span element) :=
  everywhere_iff.2 ⟨hspan, List.forall_mem_singleton.2 h⟩

theorem on_optional {inner : TypeExpr} (hspan : span.On source) (h : inner.On source) :
    TypeExpr.On source (.optional span inner) :=
  everywhere_iff.2 ⟨hspan, List.forall_mem_singleton.2 h⟩

theorem on_union {members : List TypeExpr} (hspan : span.On source)
    (h : ∀ a ∈ members, a.On source) : TypeExpr.On source (.union span members) :=
  everywhere_iff.2 ⟨hspan, h⟩

/-! ### Reading type expressions -/

/-- Wherever `p` begins, it keeps the order, and the places in its type expression are of the
source. -/
abbrev Parse.PlacesType (source : Source) (p : Parse TypeExpr) : Prop :=
  ∀ s, Spans source (fun a _ => a.On source) p s

section Rules

variable {inner : Parse TypeExpr} (hinner : PlacesType source inner)

include hinner

theorem spans_typeExprAtom : PlacesType source (typeExprAtom inner) := by
  intro s
  apply spans_of_aligned
  intro hs
  have hname : TypeExpr.On source (.named s.here s.peek.lexeme) := on_named hs.here_on
  unfold typeExprAtom
  apply spans_peek_bind
  split
  case h_1 | h_2 =>
    apply spans_advance_bind
    intro _
    split
    · apply spans_eat_if
      · intro _ _
        apply spans_bind (hinner _)
        intro element t _ helement
        apply spans_expect_bind
        intro _ _
        apply spans_spanFrom_bind
        exact spans_pure fun ht => on_array (ht.spanFrom_on hs.here_on) helement
      · exact fun _ => spans_pure fun _ => hname
    · exact spans_pure fun _ => hname
  case h_3 =>
    apply spans_advance_bind
    intro _
    apply spans_bind (hinner _)
    intro grouped t _ hgrouped
    apply spans_expect_bind
    intro _ _
    exact spans_pure fun _ => hgrouped
  case h_4 => exact spans_unexpected

omit hinner in
theorem spans_typeExprSuffix {start : Span} {a : TypeExpr} (hstart : start.On source)
    (ha : a.On source) :
    Spans source (TurnEnds (fun a _ => a.On source) fun a _ => a.On source)
      (typeExprSuffix start a) s := by
  unfold typeExprSuffix
  apply spans_get_bind
  split
  · apply spans_advance_bind
    intro _
    apply spans_spanFrom_bind
    exact spans_pure fun ht => on_optional (ht.spanFrom_on hstart) ha
  · split
    · apply spans_advance_bind
      intro _
      apply spans_advance_bind
      intro _
      apply spans_spanFrom_bind
      exact spans_pure fun ht => on_array (ht.spanFrom_on hstart) ha
    · exact spans_pure fun _ => ha

theorem spans_suffixedTypeExpr : PlacesType source (suffixedTypeExpr inner) := by
  intro s
  apply spans_of_aligned
  intro hs
  unfold suffixedTypeExpr
  apply spans_here_bind
  apply spans_bind (spans_typeExprAtom hinner s)
  intro a t _ ha
  exact spans_iterate (fun _ _ _ ha => spans_typeExprSuffix hs.here_on ha) ha

theorem spans_unionMember {members : List TypeExpr} (h : ∀ a ∈ members, a.On source) :
    Spans source (TurnEnds (fun members _ => ∀ a ∈ members, a.On source)
      fun members _ => ∀ a ∈ members, a.On source) (unionMember inner members) s := by
  unfold unionMember
  apply spans_eat_if
  · intro _ _
    apply spans_bind (spans_suffixedTypeExpr hinner _)
    intro member t _ hmember
    exact spans_pure fun _ =>
      List.forall_mem_append.2 ⟨h, List.forall_mem_singleton.2 hmember⟩
  · exact fun _ => spans_pure fun _ => h

theorem spans_typeExprRule : PlacesType source (typeExprRule inner) := by
  intro s
  unfold typeExprRule
  apply spans_bind (spans_suffixedTypeExpr hinner s)
  intro first t _ hfirst
  have hstart : first.span.On source := hfirst first .refl
  apply spans_kind_bind
  split
  · apply spans_bind (spans_iterate (fun _ _ _ h => spans_unionMember hinner h)
      (List.forall_mem_singleton.2 hfirst))
    intro members u _ hmembers
    apply spans_spanFrom_bind
    exact spans_pure fun hu => on_union (hu.spanFrom_on hstart) hmembers
  · exact spans_pure fun _ => hfirst

end Rules

theorem spans_typeExprAt (depth : Nat) : PlacesType source (typeExprAt depth) := by
  induction depth with
  | zero => exact fun _ => spans_fail
  | succ depth ih => exact spans_typeExprRule ih

theorem spans_typeExpr : PlacesType source typeExpr :=
  fun s => spans_of_eq (spans_typeExprAt (s.rest.length + 1) s) rfl

theorem spans_typeExpr? : Spans source (fun a _ => ∀ b ∈ a, b.On source) typeExpr? s := by
  unfold typeExpr?
  apply spans_eat_if
  · intro _ _
    apply spans_bind (spans_typeExpr _)
    rintro a t _ ha
    refine spans_pure fun _ b hb => ?_
    obtain rfl := Option.some.inj hb
    exact ha
  · exact fun _ => spans_pure fun _ => nofun

end ComponentLang.Grammar

/-! ## The places of expressions and markup

An expression goes either from its first to its last part, or from the start of its first part to
the token taken last. Brackets around it are left out of it, and a text in a tag goes from its first
word to its last. -/

namespace ComponentLang.Grammar

open Parse ComponentLang.TreePart

variable {source : Source} {lo hi : Nat} {s t u v : State}

/-! ### Expressions from their parts -/

/-- A call, a member or an index goes from the start of its object to the token taken last. -/
theorem State.Brings.suffixed {object e : Expr} (h : s.Brings source t (.expr object))
    (hs : s.Passes source t) (htu : t.Passes source u) (heq : e.span = u.spanFrom object.span)
    (hchildren : ∀ child ∈ e.children, child = .expr object ∨
      Lies source t.here.start u.reach child) :
    s.Brings source u (.expr e) := by
  have hobject : object.span.On source := h.lies.on rfl nofun
  obtain ⟨hlo, hhi⟩ := h.lies.within object.span rfl
  have hle : object.span.stop ≤ u.reach := hhi.trans htu.reach_le
  have hstop : e.span.stop = u.reach := by rw [heq, State.stop_spanFrom_of_le hle]
  have hstart : e.span.start = object.span.start := by rw [heq, State.start_spanFrom]
  refine ⟨h.taken.trans htu.reach_le, lies_expr ?_ (hstart ▸ hlo) hstop.le ?_⟩
  · rw [heq]
    exact htu.aligned.spanFrom_on hobject
  · rw [hstart, hstop]
    intro child hchild
    obtain rfl | hlies := hchildren child hchild
    · exact (h.lies.tight rfl).mono (Nat.le_refl _) hle
    · refine hlies.mono ?_ (Nat.le_refl _)
      exact hobject.start_le.trans (hhi.trans hs.aligned.reach_le)

/-- An expression from a place before its last part to the end of that. -/
theorem lies_through {e last : Expr} {first : Span} {mid : Nat} (hfirst : first.On source)
    (hlo : lo ≤ first.start) (hmid : first.stop ≤ mid) (hlast : Lies source mid hi (.expr last))
    (heq : e.span = first.through last.span)
    (hchildren : ∀ child ∈ e.children, Lies source first.start last.span.stop child) :
    Lies source lo hi (.expr e) := by
  have hon : last.span.On source := hlast.on rfl nofun
  obtain ⟨hstart, hstop⟩ := hlast.within last.span rfl
  have hthrough : e.span.stop = last.span.stop := by
    rw [heq]
    exact Nat.max_eq_left ((hmid.trans hstart).trans hon.start_le)
  refine lies_expr ?_ (by rw [heq]; exact hlo) (hthrough ▸ hstop) ?_
  · rw [heq]
    exact hfirst.through hon
  · rw [hthrough, heq]
    exact hchildren

/-! ### Operands -/

/-- Every rule brings its tree. -/
structure ExprRules.Place (source : Source) (rules : ExprRules) : Prop where
  conditional : Places source .expr rules.conditional
  binary (least : Nat) : Places source .expr (rules.binary least)
  unary : Places source .expr rules.unary
  tag : Places source .tag rules.tag

variable {rules : ExprRules}

theorem places_propertyValue (hrules : rules.Place source) :
    Places source .expr (propertyValue rules) := by
  intro s
  apply spans_of_aligned
  intro hs
  unfold propertyValue
  apply spans_eat_if
  · intro hkind _
    have hfirst := hs.advances (by simp [hkind])
    exact spans_mono (hrules.conditional s.next) fun e t _ he => he.of_advances hfirst
  · exact fun _ => spans_unexpected

theorem spans_property (hrules : rules.Place source) :
    Spans source (fun p t => ∀ e ∈ p.exprs, Lies source s.here.start t.reach (.expr e))
      (property rules) s := by
  apply spans_of_aligned
  intro hs
  unfold property
  apply spans_peek_bind
  split
  · apply spans_advance_bind
    intro hnext
    apply spans_bind (hrules.conditional s.next)
    intro computed t hst hcomputed
    apply spans_expect_bind
    intro _ htnext
    apply spans_bind (places_propertyValue hrules t.next)
    intro value u htu hvalue
    have hsu := (hnext.trans hst).trans htnext
    refine spans_pure fun _ => List.forall_mem_cons.2 ⟨?_, List.forall_mem_singleton.2 ?_⟩
    · exact hcomputed.lies.mono hnext.here_le (htnext.trans htu).reach_le
    · exact hvalue.lies.mono hsu.here_le (Nat.le_refl _)
  · split
    next hkey =>
      apply spans_advance_bind
      intro hnext
      apply spans_get_bind
      split
      · apply spans_node_bind
        intro id t hst hreach
        refine spans_pure fun _ => List.forall_mem_singleton.2 ?_
        have hkind : s.kind ≠ .eof := State.kind_ne_eof_of hkey rfl
        have hstop : s.here.stop ≤ t.reach := by rw [hreach, State.reach_next hkind]
        exact lies_expr hs.here_on (Nat.le_refl _) hstop (List.forall_mem_singleton.2
          (lies_identifier hs.here_on (Nat.le_refl _) (Nat.le_refl _)))
      · apply spans_bind (places_propertyValue hrules s.next)
        intro value t hst hvalue
        refine spans_pure fun _ => List.forall_mem_singleton.2 ?_
        exact hvalue.lies.mono hnext.here_le (Nat.le_refl _)
    next => exact spans_unexpected

theorem spans_objectLiteral (hrules : rules.Place source) (hkind : s.kind ≠ .eof) :
    Spans source (fun e t => s.Brings source t (.expr e)) (objectLiteral rules) s := by
  apply spans_of_aligned
  intro hs
  unfold objectLiteral
  apply spans_advance_bind
  intro hnext
  have hitems : Spans source (fun ps t => ∀ p ∈ ps, ∀ e ∈ p.exprs,
      Lies source s.here.start t.reach (.expr e)) (commaSeparated .rbrace (property rules))
      s.next := by
    apply spans_commaSeparated
    · exact fun p t u htu hp e he => (hp e he).mono (Nat.le_refl _) htu.reach_le
    · intro t hst
      exact spans_mono (spans_property hrules) fun p u _ hp e he =>
        (hp e he).mono (hnext.trans hst).here_le (Nat.le_refl _)
  apply spans_bind hitems
  intro properties t hst hproperties
  apply spans_expect_bind
  intro _ htnext
  apply spans_spanFrom_bind
  apply spans_node_bind
  intro id u htu hreach
  have hall := (hs.advances hkind).then (hst.trans htnext)
  refine spans_pure fun _ => (hall.expr rfl (List.forall_mem_map.2 fun e he => ?_)).of_reach hreach
  obtain ⟨p, hp, hmem⟩ := List.mem_flatMap.1 he
  exact (hproperties p hp e hmem).mono (Nat.le_refl _) htnext.reach_le

theorem spans_expressionsUpTo {close : TokenKind} {expected : Expected}
    (hrules : rules.Place source) :
    Spans source (fun es t => ∀ e ∈ es, Lies source s.here.start t.reach (.expr e))
      (expressionsUpTo rules close expected) s := by
  unfold expressionsUpTo
  have hitems : Spans source (fun es t => ∀ e ∈ es, Lies source s.here.start t.reach (.expr e))
      (commaSeparated close rules.conditional) s := by
    apply spans_commaSeparated
    · exact fun e t u htu he => he.mono (Nat.le_refl _) htu.reach_le
    · intro t hst
      exact spans_mono (hrules.conditional t) fun e u _ he =>
        he.lies.mono hst.here_le (Nat.le_refl _)
  apply spans_bind hitems
  intro items t hst hitems
  apply spans_expect_bind
  intro _ htnext
  exact spans_pure fun _ e he => (hitems e he).mono (Nat.le_refl _) htnext.reach_le

/-- An expression that is one token. -/
theorem spans_leaf {build : Node → Expr} (hkind : s.kind ≠ .eof)
    (hnode : ∀ node, (build node).span = node.span)
    (hchildren : ∀ node : Node, node.span.On source →
      ∀ child ∈ (build node).children, Lies source node.span.start node.span.stop child) :
    Spans source (fun e t => s.Brings source t (.expr e)) (leaf build) s := by
  apply spans_of_aligned
  intro hs
  unfold leaf
  apply spans_advance_bind
  intro hnext
  apply spans_node_bind
  intro id t hst hreach
  refine spans_pure fun _ => ?_
  have htaken : s.here.stop ≤ t.reach := by rw [hreach, State.reach_next hkind]
  refine ⟨htaken, lies_expr ?_ ?_ ?_ ?_⟩
  · rw [hnode]
    exact hs.here_on
  · rw [hnode]
    exact Nat.le_refl _
  · rw [hnode]
    exact htaken
  · rw [hnode]
    exact hchildren ⟨id, s.here⟩ hs.here_on

/-- Items in brackets, where any expression may stand. -/
theorem spans_bracketed {close : TokenKind} {expected : Expected} (hrules : rules.Place source) :
    Spans source (fun es t => ∀ e ∈ es, Lies source s.here.start t.reach (.expr e))
      (nested (expressionsUpTo rules close expected)) s :=
  spans_withHead (spans_expressionsUpTo hrules) fun _ _ h => h

theorem places_primary {tag : Parse Tag} (hrules : rules.Place source)
    (htag : Places source .tag tag) : Places source .expr (primary rules tag) := by
  intro s
  apply spans_of_aligned
  intro hs
  unfold primary
  apply spans_peek_bind
  split
  case h_1 hkind | h_2 hkind | h_3 hkind | h_4 hkind =>
    exact spans_leaf (by simp [State.kind, hkind]) (fun _ => rfl)
      fun _ _ => List.forall_mem_nil _
  case h_5 hkind =>
    exact spans_leaf (by simp [State.kind, hkind]) (fun _ => rfl)
      fun _ hnode => List.forall_mem_singleton.2
        (lies_identifier hnode (Nat.le_refl _) (Nat.le_refl _))
  case h_6 hkind =>
    exact spans_leaf (by simp [State.kind, hkind]) (fun _ => rfl)
      fun _ hnode => List.forall_mem_singleton.2
        (lies_valueBinding hnode (Nat.le_refl _) (Nat.le_refl _))
  case h_7 hkind =>
    apply spans_advance_bind
    intro hnext
    apply spans_bind (places_withHead hrules.conditional s.next)
    intro inner t _ hinner
    apply spans_expect_bind
    intro _ htnext
    have hfirst := hs.advances (by simp [State.kind, hkind])
    exact spans_pure fun _ => (hinner.of_advances hfirst).of_passes htnext
  case h_8 hkind =>
    have hfirst := hs.advances (by simp [State.kind, hkind])
    apply spans_advance_bind
    intro hnext
    apply spans_bind (spans_bracketed hrules)
    intro items t hst hitems
    apply spans_spanFrom_bind
    apply spans_node_bind
    intro id u _ hreach
    refine spans_pure fun _ => ((hfirst.then hst).expr rfl ?_).of_reach hreach
    exact List.forall_mem_map.2 fun e he => (hitems e he).mono hnext.here_le (Nat.le_refl _)
  case h_9 hkind =>
    have hsome : s.kind ≠ .eof := by simp [State.kind, hkind]
    exact spans_withHead (spans_mono (spans_objectLiteral hrules hsome) fun _ _ _ he =>
      ⟨he.taken, he.lies⟩) fun _ _ he => ⟨he.taken, he.lies⟩
  case h_10 =>
    apply spans_bind (places_withHead htag s)
    intro tag t hst htag
    apply spans_node_bind
    intro id u htu hreach
    refine spans_pure fun _ => ⟨hreach ▸ htag.taken, ?_⟩
    obtain ⟨hlo, hhi⟩ := htag.lies.within tag.span rfl
    exact lies_expr (htag.lies.on rfl (by simp)) hlo (hreach ▸ hhi)
      (List.forall_mem_singleton.2 (htag.lies.tight rfl))
  case h_11 => exact spans_unexpected

theorem spans_suffix {object : Expr} (hrules : rules.Place source) (hst : s.Passes source t)
    (h : s.Brings source t (.expr object)) :
    Spans source (TurnEnds (fun e u => s.Brings source u (.expr e))
      fun e u => s.Brings source u (.expr e)) (suffix rules object) t := by
  unfold suffix
  apply spans_get_bind
  split
  · apply spans_advance_bind
    intro hnext
    apply spans_bind (spans_bracketed hrules)
    intro arguments u htu harguments
    apply spans_spanFrom_bind
    apply spans_node_bind
    intro id v _ hreach
    refine spans_pure fun _ => (h.suffixed hst (hnext.trans htu) rfl ?_).of_reach hreach
    refine List.forall_mem_cons.2 ⟨.inl rfl, List.forall_mem_map.2 fun e he => .inr ?_⟩
    exact (harguments e he).mono hnext.here_le (Nat.le_refl _)
  · apply spans_advance_bind
    intro hnext
    apply spans_kind_bind
    split
    · apply spans_advance_bind
      intro hnext'
      apply spans_spanFrom_bind
      apply spans_node_bind
      intro id v _ hreach
      exact spans_pure fun _ => (h.suffixed hst (hnext.trans hnext') rfl
        (List.forall_mem_singleton.2 (.inl rfl))).of_reach hreach
    · exact spans_unexpected
  · split
    · apply spans_advance_bind
      intro hnext
      apply spans_bind (places_withHead hrules.conditional t.next)
      intro index u htu hindex
      apply spans_expect_bind
      intro _ hunext
      apply spans_spanFrom_bind
      apply spans_node_bind
      intro id v _ hreach
      refine spans_pure fun _ => (h.suffixed hst ((hnext.trans htu).trans hunext) rfl ?_).of_reach
        hreach
      exact List.forall_mem_cons.2 ⟨.inl rfl, List.forall_mem_singleton.2
        (.inr (hindex.lies.mono hnext.here_le hunext.reach_le))⟩
    · exact spans_pure fun _ => h
  · exact spans_pure fun _ => h

theorem places_operand {tag : Parse Tag} (hrules : rules.Place source)
    (htag : Places source .tag tag) : Places source .expr (operand rules tag) := by
  intro s
  unfold operand
  apply spans_bind (places_primary hrules htag s)
  intro object t hst hobject
  exact spans_iterate (fun e u htu he => spans_suffix hrules (hst.trans htu) he) hobject

/-! ### Operators -/

/-- An operand behind a sign. -/
theorem State.Brings.signed {operand e : Expr} (h : s.next.Brings source t (.expr operand))
    (hs : s.Advances source s.next) (heq : e.span = s.here.through operand.span)
    (hchildren : e.children = [.expr operand]) : s.Brings source t (.expr e) := by
  have hoperand := h.of_advances hs
  refine ⟨hoperand.taken, ?_⟩
  have hmid : s.here.stop ≤ s.next.here.start := hs.taken.trans hs.aligned.reach_le
  refine lies_through hs.begins.here_on (Nat.le_refl _) hmid h.lies heq ?_
  rw [hchildren]
  refine List.forall_mem_singleton.2 ((hoperand.lies.tight rfl).mono ?_ (Nat.le_refl _))
  exact (hoperand.lies.within operand.span rfl).1

theorem places_unaryRule {tag : Parse Tag} (hrules : rules.Place source)
    (htag : Places source .tag tag) : Places source .expr (unaryRule rules tag) := by
  intro s
  apply spans_of_aligned
  intro hs
  unfold unaryRule
  apply spans_peek_bind
  split
  next op hop =>
    apply spans_advance_bind
    intro hnext
    apply spans_bind (hrules.unary s.next)
    intro operand t _ hoperand
    apply spans_node_bind
    intro id u _ hreach
    have hsign : (unaryOp? s.kind).isSome = true := Option.isSome_of_eq_some hop
    have hfirst := hs.advances
      (State.kind_ne_eof_of (p := fun kind => (unaryOp? kind).isSome) hsign rfl)
    exact spans_pure fun _ => (hoperand.signed hfirst rfl rfl).of_reach hreach
  next =>
    split
    next hkind =>
      have hfirst := hs.advances (by simp [State.kind, hkind])
      apply spans_advance_bind
      intro hnext
      apply spans_bind (hrules.unary s.next)
      intro operand t _ hoperand
      apply spans_node_bind
      intro id u _ hreach
      exact spans_pure fun _ => (hoperand.signed hfirst rfl rfl).of_reach hreach
    next => exact places_operand hrules htag s

theorem spans_binaryStep {least : Nat} {left : Expr} (hrules : rules.Place source)
    (hst : s.Passes source t) (h : s.Brings source t (.expr left)) :
    Spans source (TurnEnds (fun e u => s.Brings source u (.expr e))
      fun e u => s.Brings source u (.expr e)) (binaryStep rules least left) t := by
  unfold binaryStep
  apply spans_kind_bind
  split
  · split
    · exact spans_pure fun _ => h
    · apply spans_advance_bind
      intro hnext
      apply spans_bind (hrules.binary _ t.next)
      intro right u htu hright
      apply spans_node_bind
      intro id v _ hreach
      refine spans_pure fun _ => ⟨?_, ?_⟩
      · exact hreach ▸ h.taken.trans (hnext.trans htu).reach_le
      · have hleft : left.span.On source := h.lies.on rfl nofun
        obtain ⟨hlo, hhi⟩ := h.lies.within left.span rfl
        obtain ⟨hstart, -⟩ := hright.lies.within right.span rfl
        have hmid : left.span.stop ≤ t.next.here.start :=
          (hhi.trans hst.aligned.reach_le).trans hnext.here_le
        have hon : right.span.On source := hright.lies.on rfl nofun
        refine lies_through hleft hlo hmid (hreach ▸ hright.lies) rfl ?_
        refine List.forall_mem_cons.2 ⟨?_, List.forall_mem_singleton.2 ?_⟩
        · exact (h.lies.tight rfl).mono (Nat.le_refl _) ((hmid.trans hstart).trans hon.start_le)
        · exact (hright.lies.tight rfl).mono (hleft.start_le.trans (hmid.trans hstart))
            (Nat.le_refl _)
  · exact spans_pure fun _ => h

theorem places_binaryRule {unary : Parse Expr} {least : Nat} (hrules : rules.Place source)
    (hunary : Places source .expr unary) : Places source .expr (binaryRule rules unary least) := by
  intro s
  unfold binaryRule
  apply spans_bind (hunary s)
  intro left t hst hleft
  exact spans_iterate (fun e u htu he => spans_binaryStep hrules (hst.trans htu) he) hleft

theorem places_conditionalRule {binary : Nat → Parse Expr} (hrules : rules.Place source)
    (hbinary : ∀ least, Places source .expr (binary least)) :
    Places source .expr (conditionalRule rules binary) := by
  intro s
  unfold conditionalRule
  apply spans_bind (hbinary 1 s)
  intro test t hst htest
  apply spans_eat_if
  · intro _ hnext
    apply spans_bind (places_withHead hrules.conditional t.next)
    intro consequent u htu hconsequent
    apply spans_expect_bind
    intro _ hunext
    apply spans_bind (hrules.conditional u.next)
    intro alternate v huv halternate
    apply spans_node_bind
    intro id w _ hreach
    refine spans_pure fun _ => ⟨?_, ?_⟩
    · exact hreach ▸ htest.taken.trans (((hnext.trans htu).trans hunext).trans huv).reach_le
    · have hfirst : test.span.On source := htest.lies.on rfl nofun
      have hon : alternate.span.On source := halternate.lies.on rfl nofun
      obtain ⟨hlo, hhi⟩ := htest.lies.within test.span rfl
      obtain ⟨hstart, -⟩ := halternate.lies.within alternate.span rfl
      have hmid : test.span.stop ≤ t.next.here.start :=
        (hhi.trans hst.aligned.reach_le).trans hnext.here_le
      have hlast : u.reach ≤ u.next.here.start := htu.aligned.reach_le.trans hunext.here_le
      have hmid' : t.next.here.start ≤ u.next.here.start := (htu.trans hunext).here_le
      have hend : u.next.here.start ≤ alternate.span.stop := hstart.trans hon.start_le
      refine lies_through hfirst hlo (hmid.trans hmid') (hreach ▸ halternate.lies) rfl ?_
      refine List.forall_mem_cons.2 ⟨?_, List.forall_mem_cons.2 ⟨?_,
        List.forall_mem_singleton.2 ?_⟩⟩
      · exact (htest.lies.tight rfl).mono (Nat.le_refl _) ((hmid.trans hmid').trans hend)
      · exact hconsequent.lies.mono (hfirst.start_le.trans hmid) (hlast.trans hend)
      · exact (halternate.lies.tight rfl).mono
          (hfirst.start_le.trans ((hmid.trans hmid').trans hstart)) (Nat.le_refl _)
  · exact fun _ => spans_pure fun _ => htest

/-! ### Tags -/

theorem State.Advances.attribute {item : Attribute} (h : s.Advances source t)
    (heq : item.span = t.spanFrom s.here)
    (hvalue : ∀ value ∈ item.value, Lies source s.here.start t.reach (.expr value)) :
    s.Brings source t (.attribute item) := by
  refine h.brings (congrArg some heq) (List.forall_mem_nil _) (List.forall_mem_nil _)
    (List.forall_mem_nil _) ?_
  simpa [children] using hvalue

theorem State.Advances.tag {tag : Tag} (h : s.Advances source t)
    (heq : tag.span = t.spanFrom s.here)
    (hattributes : Row source s.here.start t.reach (tag.attributes.map .attribute))
    (hchildren : Row source s.here.start t.reach (tag.children.map .markup)) :
    s.Brings source t (.tag tag) :=
  h.brings (congrArg some heq) (List.forall_mem_nil _) (List.forall_mem_nil _)
    (List.forall_mem_cons.2 ⟨hattributes.ordered, List.forall_mem_singleton.2 hchildren.ordered⟩)
    (List.forall_mem_append.2 ⟨hattributes.lies, hchildren.lies⟩)

theorem places_attributeValue (hrules : rules.Place source) :
    Places source .expr (attributeValue rules) := by
  intro s
  apply spans_of_aligned
  intro hs
  unfold attributeValue
  apply spans_peek_bind
  split
  case h_1 hkind =>
    apply spans_advance_bind
    intro hnext
    apply spans_bind (hrules.conditional s.next)
    intro value t _ hvalue
    apply spans_expect_bind
    intro _ htnext
    have hfirst := hs.advances (by simp [State.kind, hkind])
    exact spans_pure fun _ => (hvalue.of_advances hfirst).of_passes htnext
  case h_2 hkind | h_3 hkind | h_4 hkind =>
    exact spans_leaf (by simp [State.kind, hkind]) (fun _ => rfl)
      fun _ _ => List.forall_mem_nil _
  case h_5 hkind =>
    exact spans_leaf (by simp [State.kind, hkind]) (fun _ => rfl)
      fun _ hnode => List.forall_mem_singleton.2
        (lies_valueBinding hnode (Nat.le_refl _) (Nat.le_refl _))
  case h_6 => exact spans_unexpected

theorem spans_tagAttribute (hrules : rules.Place source) (hkind : s.kind ≠ .eof) :
    Spans source (fun item t => s.Brings source t (.attribute item)) (tagAttribute rules) s := by
  apply spans_of_aligned
  intro hs
  have hfirst := hs.advances hkind
  unfold tagAttribute
  apply spans_advance_bind
  intro hnext
  refine spans_eat_cases_bind (P := fun o t => ∀ e ∈ o, Lies source s.here.start t.reach (.expr e))
    (fun _ hnext' => ?_) (fun _ => spans_none) fun value t hst hvalue => ?_
  · exact spans_some (places_attributeValue hrules s.next.next) (hnext.trans hnext').here_le
  · apply spans_spanFrom_bind
    exact spans_pure fun _ => (hfirst.then hst).attribute rfl hvalue

/-- The attributes read so far are in their places. -/
abbrev PlacedHead (source : Source) (lo : Nat) (head : TagHead) (t : State) : Prop :=
  Row source lo t.reach (head.attributes.map .attribute)

theorem spans_tagHeadStep {name : String} {head : TagHead} (hrules : rules.Place source)
    (hst : s.Passes source t) (hhead : PlacedHead source s.here.start head t) :
    Spans source (TurnEnds (PlacedHead source s.here.start) fun result u =>
        PlacedHead source s.here.start result.1 u)
      (tagHeadStep rules name head) t := by
  unfold tagHeadStep
  apply spans_peek_bind
  split
  case h_1 hkind | h_2 hkind =>
    apply spans_bind (spans_tagAttribute hrules (by simp [State.kind, hkind]))
    intro added u htu hadded
    exact spans_pure fun _ =>
      hhead.concat hadded.lies hst.here_le hst.aligned.reach_le htu.reach_le
  case h_3 | h_4 | h_5 =>
    apply spans_advance_bind
    intro hnext
    exact spans_pure fun _ => hhead.mono (Nat.le_refl _) hnext.reach_le
  case h_6 => exact spans_unexpected

/-- A word goes on with the text before it, or it is a text of its own. -/
theorem Row.appendText {children : List Markup} {word : Token} {mid : Nat}
    (h : Row source lo hi (children.map .markup)) (hword : word.span.On source)
    (hstart : hi ≤ word.span.start) (hlo : lo ≤ word.span.start) (hhi : word.span.stop ≤ mid) :
    Row source lo mid ((Grammar.appendText children word).map .markup) := by
  have hmid : hi ≤ mid := hstart.trans (hword.start_le.trans hhi)
  unfold Grammar.appendText
  split
  next content span hlast =>
    obtain ⟨before, rfl⟩ := List.getLast?_eq_some_iff.1 hlast
    rw [List.dropLast_concat, List.map_append]
    rw [List.map_append] at h
    obtain ⟨hordered, -, hbefore⟩ := List.pairwise_append.1 h.ordered
    have htext : Lies source lo hi (.markup (.text content span)) := h.lies _ (by simp)
    obtain ⟨hspan_lo, hspan_hi⟩ := htext.within span rfl
    have hon : span.On source := htext.on rfl nofun
    refine ⟨List.forall_mem_append.2 ⟨fun part hpart => ?_, List.forall_mem_singleton.2 ?_⟩,
      List.pairwise_append.2 ⟨hordered, List.pairwise_singleton _ _, ?_⟩⟩
    · exact (h.lies part (List.mem_append_left _ hpart)).mono (Nat.le_refl _) hmid
    · exact lies_markup_text (hon.through hword) hspan_lo
        (Nat.max_le.2 ⟨hhi, hspan_hi.trans hmid⟩)
    · -- The text still begins where it did.
      intro a ha b hb x hx y hy
      obtain rfl := List.mem_singleton.1 hb
      obtain rfl := Option.some.inj hy
      exact hbefore a ha _ List.mem_cons_self x hx span rfl
  next => exact h.concat (lies_markup_text hword (Nat.le_refl _) hhi) hlo hstart hmid

/-- The children read so far are in their places. -/
abbrev PlacedChildren (source : Source) (lo : Nat) (children : List Markup) (t : State) : Prop :=
  Row source lo t.reach (children.map .markup)

theorem spans_childStep {name : String} {children : List Markup} (hrules : rules.Place source)
    (hst : s.Passes source t) (h : PlacedChildren source s.here.start children t) :
    Spans source (TurnEnds (PlacedChildren source s.here.start)
      (PlacedChildren source s.here.start)) (childStep rules name children) t := by
  apply spans_of_aligned
  intro ht
  have hadd : ∀ {child : Markup} {u : State}, t.Passes source u →
      Lies source t.here.start u.reach (.markup child) →
      PlacedChildren source s.here.start (children ++ [child]) u :=
    fun htu hchild => h.concat hchild hst.here_le ht.reach_le htu.reach_le
  unfold childStep
  apply spans_peek_bind
  split
  case h_1 =>
    split
    · apply spans_advance_bind
      intro hnext
      exact spans_pure fun _ => h.mono (Nat.le_refl _) hnext.reach_le
    · exact spans_fail
  case h_2 =>
    apply spans_bind (hrules.tag t)
    intro tag u htu htag
    exact spans_pure fun _ => hadd htu (lies_markup_tag htag.lies)
  case h_3 =>
    apply spans_advance_bind
    intro hnext
    apply spans_bind (hrules.conditional t.next)
    intro value u htu hvalue
    apply spans_expect_bind
    intro _ hunext
    exact spans_pure fun _ => hadd ((hnext.trans htu).trans hunext)
      (lies_markup_expr (hvalue.lies.mono hnext.here_le hunext.reach_le))
  case h_4 hkind =>
    apply spans_advance_bind
    intro hnext
    have hsome : t.kind ≠ .eof := by simp [State.kind, hkind]
    exact spans_pure fun _ => h.appendText ht.here_on ht.reach_le hst.here_le
      (State.reach_next hsome).ge
  case h_5 => exact spans_fail
  case h_6 => exact spans_unexpected

theorem places_tagRule (hrules : rules.Place source) : Places source .tag (tagRule rules) := by
  intro s
  apply spans_of_aligned
  intro hs
  have htag : ∀ {name : String} {head : TagHead} {children : List Markup} {selfClosing : Bool}
      {t : State}, s.Advances source t → PlacedHead source s.here.start head t →
      PlacedChildren source s.here.start children t →
      Spans source (fun tag u => s.Brings source u (.tag tag))
        (do return ⟨name, head.attributes, head.styles, children, selfClosing,
          ← spanFrom s.here⟩) t := by
    intro name head children selfClosing t hst hhead hchildren
    apply spans_spanFrom_bind
    exact spans_pure fun _ => hst.tag rfl hhead hchildren
  unfold tagRule
  apply spans_expect_bind
  intro hkind hnext
  have hfirst := hs.advances (by simp [hkind])
  apply spans_bind (spans_iterate (J := PlacedHead source s.here.start)
    (Q := fun result u => PlacedHead source s.here.start result.1 u)
    (fun head t hst hhead => spans_tagHeadStep hrules (hnext.trans hst) hhead) row_nil)
  rintro ⟨head, selfClosing⟩ t hst hhead
  dsimp only
  split
  · exact htag (hfirst.then hst) hhead row_nil
  · apply spans_bind (spans_iterate (J := PlacedChildren source s.here.start)
      (Q := PlacedChildren source s.here.start)
      (fun children u htu hchildren =>
        spans_childStep hrules ((hnext.trans hst).trans htu) hchildren) row_nil)
    intro children u htu hchildren
    exact htag (hfirst.then (hst.trans htu)) (hhead.mono (Nat.le_refl _) htu.reach_le) hchildren

/-! ### All expressions -/

theorem place_exprRules (depth : Nat) : (exprRules depth).Place source := by
  induction depth with
  | zero => exact ⟨fun _ => spans_fail, fun _ _ => spans_fail, fun _ => spans_fail,
      fun _ => spans_fail⟩
  | succ depth ih =>
      have htag : Places source .tag (exprRules (depth + 1)).tag := places_tagRule ih
      have hunary : Places source .expr (exprRules (depth + 1)).unary := places_unaryRule ih htag
      have hbinary : ∀ least, Places source .expr ((exprRules (depth + 1)).binary least) :=
        fun _ => places_binaryRule ih hunary
      exact ⟨places_conditionalRule ih hbinary, hbinary, hunary, htag⟩

theorem places_expression : Places source .expr expression :=
  fun s => spans_of_eq ((place_exprRules (s.rest.length + 1)).conditional s) rfl

theorem places_tag : Places source .tag tag :=
  fun s => spans_of_eq ((place_exprRules (s.rest.length + 1)).tag s) rfl

theorem places_headExpression : Places source .expr headExpression :=
  places_withHead places_expression

end ComponentLang.Grammar
