import ComponentLang.Proofs.Grammar.Expression
import ComponentLang.Proofs.Grammar.Texts

/-!
# The names in types and the texts in expressions

Names are words of the tokens, and the texts in tags are made of such words.
-/

/-! ## The names in type expressions

The name of a type is a word of the tokens, and a union is read only where a bar stands, so it has
two members or more. -/

namespace ComponentLang.Grammar

open Parse ComponentLang.TypeExpr

variable {tokens : List Token} {span : Span}

/-! ### Type expressions from their parts -/

theorem written_iff {a : TypeExpr} :
    Written tokens a ↔ Drawn tokens a ∧ ∀ child ∈ a.children, Written tokens child :=
  everywhere_iff

theorem written_named {name : String} :
    Written tokens (.named span name) ↔
      ∃ t ∈ tokens, (t.kind = .identifier ∨ t.kind = .null) ∧ t.lexeme = name := by
  rw [written_iff]
  constructor
  · exact fun h => h.1.word span name rfl
  · intro hword
    refine ⟨⟨trivial, ?_⟩, List.forall_mem_nil _⟩
    rintro _ _ ⟨⟩
    exact hword

@[simp] theorem written_array {element : TypeExpr} :
    Written tokens (.array span element) ↔ Written tokens element := by
  rw [written_iff, and_iff_right ⟨trivial, nofun⟩]
  exact List.forall_mem_singleton

@[simp] theorem written_optional {inner : TypeExpr} :
    Written tokens (.optional span inner) ↔ Written tokens inner := by
  rw [written_iff, and_iff_right ⟨trivial, nofun⟩]
  exact List.forall_mem_singleton

theorem written_union {members : List TypeExpr} :
    Written tokens (.union span members) ↔
      2 ≤ members.length ∧ ∀ a ∈ members, Written tokens a := by
  rw [written_iff]
  exact ⟨fun h => ⟨h.1.wellFormed, h.2⟩, fun h => ⟨⟨h.1, nofun⟩, h.2⟩⟩

/-! ### Reading type expressions -/

section Rules

variable {inner : Parse TypeExpr} (hinner : Sees tokens (Written tokens) inner)

include hinner

theorem sees_typeExprAtom : Sees tokens (Written tokens) (typeExprAtom inner) := by
  unfold typeExprAtom
  apply sees_token_bind
  intro token htoken
  have hname (hkind : token.kind = .identifier ∨ token.kind = .null) :
      Written tokens (.named token.span token.lexeme) := by
    refine written_named.2 ⟨token, htoken ?_, hkind, rfl⟩
    rcases hkind with hkind | hkind <;> simp [hkind]
  split
  case h_1 hkind | h_2 hkind =>
    apply sees_advance_bind
    intro _
    split
    · apply sees_eat_if
      · apply sees_bind hinner
        intro element helement
        apply sees_expect_bind
        intro _
        apply sees_spanFrom_bind
        intro span
        exact sees_pure (written_array.2 helement)
      · exact sees_pure (hname (by simp [hkind]))
    · exact sees_pure (hname (by simp [hkind]))
  case h_3 =>
    apply sees_advance_bind
    intro _
    apply sees_bind hinner
    intro grouped hgrouped
    exact sees_expect_bind fun _ => sees_pure hgrouped
  case h_4 => exact sees_unexpected

omit hinner in
theorem sees_typeExprSuffix {start : Span} {a : TypeExpr} (ha : Written tokens a) :
    Sees tokens (TurnIs (Written tokens) (Written tokens)) (typeExprSuffix start a) := by
  unfold typeExprSuffix
  apply sees_get_bind
  intro s
  split
  · apply sees_advance_bind
    intro _
    apply sees_spanFrom_bind
    intro span
    exact sees_pure (written_optional.2 ha)
  · split
    · apply sees_advance_bind
      intro _
      apply sees_advance_bind
      intro _
      apply sees_spanFrom_bind
      intro span
      exact sees_pure (written_array.2 ha)
    · exact sees_pure ha

theorem sees_suffixedTypeExpr : Sees tokens (Written tokens) (suffixedTypeExpr inner) := by
  unfold suffixedTypeExpr
  apply sees_here_bind
  intro start
  apply sees_bind (sees_typeExprAtom hinner)
  intro a ha
  exact sees_iterate (fun _ => sees_typeExprSuffix) ha

/-- The members read so far: there is one, and behind it a bar or another one. -/
structure SeveralMembers (tokens : List Token) (members : List TypeExpr) (s : State) : Prop where
  rest_suffix : s.rest <:+ tokens
  written : ∀ a ∈ members, Written tokens a
  pos : 1 ≤ members.length
  several : s.kind = .pipe ∨ 2 ≤ members.length

theorem ends_unionMember {members : List TypeExpr} {s : State}
    (h : SeveralMembers tokens members s) :
    Ends (TurnEnds (SeveralMembers tokens) fun members t => t.rest <:+ tokens ∧
          (2 ≤ members.length ∧ ∀ a ∈ members, Written tokens a))
      (fun _ t => t.rest <:+ tokens) (unionMember inner members) s := by
  unfold unionMember
  rw [ends_eat_bind]
  split
  next =>
    simp only [if_true, ends_bind]
    refine (sees_suffixedTypeExpr hinner s.next (s.suffix_next.trans h.rest_suffix)).mono ?_
      fun _ _ ht => ht
    rintro member t ⟨ht, hmember⟩
    have hlength : 2 ≤ (members ++ [member]).length := by
      rw [List.length_append, List.length_singleton]
      exact Nat.succ_le_succ h.pos
    exact {
      rest_suffix := ht
      written := List.forall_mem_append.2 ⟨h.written, List.forall_mem_singleton.2 hmember⟩
      pos := Nat.le_of_succ_le hlength
      several := .inr hlength }
  next hpipe => exact ⟨h.rest_suffix, h.several.resolve_left hpipe, h.written⟩

theorem sees_typeExprRule : Sees tokens (Written tokens) (typeExprRule inner) := by
  unfold typeExprRule
  apply sees_bind (sees_suffixedTypeExpr hinner)
  intro first hfirst s hs
  rw [ends_kind_bind]
  split
  next hpipe =>
    rw [ends_bind]
    have hstart : SeveralMembers tokens [first] s :=
      ⟨hs, List.forall_mem_singleton.2 hfirst, Nat.le_refl 1, .inl hpipe⟩
    refine (ends_iterate_of (fun _ _ ht => ends_unionMember hinner ht)
      (fun _ _ ht => ht.rest_suffix) [first] hstart).mono ?_ fun _ _ ht => ht
    rintro members t ⟨ht, hmembers⟩
    exact ⟨ht, written_union.2 hmembers⟩
  next => exact ⟨hs, hfirst⟩

end Rules

theorem sees_typeExprAt (depth : Nat) : Sees tokens (Written tokens) (typeExprAt depth) := by
  induction depth with
  | zero => exact sees_fail
  | succ depth ih => exact sees_typeExprRule ih

theorem sees_typeExpr : Sees tokens (Written tokens) typeExpr :=
  sees_of_eq (fun s => sees_typeExprAt (s.rest.length + 1)) fun _ => rfl

theorem sees_typeExpr? : Sees tokens (fun a => ∀ b ∈ a, Written tokens b) typeExpr? := by
  unfold typeExpr?
  apply sees_eat_if
  · apply sees_bind sees_typeExpr
    intro a ha
    exact sees_pure (by simpa using ha)
  · exact sees_none

end ComponentLang.Grammar

/-! ## The texts in expressions

Only a tag has children, so the other rules hand on what they read. The children of a tag are read
in turns, and between two turns the words of a text that may go on stand directly before the tokens
to come. -/

namespace ComponentLang.Grammar

open Parse ComponentLang.TreePart

variable {tokens : List Token}

abbrev TidyExpr (tokens : List Token) (e : Expr) : Prop := Tidy tokens (.expr e)

/-- Every rule reads a tidy tree. -/
structure ExprRules.See (tokens : List Token) (rules : ExprRules) : Prop where
  conditional : Sees tokens (TidyExpr tokens) rules.conditional
  binary (least : Nat) : Sees tokens (TidyExpr tokens) (rules.binary least)
  unary : Sees tokens (TidyExpr tokens) rules.unary
  tag : Sees tokens (fun t => Tidy tokens (.tag t)) rules.tag

variable {rules : ExprRules}

/-! ### Operands -/

theorem sees_propertyValue (hrules : rules.See tokens) :
    Sees tokens (TidyExpr tokens) (propertyValue rules) :=
  sees_eat_if hrules.conditional sees_unexpected

theorem sees_property (hrules : rules.See tokens) :
    Sees tokens (fun p => ∀ e ∈ p.exprs, TidyExpr tokens e) (property rules) := by
  unfold property
  apply sees_peek_bind
  intro key
  split
  · apply sees_advance_bind
    intro _
    apply sees_bind hrules.conditional
    intro computed hcomputed
    apply sees_expect_bind
    intro _
    apply sees_bind (sees_propertyValue hrules)
    intro value hvalue
    exact sees_pure (List.forall_mem_cons.2 ⟨hcomputed, List.forall_mem_singleton.2 hvalue⟩)
  · split
    · apply sees_advance_bind
      intro _
      apply sees_get_bind
      intro t
      split
      · exact sees_node fun node => List.forall_mem_singleton.2 (by simp [Expr.children])
      · apply sees_bind (sees_propertyValue hrules)
        intro value hvalue
        exact sees_pure (List.forall_mem_singleton.2 hvalue)
    · exact sees_unexpected

theorem sees_objectLiteral (hrules : rules.See tokens) :
    Sees tokens (TidyExpr tokens) (objectLiteral rules) := by
  unfold objectLiteral
  apply sees_advance_bind
  intro token
  apply sees_bind (sees_commaSeparated (sees_property hrules))
  intro properties hproperties
  apply sees_expect_bind
  intro _
  apply sees_spanFrom_bind
  intro span
  refine sees_node fun node => ?_
  refine tidy_expr.2 (List.forall_mem_map.2 fun e he => ?_)
  obtain ⟨property, hproperty, hmem⟩ := List.mem_flatMap.1 he
  exact hproperties property hproperty e hmem

theorem sees_expressionsUpTo {close : TokenKind} {expected : Expected}
    (hrules : rules.See tokens) :
    Sees tokens (fun es => ∀ e ∈ es, TidyExpr tokens e) (expressionsUpTo rules close expected) := by
  unfold expressionsUpTo
  apply sees_bind (sees_commaSeparated hrules.conditional)
  intro items hitems
  exact sees_expect_bind fun _ => sees_pure hitems

theorem sees_leaf {build : Node → Expr} (hbuild : ∀ node, TidyExpr tokens (build node)) :
    Sees tokens (TidyExpr tokens) (leaf build) := by
  unfold leaf
  apply sees_advance_bind
  intro token
  exact sees_node hbuild

theorem sees_primary {tag : Parse Tag} (hrules : rules.See tokens)
    (htag : Sees tokens (fun t => Tidy tokens (.tag t)) tag) :
    Sees tokens (TidyExpr tokens) (primary rules tag) := by
  unfold primary
  apply sees_peek_bind
  intro token
  split
  case h_1 | h_2 | h_3 | h_4 | h_5 | h_6 => exact sees_leaf fun _ => by simp [Expr.children]
  case h_7 =>
    apply sees_advance_bind
    intro _
    apply sees_bind (sees_nested hrules.conditional)
    intro inner hinner
    exact sees_expect_bind fun _ => sees_pure hinner
  case h_8 =>
    apply sees_advance_bind
    intro _
    apply sees_bind (sees_nested (sees_expressionsUpTo hrules))
    intro items hitems
    apply sees_spanFrom_bind
    intro span
    exact sees_node fun _ => tidy_expr.2 (List.forall_mem_map.2 hitems)
  case h_9 => exact sees_nested (sees_objectLiteral hrules)
  case h_10 =>
    apply sees_bind (sees_nested htag)
    intro tag htag
    exact sees_node fun _ => tidy_expr.2 (List.forall_mem_singleton.2 htag)
  case h_11 => exact sees_unexpected

theorem sees_suffix {object : Expr} (hrules : rules.See tokens)
    (hobject : TidyExpr tokens object) :
    Sees tokens (TurnIs (TidyExpr tokens) (TidyExpr tokens)) (suffix rules object) := by
  unfold suffix
  apply sees_get_bind
  intro s
  split
  · apply sees_advance_bind
    intro _
    apply sees_bind (sees_nested (sees_expressionsUpTo hrules))
    intro arguments harguments
    apply sees_spanFrom_bind
    intro span
    exact sees_node fun _ => tidy_expr.2
      (List.forall_mem_cons.2 ⟨hobject, List.forall_mem_map.2 harguments⟩)
  · apply sees_advance_bind
    intro _
    apply sees_kind_bind
    intro kind
    split
    · apply sees_advance_bind
      intro property
      apply sees_spanFrom_bind
      intro span
      exact sees_node fun _ => tidy_expr.2 (List.forall_mem_singleton.2 hobject)
    · exact sees_unexpected
  · split
    · apply sees_advance_bind
      intro _
      apply sees_bind (sees_nested hrules.conditional)
      intro index hindex
      apply sees_expect_bind
      intro _
      apply sees_spanFrom_bind
      intro span
      exact sees_node fun _ => tidy_expr.2
        (List.forall_mem_cons.2 ⟨hobject, List.forall_mem_singleton.2 hindex⟩)
    · exact sees_pure hobject
  · exact sees_pure hobject

theorem sees_operand {tag : Parse Tag} (hrules : rules.See tokens)
    (htag : Sees tokens (fun t => Tidy tokens (.tag t)) tag) :
    Sees tokens (TidyExpr tokens) (operand rules tag) := by
  unfold operand
  apply sees_bind (sees_primary hrules htag)
  intro object hobject
  exact sees_iterate (fun _ => sees_suffix hrules) hobject

/-! ### Operators -/

theorem sees_unaryRule {tag : Parse Tag} (hrules : rules.See tokens)
    (htag : Sees tokens (fun t => Tidy tokens (.tag t)) tag) :
    Sees tokens (TidyExpr tokens) (unaryRule rules tag) := by
  unfold unaryRule
  apply sees_peek_bind
  intro token
  split
  · apply sees_advance_bind
    intro _
    apply sees_bind hrules.unary
    intro operand hoperand
    exact sees_node fun _ => tidy_expr.2 (List.forall_mem_singleton.2 hoperand)
  · split
    · apply sees_advance_bind
      intro _
      apply sees_bind hrules.unary
      intro operand hoperand
      exact sees_node fun _ => tidy_expr.2 (List.forall_mem_singleton.2 hoperand)
    · exact sees_operand hrules htag

theorem sees_binaryStep {least : Nat} {left : Expr} (hrules : rules.See tokens)
    (hleft : TidyExpr tokens left) :
    Sees tokens (TurnIs (TidyExpr tokens) (TidyExpr tokens)) (binaryStep rules least left) := by
  unfold binaryStep
  apply sees_kind_bind
  intro kind
  split
  · split
    · exact sees_pure hleft
    · apply sees_advance_bind
      intro _
      apply sees_bind (hrules.binary _)
      intro right hright
      exact sees_node fun _ => tidy_expr.2
        (List.forall_mem_cons.2 ⟨hleft, List.forall_mem_singleton.2 hright⟩)
  · exact sees_pure hleft

theorem sees_binaryRule {unary : Parse Expr} {least : Nat} (hrules : rules.See tokens)
    (hunary : Sees tokens (TidyExpr tokens) unary) :
    Sees tokens (TidyExpr tokens) (binaryRule rules unary least) := by
  unfold binaryRule
  apply sees_bind hunary
  intro left hleft
  exact sees_iterate (fun _ => sees_binaryStep hrules) hleft

theorem sees_conditionalRule {binary : Nat → Parse Expr} (hrules : rules.See tokens)
    (hbinary : ∀ least, Sees tokens (TidyExpr tokens) (binary least)) :
    Sees tokens (TidyExpr tokens) (conditionalRule rules binary) := by
  unfold conditionalRule
  apply sees_bind (hbinary 1)
  intro test htest
  apply sees_eat_if
  · apply sees_bind (sees_nested hrules.conditional)
    intro consequent hconsequent
    apply sees_expect_bind
    intro _
    apply sees_bind hrules.conditional
    intro alternate halternate
    exact sees_node fun _ => tidy_expr.2 (List.forall_mem_cons.2
      ⟨htest, List.forall_mem_cons.2 ⟨hconsequent, List.forall_mem_singleton.2 halternate⟩⟩)
  · exact sees_pure htest

/-! ### Tags -/

theorem sees_attributeValue (hrules : rules.See tokens) :
    Sees tokens (TidyExpr tokens) (attributeValue rules) := by
  unfold attributeValue
  apply sees_peek_bind
  intro token
  split
  case h_1 =>
    apply sees_advance_bind
    intro _
    apply sees_bind hrules.conditional
    intro value hvalue
    exact sees_expect_bind fun _ => sees_pure hvalue
  case h_2 | h_3 | h_4 | h_5 => exact sees_leaf fun _ => by simp [Expr.children]
  case h_6 => exact sees_unexpected

theorem sees_tagAttribute (hrules : rules.See tokens) :
    Sees tokens (fun item => Tidy tokens (.attribute item)) (tagAttribute rules) := by
  unfold tagAttribute
  apply sees_advance_bind
  intro name
  apply sees_eat_bind
  intro taken
  apply sees_ite_bind (sees_some (sees_attributeValue hrules)) sees_none
  intro value hvalue
  apply sees_spanFrom_bind
  intro span
  exact sees_pure (tidy_attribute.2 hvalue)

/-- The attributes read so far are tidy. -/
abbrev TidyHead (tokens : List Token) (head : TagHead) : Prop :=
  ∀ item ∈ head.attributes, Tidy tokens (.attribute item)

theorem sees_tagHeadStep {name : String} {head : TagHead} (hrules : rules.See tokens)
    (hhead : TidyHead tokens head) :
    Sees tokens (TurnIs (TidyHead tokens) fun result => TidyHead tokens result.1)
      (tagHeadStep rules name head) := by
  unfold tagHeadStep
  apply sees_peek_bind
  intro token
  split
  case h_1 | h_2 =>
    apply sees_bind (sees_tagAttribute hrules)
    intro added hadded
    exact sees_pure (List.forall_mem_append.2 ⟨hhead, List.forall_mem_singleton.2 hadded⟩)
  case h_3 => exact sees_advance_bind fun _ => sees_pure hhead
  case h_4 | h_5 => exact sees_advance_bind fun _ => sees_pure hhead
  case h_6 => exact sees_unexpected

/-- The children of a tag that have been read, with the tokens to come. -/
structure TidyChildren (tokens : List Token) (children : List Markup) (rest : List Token) :
    Prop where
  rest_suffix : rest <:+ tokens
  tidy : ∀ child ∈ children, Tidy tokens (.markup child)
  textual : Textual tokens children
  openText : OpenText tokens children rest

/-- A child that is no text. -/
theorem TidyChildren.concat_other {children : List Markup} {child : Markup} {s t : State}
    (h : TidyChildren tokens children s.rest) (ht : t.rest <:+ tokens)
    (hother : ¬ child.IsText) (htidy : Tidy tokens (.markup child)) :
    TidyChildren tokens (children ++ [child]) t.rest where
  rest_suffix := ht
  tidy := List.forall_mem_append.2 ⟨h.tidy, List.forall_mem_singleton.2 htidy⟩
  textual := h.textual.concat_other hother
  openText := openText_concat_other hother

theorem tidy_of_mem_appendText {children : List Markup} {word : Token}
    (h : ∀ child ∈ children, Tidy tokens (.markup child)) :
    ∀ child ∈ appendText children word, Tidy tokens (.markup child) := by
  unfold appendText
  split
  next content span hlast =>
    refine List.forall_mem_append.2 ⟨fun child hchild => ?_, ?_⟩
    · exact h child ((List.dropLast_sublist _).subset hchild)
    · exact List.forall_mem_singleton.2 (by simp [Markup.children])
  next =>
    exact List.forall_mem_append.2 ⟨h, List.forall_mem_singleton.2 (by simp [Markup.children])⟩

theorem ends_childStep {name : String} {children : List Markup} {s : State}
    (hrules : rules.See tokens) (h : TidyChildren tokens children s.rest) :
    Ends (TurnEnds (fun children t => TidyChildren tokens children t.rest)
        fun children t => t.rest <:+ tokens ∧ Textual tokens children ∧
          ∀ child ∈ children, Tidy tokens (.markup child))
      (fun _ t => t.rest <:+ tokens) (childStep rules name children) s := by
  have hnext : s.next.rest <:+ tokens := s.suffix_next.trans h.rest_suffix
  unfold childStep
  rw [ends_peek_bind]
  split
  case h_1 =>
    split
    · exact ⟨hnext, h.textual, h.tidy⟩
    · exact h.rest_suffix
  case h_2 =>
    rw [ends_bind]
    refine (hrules.tag s h.rest_suffix).mono (fun tag t ht => ?_) fun _ _ ht => ht
    exact h.concat_other ht.1 id (tidy_markup.2 (List.forall_mem_singleton.2 ht.2))
  case h_3 =>
    rw [ends_advance_bind, ends_bind]
    refine (hrules.conditional s.next hnext).mono (fun value t ht => ?_) fun _ _ ht => ht
    rw [ends_bind]
    refine Ends.mono (sees_of_skims (fun _ => takes_expect.2 fun _ => trivial) t ht.1)
      (fun _ u hu => ?_) fun _ _ hu => hu
    exact h.concat_other hu.1 id (tidy_markup.2 (List.forall_mem_singleton.2 ht.2))
  case h_4 hkind =>
    have hrest : s.rest = s.peek :: s.next.rest :=
      State.rest_of_kind (by rw [State.kind, hkind]; decide)
    obtain ⟨htextual, hopen⟩ :=
      h.textual.appendText (hrest ▸ h.openText) hkind (hrest ▸ h.rest_suffix)
    exact ⟨hnext, tidy_of_mem_appendText h.tidy, htextual, hopen⟩
  case h_5 => exact h.rest_suffix
  case h_6 => exact h.rest_suffix

theorem sees_children {name : String} (hrules : rules.See tokens) :
    Sees tokens (fun children => Textual tokens children ∧
      ∀ child ∈ children, Tidy tokens (.markup child)) (iterate (childStep rules name) []) := by
  intro s hs
  refine ends_iterate_of (J := fun children t => TidyChildren tokens children t.rest)
    (fun _ _ ht => ends_childStep hrules ht) (fun _ _ ht => ht.rest_suffix) [] ?_
  exact ⟨hs, List.forall_mem_nil _, textual_nil, nofun⟩

theorem sees_tagRule (hrules : rules.See tokens) :
    Sees tokens (fun t => Tidy tokens (.tag t)) (tagRule rules) := by
  unfold tagRule
  apply sees_expect_bind
  intro opening
  apply sees_bind (sees_iterate (fun _ => sees_tagHeadStep hrules) (List.forall_mem_nil _))
  rintro ⟨head, selfClosing⟩ hhead
  have hnone : Sees tokens (fun children : List Markup => (Textual tokens children ∧
      (selfClosing = true → children = [])) ∧ ∀ child ∈ children, Tidy tokens (.markup child))
      (pure []) :=
    sees_pure ⟨⟨textual_nil, fun _ => rfl⟩, List.forall_mem_nil _⟩
  apply sees_cases_bind (fun _ => hnone)
  · intro hopen
    exact sees_mono (sees_children hrules) fun children h =>
      ⟨⟨h.1, fun hclosed => absurd hclosed hopen⟩, h.2⟩
  intro children hchildren
  apply sees_spanFrom_bind
  intro span
  exact sees_pure (tidy_tag.2 ⟨hchildren.1, hhead, hchildren.2⟩)

/-! ### All expressions -/

theorem see_exprRules (depth : Nat) : (exprRules depth).See tokens := by
  induction depth with
  | zero => exact ⟨sees_fail, fun _ => sees_fail, sees_fail, sees_fail⟩
  | succ depth ih =>
      have htag : Sees tokens (fun t => Tidy tokens (.tag t)) (exprRules (depth + 1)).tag :=
        sees_tagRule ih
      have hunary : Sees tokens (TidyExpr tokens) (exprRules (depth + 1)).unary :=
        sees_unaryRule ih htag
      have hbinary : ∀ least,
          Sees tokens (TidyExpr tokens) ((exprRules (depth + 1)).binary least) :=
        fun _ => sees_binaryRule ih hunary
      exact ⟨sees_conditionalRule ih hbinary, hbinary, hunary, htag⟩

theorem sees_expression : Sees tokens (TidyExpr tokens) expression :=
  sees_of_eq (fun s => (see_exprRules (s.rest.length + 1)).conditional) fun _ => rfl

theorem sees_tag : Sees tokens (fun t => Tidy tokens (.tag t)) tag :=
  sees_of_eq (fun s => (see_exprRules (s.rest.length + 1)).tag) fun _ => rfl

theorem sees_headExpression : Sees tokens (TidyExpr tokens) headExpression :=
  sees_withHead sees_expression

end ComponentLang.Grammar
