import ComponentLang.Grammar.Markup
import ComponentLang.Grammar.TypeExpr
import ComponentLang.Proofs.Grammar.Quoting

/-!
# What problems in expressions quote

The name of a tag is known from when it is opened, and the problems with what stands in the tag may
show it. All other problems show the token that is found. Each name that a tree keeps is taken from
the token that is looked at.
-/
namespace ComponentLang.Grammar

open Parse ComponentLang.TreePart

variable {tokens : List Token}

/-- The names and keys in the part are texts of the tokens. -/
abbrev Named (tokens : List Token) (part : TreePart) : Prop :=
  part.Spelled (IsName tokens) (IsKey tokens)

abbrev NamedExpr (tokens : List Token) (e : Expr) : Prop := Named tokens (.expr e)

/-! ## Type expressions -/

abbrev NamedType (tokens : List Token) (a : TypeExpr) : Prop := ∀ name ∈ a.names, IsName tokens name

section Types

variable {inner : Parse TypeExpr} (hinner : Quotes tokens (NamedType tokens) inner)

include hinner

theorem quotes_typeExprAtom : Quotes tokens (NamedType tokens) (typeExprAtom inner) := by
  unfold typeExprAtom
  apply quotes_token_bind
  intro token htoken
  have hname (hkind : token.kind = .identifier ∨ token.kind = .null) :
      NamedType tokens (.named token.span token.lexeme) := by
    refine List.forall_mem_singleton.2 ⟨token, htoken ?_, ?_, rfl⟩
    · rcases hkind with hkind | hkind <;> simp [hkind]
    · rcases hkind with hkind | hkind <;> rw [hkind] <;> rfl
  split
  case h_1 hkind | h_2 hkind =>
    have hnamed := hname (by simp [hkind])
    apply quotes_advance_bind
    intro _
    split
    · apply quotes_eat_if
      · apply quotes_bind hinner
        intro element helement
        refine quotes_expect_bind nofun rfl fun _ => ?_
        apply quotes_spanFrom_bind
        intro span
        exact quotes_pure helement
      · exact quotes_pure hnamed
    · exact quotes_pure hnamed
  case h_3 =>
    apply quotes_advance_bind
    intro _
    apply quotes_bind hinner
    intro grouped hgrouped
    exact quotes_expect_bind nofun rfl fun _ => quotes_pure hgrouped
  case h_4 => exact quotes_unexpected rfl

omit hinner in
theorem quotes_typeExprSuffix {start : Span} {a : TypeExpr} (ha : NamedType tokens a) :
    Quotes tokens (TurnIs (NamedType tokens) (NamedType tokens)) (typeExprSuffix start a) := by
  unfold typeExprSuffix
  apply quotes_get_bind
  intro s
  split
  · apply quotes_advance_bind
    intro _
    apply quotes_spanFrom_bind
    intro span
    exact quotes_pure ha
  · split
    · apply quotes_advance_bind
      intro _
      apply quotes_advance_bind
      intro _
      apply quotes_spanFrom_bind
      intro span
      exact quotes_pure ha
    · exact quotes_pure ha

theorem quotes_suffixedTypeExpr : Quotes tokens (NamedType tokens) (suffixedTypeExpr inner) := by
  unfold suffixedTypeExpr
  apply quotes_here_bind
  intro start
  apply quotes_bind (quotes_typeExprAtom hinner)
  intro a ha
  exact quotes_iterate (fun _ => quotes_typeExprSuffix) ha

theorem quotes_unionMember {members : List TypeExpr} (h : ∀ a ∈ members, NamedType tokens a) :
    Quotes tokens (TurnIs (fun members => ∀ a ∈ members, NamedType tokens a)
      fun members => ∀ a ∈ members, NamedType tokens a) (unionMember inner members) := by
  unfold unionMember
  apply quotes_eat_if
  · apply quotes_bind (quotes_suffixedTypeExpr hinner)
    intro member hmember
    exact quotes_pure (List.forall_mem_append.2 ⟨h, List.forall_mem_singleton.2 hmember⟩)
  · exact quotes_pure h

theorem quotes_typeExprRule : Quotes tokens (NamedType tokens) (typeExprRule inner) := by
  unfold typeExprRule
  apply quotes_bind (quotes_suffixedTypeExpr hinner)
  intro first hfirst
  apply quotes_kind_bind
  intro kind
  split
  · apply quotes_bind (quotes_iterate (fun _ => quotes_unionMember hinner)
      (List.forall_mem_singleton.2 hfirst))
    intro members hmembers
    apply quotes_spanFrom_bind
    intro span
    exact quotes_pure (forall_names_union.2 hmembers)
  · exact quotes_pure hfirst

end Types

theorem quotes_typeExprAt (depth : Nat) :
    Quotes tokens (NamedType tokens) (typeExprAt depth) := by
  induction depth with
  | zero => exact quotes_fail (List.forall_mem_nil _) rfl
  | succ depth ih => exact quotes_typeExprRule ih

theorem quotes_typeExpr : Quotes tokens (NamedType tokens) typeExpr :=
  quotes_of_eq (fun s => quotes_typeExprAt (s.rest.length + 1)) fun _ => rfl

theorem quotes_typeExpr? :
    Quotes tokens (fun a => ∀ b ∈ a, NamedType tokens b) typeExpr? := by
  unfold typeExpr?
  apply quotes_eat_if
  · apply quotes_bind quotes_typeExpr
    intro a ha
    exact quotes_pure (by simpa using ha)
  · exact quotes_none

/-! ## Operands -/

/-- Every rule quotes, and what it reads has its names from the tokens. -/
structure ExprRules.Quote (tokens : List Token) (rules : ExprRules) : Prop where
  conditional : Quotes tokens (NamedExpr tokens) rules.conditional
  binary (least : Nat) : Quotes tokens (NamedExpr tokens) (rules.binary least)
  unary : Quotes tokens (NamedExpr tokens) rules.unary
  tag : Quotes tokens (fun t => Named tokens (.tag t)) rules.tag

variable {rules : ExprRules}

theorem quotes_propertyValue (hrules : rules.Quote tokens) :
    Quotes tokens (NamedExpr tokens) (propertyValue rules) :=
  quotes_eat_if hrules.conditional (quotes_unexpected rfl)

theorem quotes_property (hrules : rules.Quote tokens) :
    Quotes tokens (SpelledProperty (IsName tokens) (IsKey tokens)) (property rules) := by
  unfold property
  apply quotes_token_bind
  intro key htoken
  split
  · apply quotes_advance_bind
    intro _
    apply quotes_bind hrules.conditional
    intro computed hcomputed
    refine quotes_expect_bind nofun rfl fun _ => ?_
    apply quotes_bind (quotes_propertyValue hrules)
    intro value hvalue
    exact quotes_pure
      ⟨nofun, List.forall_mem_cons.2 ⟨hcomputed, List.forall_mem_singleton.2 hvalue⟩⟩
  · split
    next hkey =>
      have hmem : key ∈ tokens := by
        refine htoken fun heof => ?_
        rw [heof] at hkey
        cases hkey
      have hnamed : ∀ key' ∈ (some key.lexeme : Option String), IsKey tokens key' := by
        rintro _ ⟨⟩
        exact ⟨key, hmem, hkey, rfl⟩
      apply quotes_advance_bind
      intro _
      apply quotes_get_bind
      intro t
      split
      next hshort =>
        have hidentifier : key.kind = .identifier := by simpa using (Bool.and_eq_true_iff.1 hshort).1
        have hname : IsName tokens key.lexeme := ⟨key, hmem, by rw [hidentifier]; rfl, rfl⟩
        exact quotes_node fun node =>
          ⟨hnamed, List.forall_mem_singleton.2 (spelled_identifier.2 hname)⟩
      next =>
        apply quotes_bind (quotes_propertyValue hrules)
        intro value hvalue
        exact quotes_pure ⟨hnamed, List.forall_mem_singleton.2 hvalue⟩
    next => exact quotes_unexpected rfl

theorem quotes_objectLiteral (hrules : rules.Quote tokens) :
    Quotes tokens (NamedExpr tokens) (objectLiteral rules) := by
  unfold objectLiteral
  apply quotes_advance_bind
  intro token
  apply quotes_bind (quotes_commaSeparated (quotes_property hrules))
  intro properties hproperties
  refine quotes_expect_bind nofun rfl fun _ => ?_
  apply quotes_spanFrom_bind
  intro span
  exact quotes_node fun node => spelled_object.2 hproperties

theorem quotes_expressionsUpTo {close : TokenKind} {expected : Expected} (hclose : close ≠ .eof)
    (htag : expected.tag? = none) (hrules : rules.Quote tokens) :
    Quotes tokens (fun es => ∀ e ∈ es, NamedExpr tokens e)
      (expressionsUpTo rules close expected) := by
  unfold expressionsUpTo
  apply quotes_bind (quotes_commaSeparated hrules.conditional)
  intro items hitems
  exact quotes_expect_bind hclose htag fun _ => quotes_pure hitems

theorem quotes_leaf {build : Node → Expr} (hbuild : ∀ node, NamedExpr tokens (build node)) :
    Quotes tokens (NamedExpr tokens) (leaf build) := by
  unfold leaf
  apply quotes_advance_bind
  intro token
  exact quotes_node hbuild

theorem quotes_primary {tag : Parse Tag} (hrules : rules.Quote tokens)
    (htag : Quotes tokens (fun t => Named tokens (.tag t)) tag) :
    Quotes tokens (NamedExpr tokens) (primary rules tag) := by
  unfold primary
  apply quotes_token_bind
  intro token htoken
  split
  case h_1 | h_2 | h_3 | h_4 | h_6 => exact quotes_leaf fun _ => by simp
  case h_5 hkind =>
    have hname : IsName tokens token.lexeme :=
      ⟨token, htoken (by simp [hkind]), by rw [hkind]; rfl, rfl⟩
    exact quotes_leaf fun _ => spelled_identifier.2 hname
  case h_7 =>
    apply quotes_advance_bind
    intro _
    apply quotes_bind (quotes_nested hrules.conditional)
    intro inner hinner
    exact quotes_expect_bind nofun rfl fun _ => quotes_pure hinner
  case h_8 =>
    have hlist : Quotes tokens (fun es => ∀ e ∈ es, NamedExpr tokens e)
        (expressionsUpTo rules .rbracket .arrayEnd) := quotes_expressionsUpTo nofun rfl hrules
    apply quotes_advance_bind
    intro _
    apply quotes_bind (quotes_nested hlist)
    intro items hitems
    apply quotes_spanFrom_bind
    intro span
    exact quotes_node fun _ => spelled_array.2 hitems
  case h_9 => exact quotes_nested (quotes_objectLiteral hrules)
  case h_10 =>
    apply quotes_bind (quotes_nested htag)
    intro tag htag
    exact quotes_node fun _ => spelled_tagExpr.2 htag
  case h_11 => exact quotes_unexpected rfl

theorem isName_of_isMemberName {kind : TokenKind} (h : isMemberName kind = true) :
    kind.isName = true := by
  unfold TokenKind.isName
  split
  · rfl
  · rfl
  · exact h

theorem quotes_suffix {object : Expr} (hrules : rules.Quote tokens)
    (hobject : NamedExpr tokens object) :
    Quotes tokens (TurnIs (NamedExpr tokens) (NamedExpr tokens)) (suffix rules object) := by
  unfold suffix
  apply quotes_get_bind
  intro s
  split
  · have hlist : Quotes tokens (fun es => ∀ e ∈ es, NamedExpr tokens e)
        (expressionsUpTo rules .rparen .argumentsEnd) := quotes_expressionsUpTo nofun rfl hrules
    apply quotes_advance_bind
    intro _
    apply quotes_bind (quotes_nested hlist)
    intro arguments harguments
    apply quotes_spanFrom_bind
    intro span
    exact quotes_node fun _ => spelled_call.2 ⟨hobject, harguments⟩
  · apply quotes_advance_bind
    -- The kind that is looked at is that of the token that is taken.
    intro _ t ht
    rw [ends_kind_bind]
    split
    next hmember =>
      rw [ends_advance_bind]
      have hkind : t.kind ≠ .eof := by
        intro heof
        rw [heof] at hmember
        cases hmember
      have hname : IsName tokens t.peek.lexeme :=
        ⟨t.peek, ht.peek_mem hkind, isName_of_isMemberName hmember, rfl⟩
      exact ⟨⟨ht.next.rest, ht.next.reported⟩, spelled_member.2 ⟨hname, hobject⟩⟩
    next => exact quotes_unexpected rfl t ht
  · split
    · apply quotes_advance_bind
      intro _
      apply quotes_bind (quotes_nested hrules.conditional)
      intro index hindex
      refine quotes_expect_bind nofun rfl fun _ => ?_
      apply quotes_spanFrom_bind
      intro span
      exact quotes_node fun _ => spelled_index.2 ⟨hobject, hindex⟩
    · exact quotes_pure hobject
  · exact quotes_pure hobject

theorem quotes_operand {tag : Parse Tag} (hrules : rules.Quote tokens)
    (htag : Quotes tokens (fun t => Named tokens (.tag t)) tag) :
    Quotes tokens (NamedExpr tokens) (operand rules tag) := by
  unfold operand
  apply quotes_bind (quotes_primary hrules htag)
  intro object hobject
  exact quotes_iterate (fun _ => quotes_suffix hrules) hobject

/-! ## Operators -/

theorem quotes_unaryRule {tag : Parse Tag} (hrules : rules.Quote tokens)
    (htag : Quotes tokens (fun t => Named tokens (.tag t)) tag) :
    Quotes tokens (NamedExpr tokens) (unaryRule rules tag) := by
  unfold unaryRule
  apply quotes_peek_bind
  intro token
  split
  · apply quotes_advance_bind
    intro _
    apply quotes_bind hrules.unary
    intro operand hoperand
    exact quotes_node fun _ => spelled_unary.2 hoperand
  · split
    · apply quotes_advance_bind
      intro _
      apply quotes_bind hrules.unary
      intro operand hoperand
      exact quotes_node fun _ => spelled_await.2 hoperand
    · exact quotes_operand hrules htag

theorem quotes_binaryStep {least : Nat} {left : Expr} (hrules : rules.Quote tokens)
    (hleft : NamedExpr tokens left) :
    Quotes tokens (TurnIs (NamedExpr tokens) (NamedExpr tokens)) (binaryStep rules least left) := by
  unfold binaryStep
  apply quotes_kind_bind
  intro kind
  split
  · split
    · exact quotes_pure hleft
    · apply quotes_advance_bind
      intro _
      apply quotes_bind (hrules.binary _)
      intro right hright
      exact quotes_node fun _ => spelled_binary.2 ⟨hleft, hright⟩
  · exact quotes_pure hleft

theorem quotes_binaryRule {unary : Parse Expr} {least : Nat} (hrules : rules.Quote tokens)
    (hunary : Quotes tokens (NamedExpr tokens) unary) :
    Quotes tokens (NamedExpr tokens) (binaryRule rules unary least) := by
  unfold binaryRule
  apply quotes_bind hunary
  intro left hleft
  exact quotes_iterate (fun _ => quotes_binaryStep hrules) hleft

theorem quotes_conditionalRule {binary : Nat → Parse Expr} (hrules : rules.Quote tokens)
    (hbinary : ∀ least, Quotes tokens (NamedExpr tokens) (binary least)) :
    Quotes tokens (NamedExpr tokens) (conditionalRule rules binary) := by
  unfold conditionalRule
  apply quotes_bind (hbinary 1)
  intro test htest
  apply quotes_eat_if
  · apply quotes_bind (quotes_nested hrules.conditional)
    intro consequent hconsequent
    refine quotes_expect_bind nofun rfl fun _ => ?_
    apply quotes_bind hrules.conditional
    intro alternate halternate
    exact quotes_node fun _ => spelled_conditional.2 ⟨htest, hconsequent, halternate⟩
  · exact quotes_pure htest

/-! ## Tags -/

theorem quotes_attributeValue (hrules : rules.Quote tokens) :
    Quotes tokens (NamedExpr tokens) (attributeValue rules) := by
  unfold attributeValue
  apply quotes_peek_bind
  intro token
  split
  case h_1 =>
    apply quotes_advance_bind
    intro _
    apply quotes_bind hrules.conditional
    intro value hvalue
    exact quotes_expect_bind nofun rfl fun _ => quotes_pure hvalue
  case h_2 | h_3 | h_4 | h_5 => exact quotes_leaf fun _ => by simp
  case h_6 => exact quotes_unexpected rfl

theorem quotes_tagAttribute (hrules : rules.Quote tokens) :
    Quotes tokens (fun item => Named tokens (.attribute item)) (tagAttribute rules) := by
  unfold tagAttribute
  apply quotes_advance_bind
  intro name
  apply quotes_eat_bind
  intro taken
  apply quotes_ite_bind (quotes_some (quotes_attributeValue hrules)) quotes_none
  intro value hvalue
  apply quotes_spanFrom_bind
  intro span
  exact quotes_pure (spelled_attribute.2 hvalue)

/-- The attributes read so far have their names from the tokens. -/
abbrev NamedHead (tokens : List Token) (head : TagHead) : Prop :=
  ∀ item ∈ head.attributes, Named tokens (.attribute item)

abbrev NamedMarkup (tokens : List Token) (items : List Markup) : Prop :=
  ∀ item ∈ items, Named tokens (.markup item)

section Named

variable {name : String} (hname : IsName tokens name)

include hname

theorem quotes_tagHeadStep {head : TagHead} (hrules : rules.Quote tokens)
    (hhead : NamedHead tokens head) :
    Quotes tokens (TurnIs (NamedHead tokens) fun result => NamedHead tokens result.1)
      (tagHeadStep rules name head) := by
  unfold tagHeadStep
  apply quotes_peek_bind
  intro token
  split
  case h_1 | h_2 =>
    apply quotes_bind (quotes_tagAttribute hrules)
    intro added hadded
    exact quotes_pure (List.forall_mem_append.2 ⟨hhead, List.forall_mem_singleton.2 hadded⟩)
  case h_3 | h_4 | h_5 => exact quotes_advance_bind fun _ => quotes_pure hhead
  case h_6 =>
    apply quotes_unexpected_tag
    rintro _ ⟨⟩
    exact hname

omit hname in
theorem named_appendText {children : List Markup} {word : Token}
    (h : NamedMarkup tokens children) : NamedMarkup tokens (appendText children word) := by
  unfold appendText
  split
  next content span hlast =>
    refine List.forall_mem_append.2 ⟨fun child hchild => ?_, ?_⟩
    · exact h child ((List.dropLast_sublist _).subset hchild)
    · exact List.forall_mem_singleton.2 spelled_text
  next => exact List.forall_mem_append.2 ⟨h, List.forall_mem_singleton.2 spelled_text⟩

theorem quotes_childStep {children : List Markup} (hrules : rules.Quote tokens)
    (h : NamedMarkup tokens children) :
    Quotes tokens (TurnIs (NamedMarkup tokens) (NamedMarkup tokens))
      (childStep rules name children) := by
  have hmore {child : Markup} (hchild : Named tokens (.markup child)) :
      NamedMarkup tokens (children ++ [child]) :=
    List.forall_mem_append.2 ⟨h, List.forall_mem_singleton.2 hchild⟩
  unfold childStep
  apply quotes_token_bind
  intro token htoken
  split
  case h_1 hkind =>
    split
    · exact quotes_advance_bind fun _ => quotes_pure h
    · have hclosed : IsName tokens token.lexeme :=
        ⟨token, htoken (by simp [hkind]), by rw [hkind]; rfl, rfl⟩
      exact quotes_fail
        (List.forall_mem_cons.2 ⟨hname, List.forall_mem_singleton.2 hclosed⟩) rfl
  case h_2 =>
    apply quotes_bind hrules.tag
    intro tag htag
    exact quotes_pure (hmore (spelled_markupTag.2 htag))
  case h_3 =>
    apply quotes_advance_bind
    intro _
    apply quotes_bind hrules.conditional
    intro value hvalue
    exact quotes_expect_bind nofun rfl fun _ =>
      quotes_pure (hmore (spelled_markupExpr.2 hvalue))
  case h_4 => exact quotes_advance_bind fun _ => quotes_pure (named_appendText h)
  case h_5 => exact quotes_fail (List.forall_mem_singleton.2 hname) rfl
  case h_6 =>
    apply quotes_unexpected_tag
    rintro _ ⟨⟩
    exact hname

end Named

theorem quotes_tagRule (hrules : rules.Quote tokens) :
    Quotes tokens (fun t => Named tokens (.tag t)) (tagRule rules) := by
  have hopen : Quotes tokens (fun t => t.kind = .tagOpen ∧ t ∈ tokens) (expect .tagOpen .tag) :=
    quotes_expect nofun rfl
  unfold tagRule
  apply quotes_bind hopen
  rintro opening ⟨hkind, hmem⟩
  have hname : IsName tokens opening.lexeme := ⟨opening, hmem, by rw [hkind]; rfl, rfl⟩
  apply quotes_bind (quotes_iterate (fun _ => quotes_tagHeadStep hname hrules)
    (List.forall_mem_nil _))
  rintro ⟨head, selfClosing⟩ hhead
  apply quotes_ite_bind (quotes_pure (List.forall_mem_nil _))
    (quotes_iterate (fun _ => quotes_childStep hname hrules) (List.forall_mem_nil _))
  intro children hchildren
  apply quotes_spanFrom_bind
  intro span
  exact quotes_pure (spelled_tag.2 ⟨hname, hhead, hchildren⟩)

/-! ## All expressions -/

theorem quote_exprRules (depth : Nat) : (exprRules depth).Quote tokens := by
  induction depth with
  | zero =>
      have hlimit {α : Type} {Q : α → Prop} :
          Quotes tokens Q (fail .iterationLimit : Parse α) :=
        quotes_fail (List.forall_mem_nil _) rfl
      exact ⟨hlimit, fun _ => hlimit, hlimit, hlimit⟩
  | succ depth ih =>
      have htag : Quotes tokens (fun t => Named tokens (.tag t)) (exprRules (depth + 1)).tag :=
        quotes_tagRule ih
      have hunary : Quotes tokens (NamedExpr tokens) (exprRules (depth + 1)).unary :=
        quotes_unaryRule ih htag
      have hbinary : ∀ least,
          Quotes tokens (NamedExpr tokens) ((exprRules (depth + 1)).binary least) :=
        fun _ => quotes_binaryRule ih hunary
      exact ⟨quotes_conditionalRule ih hbinary, hbinary, hunary, htag⟩

theorem quotes_expression : Quotes tokens (NamedExpr tokens) expression :=
  quotes_of_eq (fun s => (quote_exprRules (s.rest.length + 1)).conditional) fun _ => rfl

theorem quotes_tag : Quotes tokens (fun t => Named tokens (.tag t)) tag :=
  quotes_of_eq (fun s => (quote_exprRules (s.rest.length + 1)).tag) fun _ => rfl

theorem quotes_headExpression : Quotes tokens (NamedExpr tokens) headExpression :=
  quotes_withHead quotes_expression

end ComponentLang.Grammar
