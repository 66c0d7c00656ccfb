import ComponentLang.Grammar.Markup
import ComponentLang.Grammar.TypeExpr
import ComponentLang.Proofs.Grammar.Ledger

/-!
# What expressions and tags account for

Every number given out while an expression is read belongs to a node in it, and type expressions
give out none. The rules are followed by induction on the depth, as in `keep_exprRules`; no depth
has to be enough, since a rule that stops at the limit makes no entries.
-/
namespace ComponentLang.Grammar

open Parse

/-! ## Type expressions -/

theorem idle_typeExprAtom {inner : Parse TypeExpr} (hinner : Idle inner) :
    Idle (typeExprAtom inner) := by
  unfold typeExprAtom
  apply builds_peek_bind
  intro token
  split
  case h_1 | h_2 =>
    apply builds_advance_bind
    intro _
    split
    · apply builds_eat_if
      · apply builds_idle_bind hinner
        intro element
        apply builds_expect_bind
        intro _
        exact builds_spanFrom_bind fun _ => builds_pure rfl
      · exact builds_pure rfl
    · exact builds_pure rfl
  case h_3 =>
    apply builds_advance_bind
    intro _
    apply builds_idle_bind hinner
    intro inside
    exact builds_expect_bind fun _ => builds_pure rfl
  case h_4 => exact builds_unexpected

theorem idle_suffixedTypeExpr {inner : Parse TypeExpr} (hinner : Idle inner) :
    Idle (suffixedTypeExpr inner) := by
  unfold suffixedTypeExpr
  apply builds_here_bind
  intro start
  apply builds_idle_bind (idle_typeExprAtom hinner)
  apply builds_iterate (n := fun _ => 0)
  intro a
  unfold typeExprSuffix
  apply builds_get_bind
  intro t
  split
  · apply builds_advance_bind
    intro _
    exact builds_spanFrom_bind fun _ => builds_pure rfl
  · split
    · apply builds_advance_bind
      intro _
      apply builds_advance_bind
      intro _
      exact builds_spanFrom_bind fun _ => builds_pure rfl
    · exact builds_pure rfl

theorem idle_typeExprRule {inner : Parse TypeExpr} (hinner : Idle inner) :
    Idle (typeExprRule inner) := by
  unfold typeExprRule
  apply builds_idle_bind (idle_suffixedTypeExpr hinner)
  intro first
  apply builds_kind_bind
  intro kind
  split
  · refine builds_idle_bind (builds_iterate (n := fun _ => 0) ?_ _) ?_
    · intro members
      unfold unionMember
      apply builds_eat_if
      · exact builds_idle_bind (idle_suffixedTypeExpr hinner) fun _ => builds_pure rfl
      · exact builds_pure rfl
    · intro members
      exact builds_spanFrom_bind fun _ => builds_pure rfl
  · exact builds_pure rfl

theorem idle_typeExpr : Idle typeExpr := by
  have hdepth : ∀ depth, Idle (typeExprAt depth) := by
    intro depth
    induction depth with
    | zero => exact builds_fail
    | succ depth ih => exact idle_typeExprRule ih
  exact builds_of_eq (fun s => hdepth (s.rest.length + 1)) fun _ => rfl

theorem idle_typeExpr? : Idle typeExpr? := by
  unfold typeExpr?
  apply builds_eat_if
  · exact builds_idle_bind idle_typeExpr fun _ => builds_pure rfl
  · exact builds_pure rfl

/-! ## Operands -/

/-- Every rule accounts for the numbers of what it reads. -/
structure ExprRules.Account (rules : ExprRules) : Prop where
  conditional : Builds 0 heldExpr rules.conditional
  binary (least : Nat) : Builds 0 heldExpr (rules.binary least)
  unary : Builds 0 heldExpr rules.unary
  tag : Builds 0 heldTag rules.tag

variable {rules : ExprRules}

theorem builds_propertyValue (hrules : rules.Account) :
    Builds 0 heldExpr (propertyValue rules) :=
  builds_eat_if hrules.conditional builds_unexpected

theorem builds_property (hrules : rules.Account) :
    Builds 0 (fun p => heldProperties [p]) (property rules) := by
  unfold property
  apply builds_peek_bind
  intro key
  split
  · apply builds_advance_bind
    intro _
    apply builds_then hrules.conditional
    intro computed
    apply builds_expect_bind
    intro _
    apply builds_then (builds_propertyValue hrules)
    intro value
    exact builds_pure (by simp [heldProperties, heldExpr, Walk.propertyList])
  · split
    · apply builds_advance_bind
      intro _
      apply builds_get_bind
      intro t
      split
      · apply builds_node_bind
        intro node
        exact builds_pure (by
          simp [heldProperties, Walk.propertyList, Walk.expr, partHolding, Expr.node])
      · apply builds_then (builds_propertyValue hrules)
        intro value
        exact builds_pure (by simp [heldProperties, heldExpr, Walk.propertyList])
    · exact builds_unexpected

theorem builds_objectLiteral (hrules : rules.Account) :
    Builds 0 heldExpr (objectLiteral rules) := by
  unfold objectLiteral
  apply builds_advance_bind
  intro token
  apply builds_then (builds_commaSeparated (builds_property hrules) rfl heldProperties_concat)
  intro properties
  apply builds_expect_bind
  intro _
  apply builds_spanFrom_bind
  intro span
  apply builds_node_bind
  intro node
  exact builds_pure (by
    simp [heldExpr, heldProperties, Walk.expr, partHolding, Expr.node, add_comm])

theorem builds_expressionsUpTo {close : TokenKind} {expected : Expected}
    (hrules : rules.Account) : Builds 0 heldExprs (expressionsUpTo rules close expected) := by
  unfold expressionsUpTo
  apply builds_then (builds_commaSeparated hrules.conditional rfl heldExprs_concat)
  intro items
  exact builds_expect_bind fun _ => builds_pure (zero_add _)

theorem builds_leaf {build : Node → Expr}
    (hbuild : ∀ node, heldExpr (build node) = .number node.id) :
    Builds 0 heldExpr (leaf build) := by
  unfold leaf
  apply builds_advance_bind
  intro token
  apply builds_node_bind
  intro node
  exact builds_pure (by rw [hbuild, zero_add])

theorem builds_primary {tag : Parse Tag} (hrules : rules.Account)
    (htag : Builds 0 heldTag tag) : Builds 0 heldExpr (primary rules tag) := by
  unfold primary
  apply builds_peek_bind
  intro token
  split
  case h_1 | h_2 | h_3 | h_4 | h_5 | h_6 =>
    exact builds_leaf fun node => by simp [heldExpr, Walk.expr, partHolding, Expr.node]
  case h_7 =>
    apply builds_advance_bind
    intro _
    apply builds_then (builds_nested hrules.conditional)
    intro inner
    exact builds_expect_bind fun _ => builds_pure (zero_add _)
  case h_8 =>
    apply builds_advance_bind
    intro _
    apply builds_then (builds_nested (builds_expressionsUpTo hrules))
    intro items
    apply builds_spanFrom_bind
    intro span
    apply builds_node_bind
    intro node
    exact builds_pure (by simp [heldExpr, heldExprs, Walk.expr, partHolding, Expr.node, add_comm])
  case h_9 => exact builds_nested (builds_objectLiteral hrules)
  case h_10 =>
    apply builds_then (builds_nested htag)
    intro tag
    apply builds_node_bind
    intro node
    exact builds_pure (by simp [heldExpr, heldTag, Walk.expr, partHolding, Expr.node, add_comm])
  case h_11 => exact builds_unexpected

theorem builds_suffix {object : Expr} (hrules : rules.Account) :
    Builds (heldExpr object) (turnHolding heldExpr heldExpr) (suffix rules object) := by
  unfold suffix
  apply builds_get_bind
  intro s
  split
  · apply builds_advance_bind
    intro _
    apply builds_then (builds_nested (builds_expressionsUpTo hrules))
    intro arguments
    apply builds_spanFrom_bind
    intro span
    apply builds_node_bind
    intro node
    exact builds_pure (by
      simp [turnHolding, heldExpr, heldExprs, Walk.expr, partHolding, Expr.node, add_comm])
  · apply builds_advance_bind
    intro _
    apply builds_kind_bind
    intro kind
    split
    · apply builds_advance_bind
      intro property
      apply builds_spanFrom_bind
      intro span
      apply builds_node_bind
      intro node
      exact builds_pure (by
        simp [turnHolding, heldExpr, Walk.expr, partHolding, Expr.node, add_comm])
    · exact builds_unexpected
  · split
    · apply builds_advance_bind
      intro _
      apply builds_then (builds_nested hrules.conditional)
      intro index
      apply builds_expect_bind
      intro _
      apply builds_spanFrom_bind
      intro span
      apply builds_node_bind
      intro node
      exact builds_pure (by
        simp [turnHolding, heldExpr, Walk.expr, partHolding, Expr.node, add_comm])
    · exact builds_pure rfl
  · exact builds_pure rfl

theorem builds_operand {tag : Parse Tag} (hrules : rules.Account)
    (htag : Builds 0 heldTag tag) : Builds 0 heldExpr (operand rules tag) := by
  unfold operand
  apply builds_bind (builds_primary hrules htag)
  intro object
  exact builds_iterate (fun _ => builds_suffix hrules) object

/-! ## Operators -/

theorem builds_unaryRule {tag : Parse Tag} (hrules : rules.Account)
    (htag : Builds 0 heldTag tag) : Builds 0 heldExpr (unaryRule rules tag) := by
  unfold unaryRule
  apply builds_peek_bind
  intro token
  split
  · apply builds_advance_bind
    intro _
    apply builds_then hrules.unary
    intro operand
    apply builds_node_bind
    intro node
    exact builds_pure (by simp [heldExpr, Walk.expr, partHolding, Expr.node, add_comm])
  · split
    · apply builds_advance_bind
      intro _
      apply builds_then hrules.unary
      intro operand
      apply builds_node_bind
      intro node
      exact builds_pure (by simp [heldExpr, Walk.expr, partHolding, Expr.node, add_comm])
    · exact builds_operand hrules htag

theorem builds_binaryStep {least : Nat} {left : Expr} (hrules : rules.Account) :
    Builds (heldExpr left) (turnHolding heldExpr heldExpr) (binaryStep rules least left) := by
  unfold binaryStep
  apply builds_kind_bind
  intro kind
  split
  · split
    · exact builds_pure rfl
    · apply builds_advance_bind
      intro _
      apply builds_then (hrules.binary _)
      intro right
      apply builds_node_bind
      intro node
      exact builds_pure (by
        simp [turnHolding, heldExpr, Walk.expr, partHolding, Expr.node, add_comm])
  · exact builds_pure rfl

theorem builds_binaryRule {unary : Parse Expr} {least : Nat} (hrules : rules.Account)
    (hunary : Builds 0 heldExpr unary) : Builds 0 heldExpr (binaryRule rules unary least) := by
  unfold binaryRule
  apply builds_bind hunary
  intro left
  exact builds_iterate (fun _ => builds_binaryStep hrules) left

theorem builds_conditionalRule {binary : Nat → Parse Expr} (hrules : rules.Account)
    (hbinary : ∀ least, Builds 0 heldExpr (binary least)) :
    Builds 0 heldExpr (conditionalRule rules binary) := by
  unfold conditionalRule
  apply builds_bind (hbinary 1)
  intro test
  apply builds_eat_if
  · apply builds_then (builds_nested hrules.conditional)
    intro consequent
    apply builds_expect_bind
    intro _
    apply builds_then hrules.conditional
    intro alternate
    apply builds_node_bind
    intro node
    exact builds_pure (by simp [heldExpr, Walk.expr, partHolding, Expr.node, add_comm, add_assoc])
  · exact builds_pure rfl

/-! ## Tags -/

theorem builds_attributeValue (hrules : rules.Account) :
    Builds 0 heldExpr (attributeValue rules) := by
  unfold attributeValue
  apply builds_peek_bind
  intro token
  split
  case h_1 =>
    apply builds_advance_bind
    intro _
    apply builds_then hrules.conditional
    intro value
    exact builds_expect_bind fun _ => builds_pure (zero_add _)
  case h_2 | h_3 | h_4 | h_5 =>
    exact builds_leaf fun node => by simp [heldExpr, Walk.expr, partHolding, Expr.node]
  case h_6 => exact builds_unexpected

theorem heldAttributes_singleton (name : String) (value : Option Expr) (event : Bool)
    (span : Span) :
    heldAttributes [⟨name, value, event, span⟩] = someHolding heldExpr value := by
  cases value <;> simp [heldAttributes, heldExpr, someHolding, Walk.attributeList, partHolding]

theorem builds_tagAttribute (hrules : rules.Account) :
    Builds 0 (fun a => heldAttributes [a]) (tagAttribute rules) := by
  unfold tagAttribute
  apply builds_advance_bind
  intro name
  apply builds_eat_bind
  intro taken
  apply builds_ite_bind (builds_some (builds_attributeValue hrules)) builds_none
  intro value
  apply builds_spanFrom_bind
  intro span
  exact builds_pure (by rw [heldAttributes_singleton, zero_add])

/-- The attributes read so far stand for their values. -/
theorem builds_tagHeadStep {name : String} {head : TagHead} (hrules : rules.Account) :
    Builds (heldAttributes head.attributes)
      (turnHolding (fun head => heldAttributes head.attributes)
        fun result => heldAttributes result.1.attributes)
      (tagHeadStep rules name head) := by
  unfold tagHeadStep
  apply builds_peek_bind
  intro token
  split
  case h_1 | h_2 =>
    apply builds_then (builds_tagAttribute hrules)
    intro added
    exact builds_pure (heldAttributes_concat _ _).symm
  case h_3 => exact builds_advance_bind fun _ => builds_pure rfl
  case h_4 | h_5 => exact builds_advance_bind fun _ => builds_pure rfl
  case h_6 => exact builds_unexpected

theorem heldMarkups_tag (t : Tag) : heldMarkups [.tag t] = heldTag t := by
  simp [heldMarkups, heldTag, Walk.markups, Walk.markup, partHolding]

theorem heldMarkups_expr (e : Expr) : heldMarkups [.expr e] = heldExpr e := by
  simp [heldMarkups, heldExpr, Walk.markups, Walk.markup, partHolding]

theorem heldMarkups_text (content : String) (span : Span) :
    heldMarkups [.text content span] = 0 := by
  simp [heldMarkups, Walk.markups, Walk.markup, partHolding]

theorem heldMarkups_appendText (children : List Markup) (word : Token) :
    heldMarkups (appendText children word) = heldMarkups children := by
  unfold appendText
  split
  next content span hlast =>
    obtain ⟨before, rfl⟩ := List.getLast?_eq_some_iff.1 hlast
    rw [List.dropLast_concat, heldMarkups_append, heldMarkups_append, heldMarkups_text,
      heldMarkups_text]
  next => rw [heldMarkups_append, heldMarkups_text, add_zero]

theorem builds_childStep {name : String} {children : List Markup} (hrules : rules.Account) :
    Builds (heldMarkups children) (turnHolding heldMarkups heldMarkups)
      (childStep rules name children) := by
  unfold childStep
  apply builds_peek_bind
  intro token
  split
  case h_1 =>
    split
    · exact builds_advance_bind fun _ => builds_pure rfl
    · exact builds_fail
  case h_2 =>
    apply builds_then hrules.tag
    intro tag
    exact builds_pure (by rw [turnHolding, heldMarkups_append, heldMarkups_tag])
  case h_3 =>
    apply builds_advance_bind
    intro _
    apply builds_then hrules.conditional
    intro value
    apply builds_expect_bind
    intro _
    exact builds_pure (by rw [turnHolding, heldMarkups_append, heldMarkups_expr])
  case h_4 =>
    apply builds_advance_bind
    intro _
    exact builds_pure (heldMarkups_appendText children token).symm
  case h_5 => exact builds_fail
  case h_6 => exact builds_unexpected

theorem builds_tagRule (hrules : rules.Account) : Builds 0 heldTag (tagRule rules) := by
  unfold tagRule
  apply builds_expect_bind
  intro opening
  apply builds_bind (builds_iterate (fun _ => builds_tagHeadStep hrules) ⟨[], []⟩)
  rintro ⟨head, selfClosing⟩
  refine builds_ite_bind (n := heldMarkups) (builds_pure rfl)
    (builds_iterate (fun _ => builds_childStep hrules) []) ?_
  intro children
  apply builds_spanFrom_bind
  intro span
  exact builds_pure (by
    simp [heldTag, heldAttributes, heldMarkups, Walk.tag, partHolding])

/-! ## All expressions -/

theorem account_exprRules (depth : Nat) : (exprRules depth).Account := by
  induction depth with
  | zero => exact ⟨builds_fail, fun _ => builds_fail, builds_fail, builds_fail⟩
  | succ depth ih =>
      have htag : Builds 0 heldTag (exprRules (depth + 1)).tag := builds_tagRule ih
      have hunary : Builds 0 heldExpr (exprRules (depth + 1)).unary := builds_unaryRule ih htag
      have hbinary : ∀ least, Builds 0 heldExpr ((exprRules (depth + 1)).binary least) :=
        fun _ => builds_binaryRule ih hunary
      exact ⟨builds_conditionalRule ih hbinary, hbinary, hunary, htag⟩

theorem builds_expression : Builds 0 heldExpr expression :=
  builds_of_eq (fun s => (account_exprRules (s.rest.length + 1)).conditional) fun _ => rfl

theorem builds_tag : Builds 0 heldTag tag :=
  builds_of_eq (fun s => (account_exprRules (s.rest.length + 1)).tag) fun _ => rfl

theorem builds_headExpression : Builds 0 heldExpr headExpression :=
  builds_withHead builds_expression

end ComponentLang.Grammar
