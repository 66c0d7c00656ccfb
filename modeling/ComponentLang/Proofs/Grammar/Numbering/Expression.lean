import ComponentLang.Proofs.Grammar.Ledger.Expression
import ComponentLang.Proofs.Grammar.Numbering

/-!
# The numbers of expressions

An expression gets its number when its operands have theirs. The rules are followed by induction on
the depth, as in the ledger.
-/
namespace ComponentLang.Grammar

open Parse TreePart

/-- Every rule reads a tree that is below the next number. -/
structure ExprRules.Rank (rules : ExprRules) : Prop where
  conditional : Ranks [] (fun e => [.expr e]) rules.conditional
  binary (least : Nat) : Ranks [] (fun e => [.expr e]) (rules.binary least)
  unary : Ranks [] (fun e => [.expr e]) rules.unary
  tag : Ranks [] (fun t => [.tag t]) rules.tag

variable {rules : ExprRules}

/-! ## Operands -/

theorem ranks_propertyValue (hrules : rules.Rank) :
    Ranks [] (fun e => [.expr e]) (propertyValue rules) :=
  ranks_eat_if hrules.conditional ranks_unexpected

theorem ranks_property (hrules : rules.Rank) :
    Ranks [] (fun p => p.exprs.map .expr) (property rules) := by
  unfold property
  apply ranks_peek_bind
  intro key
  split
  · apply ranks_advance_bind
    intro _
    apply ranks_then hrules.conditional
    intro computed
    apply ranks_expect_bind
    intro _
    apply ranks_then (ranks_propertyValue hrules)
    intro value
    exact ranks_pure fun _ h => h
  · split
    · apply ranks_advance_bind
      intro _
      apply ranks_get_bind
      intro t
      split
      · exact ranks_node (fun _ => rfl) (fun _ => rfl) fun _ _ => by simp [Expr.children]
      · apply ranks_then (ranks_propertyValue hrules)
        intro value
        exact ranks_pure fun _ h => h
    · exact ranks_unexpected

theorem ranks_objectLiteral (hrules : rules.Rank) :
    Ranks [] (fun e => [.expr e]) (objectLiteral rules) := by
  unfold objectLiteral
  apply ranks_advance_bind
  intro token
  apply ranks_then (ranks_commaSeparated (ranks_property hrules))
  intro properties
  apply ranks_expect_bind
  intro _
  apply ranks_spanFrom_bind
  intro span
  refine ranks_node (fun _ => rfl) (fun _ => rfl) fun node h => ?_
  rwa [Expr.children, List.map_flatMap]

theorem ranks_expressionsUpTo {close : TokenKind} {expected : Expected} (hrules : rules.Rank) :
    Ranks [] (fun es => es.map .expr) (expressionsUpTo rules close expected) := by
  unfold expressionsUpTo
  apply ranks_then (ranks_commaSeparated hrules.conditional)
  intro items
  refine ranks_expect_bind fun _ => ranks_pure fun bound h => ?_
  rwa [List.map_eq_flatMap]

theorem ranks_leaf {build : Node → Expr} (hnode : ∀ node, (build node).node = node)
    (hchildren : ∀ node bound, AllBelow bound (build node).children) :
    Ranks [] (fun e => [.expr e]) (leaf build) := by
  unfold leaf
  apply ranks_advance_bind
  intro token
  exact ranks_node (fun _ => rfl) hnode fun node _ => hchildren node node.id

theorem ranks_primary {tag : Parse Tag} (hrules : rules.Rank)
    (htag : Ranks [] (fun t => [.tag t]) tag) :
    Ranks [] (fun e => [.expr e]) (primary rules tag) := by
  unfold primary
  apply ranks_peek_bind
  intro token
  split
  case h_1 | h_2 | h_3 | h_4 | h_5 | h_6 =>
    exact ranks_leaf (fun _ => rfl) fun _ _ => by simp [Expr.children]
  case h_7 =>
    apply ranks_advance_bind
    intro _
    apply ranks_then (ranks_nested hrules.conditional)
    intro inner
    exact ranks_expect_bind fun _ => ranks_pure fun _ h => h
  case h_8 =>
    apply ranks_advance_bind
    intro _
    apply ranks_then (ranks_nested (ranks_expressionsUpTo hrules))
    intro items
    apply ranks_spanFrom_bind
    intro span
    exact ranks_node (fun _ => rfl) (fun _ => rfl) fun _ h => h
  case h_9 => exact ranks_nested (ranks_objectLiteral hrules)
  case h_10 =>
    apply ranks_then (ranks_nested htag)
    intro tag
    exact ranks_node (fun _ => rfl) (fun _ => rfl) fun _ h => h
  case h_11 => exact ranks_unexpected

theorem ranks_suffix {object : Expr} (hrules : rules.Rank) :
    Ranks [.expr object] (turnParts (fun e => [.expr e]) fun e => [.expr e])
      (suffix rules object) := by
  unfold suffix
  apply ranks_get_bind
  intro s
  split
  · apply ranks_advance_bind
    intro _
    apply ranks_then (ranks_nested (ranks_expressionsUpTo hrules))
    intro arguments
    apply ranks_spanFrom_bind
    intro span
    exact ranks_node (fun _ => rfl) (fun _ => rfl) fun _ h => h
  · apply ranks_advance_bind
    intro _
    apply ranks_kind_bind
    intro kind
    split
    · apply ranks_advance_bind
      intro property
      apply ranks_spanFrom_bind
      intro span
      exact ranks_node (fun _ => rfl) (fun _ => rfl) fun _ h => h
    · exact ranks_unexpected
  · split
    · apply ranks_advance_bind
      intro _
      apply ranks_then (ranks_nested hrules.conditional)
      intro index
      apply ranks_expect_bind
      intro _
      apply ranks_spanFrom_bind
      intro span
      exact ranks_node (fun _ => rfl) (fun _ => rfl) fun _ h => h
    · exact ranks_pure fun _ h => h
  · exact ranks_pure fun _ h => h

theorem ranks_operand {tag : Parse Tag} (hrules : rules.Rank)
    (htag : Ranks [] (fun t => [.tag t]) tag) :
    Ranks [] (fun e => [.expr e]) (operand rules tag) := by
  unfold operand
  apply ranks_bind (ranks_primary hrules htag)
  intro object
  exact ranks_iterate (fun _ => ranks_suffix hrules) object

/-! ## Operators -/

theorem ranks_unaryRule {tag : Parse Tag} (hrules : rules.Rank)
    (htag : Ranks [] (fun t => [.tag t]) tag) :
    Ranks [] (fun e => [.expr e]) (unaryRule rules tag) := by
  unfold unaryRule
  apply ranks_peek_bind
  intro token
  split
  · apply ranks_advance_bind
    intro _
    apply ranks_then hrules.unary
    intro operand
    exact ranks_node (fun _ => rfl) (fun _ => rfl) fun _ h => h
  · split
    · apply ranks_advance_bind
      intro _
      apply ranks_then hrules.unary
      intro operand
      exact ranks_node (fun _ => rfl) (fun _ => rfl) fun _ h => h
    · exact ranks_operand hrules htag

theorem ranks_binaryStep {least : Nat} {left : Expr} (hrules : rules.Rank) :
    Ranks [.expr left] (turnParts (fun e => [.expr e]) fun e => [.expr e])
      (binaryStep rules least left) := by
  unfold binaryStep
  apply ranks_kind_bind
  intro kind
  split
  · split
    · exact ranks_pure fun _ h => h
    · apply ranks_advance_bind
      intro _
      apply ranks_then (hrules.binary _)
      intro right
      exact ranks_node (fun _ => rfl) (fun _ => rfl) fun _ h => h
  · exact ranks_pure fun _ h => h

theorem ranks_binaryRule {unary : Parse Expr} {least : Nat} (hrules : rules.Rank)
    (hunary : Ranks [] (fun e => [.expr e]) unary) :
    Ranks [] (fun e => [.expr e]) (binaryRule rules unary least) := by
  unfold binaryRule
  apply ranks_bind hunary
  intro left
  exact ranks_iterate (fun _ => ranks_binaryStep hrules) left

theorem ranks_conditionalRule {binary : Nat → Parse Expr} (hrules : rules.Rank)
    (hbinary : ∀ least, Ranks [] (fun e => [.expr e]) (binary least)) :
    Ranks [] (fun e => [.expr e]) (conditionalRule rules binary) := by
  unfold conditionalRule
  apply ranks_bind (hbinary 1)
  intro test
  apply ranks_eat_if
  · apply ranks_then (ranks_nested hrules.conditional)
    intro consequent
    apply ranks_expect_bind
    intro _
    apply ranks_then hrules.conditional
    intro alternate
    exact ranks_node (fun _ => rfl) (fun _ => rfl) fun _ h => h
  · exact ranks_pure fun _ h => h

/-! ## Tags -/

theorem ranks_attributeValue (hrules : rules.Rank) :
    Ranks [] (fun e => [.expr e]) (attributeValue rules) := by
  unfold attributeValue
  apply ranks_peek_bind
  intro token
  split
  case h_1 =>
    apply ranks_advance_bind
    intro _
    apply ranks_then hrules.conditional
    intro value
    exact ranks_expect_bind fun _ => ranks_pure fun _ h => h
  case h_2 | h_3 | h_4 | h_5 =>
    exact ranks_leaf (fun _ => rfl) fun _ _ => by simp [Expr.children]
  case h_6 => exact ranks_unexpected

theorem ranks_tagAttribute (hrules : rules.Rank) :
    Ranks [] (fun a => [.attribute a]) (tagAttribute rules) := by
  unfold tagAttribute
  apply ranks_advance_bind
  intro name
  apply ranks_eat_bind
  intro taken
  apply ranks_ite_bind (ranks_some (ranks_attributeValue hrules)) ranks_none
  intro value
  apply ranks_spanFrom_bind
  intro span
  exact ranks_pure fun _ h => by simpa using h

theorem ranks_tagHeadStep {name : String} {head : TagHead} (hrules : rules.Rank) :
    Ranks (head.attributes.map .attribute)
      (turnParts (fun head => head.attributes.map .attribute)
        fun result => result.1.attributes.map .attribute)
      (tagHeadStep rules name head) := by
  unfold tagHeadStep
  apply ranks_peek_bind
  intro token
  split
  case h_1 | h_2 =>
    apply ranks_then (ranks_tagAttribute hrules)
    intro added
    exact ranks_pure fun _ h => by simpa [turnParts] using h
  case h_3 => exact ranks_advance_bind fun _ => ranks_pure fun _ h => h
  case h_4 | h_5 => exact ranks_advance_bind fun _ => ranks_pure fun _ h => h
  case h_6 => exact ranks_unexpected

/-- Text has no numbers. -/
theorem allBelow_appendText {bound : Nat} {children : List Markup} (word : Token)
    (h : AllBelow bound (children.map .markup)) :
    AllBelow bound ((appendText children word).map .markup) := by
  unfold appendText
  split
  next content span hlast =>
    obtain ⟨before, rfl⟩ := List.getLast?_eq_some_iff.1 hlast
    simpa [Markup.children] using h
  next => simpa [Markup.children] using h

theorem ranks_childStep {name : String} {children : List Markup} (hrules : rules.Rank) :
    Ranks (children.map .markup)
      (turnParts (fun children => children.map .markup) fun children => children.map .markup)
      (childStep rules name children) := by
  unfold childStep
  apply ranks_peek_bind
  intro token
  split
  case h_1 =>
    split
    · exact ranks_advance_bind fun _ => ranks_pure fun _ h => h
    · exact ranks_fail
  case h_2 =>
    apply ranks_then hrules.tag
    intro tag
    exact ranks_pure fun _ h => by simpa [turnParts, Markup.children] using h
  case h_3 =>
    apply ranks_advance_bind
    intro _
    apply ranks_then hrules.conditional
    intro value
    apply ranks_expect_bind
    intro _
    exact ranks_pure fun _ h => by simpa [turnParts, Markup.children] using h
  case h_4 =>
    apply ranks_advance_bind
    intro _
    exact ranks_pure fun _ h => allBelow_appendText token h
  case h_5 => exact ranks_fail
  case h_6 => exact ranks_unexpected

theorem ranks_tagRule (hrules : rules.Rank) : Ranks [] (fun t => [.tag t]) (tagRule rules) := by
  unfold tagRule
  apply ranks_expect_bind
  intro opening
  apply ranks_bind (ranks_iterate (fun _ => ranks_tagHeadStep hrules) ⟨[], []⟩)
  rintro ⟨head, selfClosing⟩
  have hchildren : Ranks [] (fun children => children.map .markup)
      (iterate (childStep rules opening.lexeme) []) :=
    ranks_iterate (n := fun children => children.map .markup)
      (fun _ => ranks_childStep hrules) []
  apply ranks_ite_bind (ranks_pure fun _ h => h) hchildren
  intro children
  apply ranks_spanFrom_bind
  intro span
  exact ranks_pure fun _ h => by simpa using h

/-! ## All expressions -/

theorem rank_exprRules (depth : Nat) : (exprRules depth).Rank := by
  induction depth with
  | zero => exact ⟨ranks_fail, fun _ => ranks_fail, ranks_fail, ranks_fail⟩
  | succ depth ih =>
      have htag : Ranks [] (fun t => [.tag t]) (exprRules (depth + 1)).tag := ranks_tagRule ih
      have hunary : Ranks [] (fun e => [.expr e]) (exprRules (depth + 1)).unary :=
        ranks_unaryRule ih htag
      have hbinary : ∀ least,
          Ranks [] (fun e => [.expr e]) ((exprRules (depth + 1)).binary least) :=
        fun _ => ranks_binaryRule ih hunary
      exact ⟨ranks_conditionalRule ih hbinary, hbinary, hunary, htag⟩

theorem ranks_expression : Ranks [] (fun e => [.expr e]) expression :=
  ranks_of_eq (fun s => (rank_exprRules (s.rest.length + 1)).conditional) fun _ => rfl

theorem ranks_tag : Ranks [] (fun t => [.tag t]) tag :=
  ranks_of_eq (fun s => (rank_exprRules (s.rest.length + 1)).tag) fun _ => rfl

theorem ranks_headExpression : Ranks [] (fun e => [.expr e]) headExpression :=
  ranks_withHead ranks_expression

end ComponentLang.Grammar
