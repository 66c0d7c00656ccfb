import ComponentLang.Grammar.Markup
import ComponentLang.Proofs.Grammar.Beside

/-!
# Expressions and tags, side by side

Two sets of rules that end alike where fewer than `n` tokens are to come make rules that end alike
where `n` are. A rule uses the rules below it only after it has taken a token.
-/
namespace ComponentLang.Grammar

open Parse

/-- Beside each other the two sets of rules end alike wherever fewer than `n` tokens are to come. -/
structure ExprRules.Pair (B : State → State → Prop) (ν : Node → Node) (n : Nat)
    (rules rules' : ExprRules) : Prop where
  conditional {s t : State} (hst : B s t) (hn : s.rest.length < n) :
    Beside B (Relabel.expr ν) rules.conditional rules'.conditional s t
  binary (least : Nat) {s t : State} (hst : B s t) (hn : s.rest.length < n) :
    Beside B (Relabel.expr ν) (rules.binary least) (rules'.binary least) s t
  unary {s t : State} (hst : B s t) (hn : s.rest.length < n) :
    Beside B (Relabel.expr ν) rules.unary rules'.unary s t
  tag {s t : State} (hst : B s t) (hn : s.rest.length < n) :
    Beside B (Relabel.tag ν) rules.tag rules'.tag s t

theorem span_relabel (B : State → State → Prop) {ν : Node → Node} [Pairing B ν] (e : Expr) :
    (Relabel.expr ν e).span = e.span := by
  unfold Expr.span
  rw [Relabel.node_expr, Pairing.span B]

variable {B : State → State → Prop} {ν : Node → Node} [Pairing B ν] {s t : State}
variable {rules rules' : ExprRules} {n : Nat}

/-! ## Operands -/

theorem beside_propertyValue (hrules : rules.Pair B ν n rules') (hst : B s t)
    (hn : s.rest.length < n) :
    Beside B (Relabel.expr ν) (propertyValue rules) (propertyValue rules') s t := by
  have hle := State.length_rest_next s
  unfold propertyValue
  apply beside_eat_if hst
  · intro _ hnext
    exact hrules.conditional hnext (by omega)
  · intro _
    exact beside_unexpected hst _

theorem beside_property (hrules : rules.Pair B ν n rules') (hst : B s t)
    (hn : s.rest.length < n) :
    Beside B (Relabel.property ν) (property rules) (property rules') s t := by
  have hle := State.length_rest_next s
  unfold property
  apply beside_peek_bind hst
  split
  · apply beside_advance_bind hst
    intro hnext
    apply beside_bind (hrules.conditional hnext (by omega))
    intro computed s' t' hst' hle'
    apply beside_expect_bind hst'
    intro _ hnext'
    have hle'' := State.length_rest_next s'
    apply beside_bind (beside_propertyValue hrules hnext' (by omega))
    intro value u v huv _
    exact beside_pure huv (Property.computed computed value)
  · split
    · apply beside_advance_bind hst
      intro hnext
      apply beside_get_bind
      rw [Pairing.kind hnext]
      split
      · apply beside_node_bind hnext
        intro node u v huv _
        exact beside_pure huv (Property.named s.peek.lexeme (.identifier node s.peek.lexeme))
      · apply beside_bind (beside_propertyValue hrules hnext (by omega))
        intro value u v huv _
        exact beside_pure huv (Property.named s.peek.lexeme value)
    · exact beside_unexpected hst _

theorem beside_objectLiteral (hrules : rules.Pair B ν n rules') (hst : B s t)
    (hn : s.rest.length ≤ n) (hkind : s.kind ≠ .eof) :
    Beside B (Relabel.expr ν) (objectLiteral rules) (objectLiteral rules') s t := by
  have hless := State.length_next_lt hkind
  unfold objectLiteral
  apply beside_advance_bind hst
  intro hnext
  refine beside_bind (beside_commaSeparated (m := Relabel.property ν) hnext ?_) ?_
  · intro s' t' hst' hle
    exact beside_property hrules hst' (by omega)
  · intro properties s' t' hst' _
    apply beside_expect_bind hst'
    intro _ hnext'
    apply beside_spanFrom_bind hnext'
    apply beside_node_bind hnext'
    intro node u v huv _
    rw [← Relabel.propertyList_eq_map]
    exact beside_pure huv (Expr.object node properties)

theorem beside_expressionsUpTo {close : TokenKind} {expected : Expected}
    (hrules : rules.Pair B ν n rules') (hst : B s t) (hn : s.rest.length < n) :
    Beside B (Relabel.exprs ν) (expressionsUpTo rules close expected)
      (expressionsUpTo rules' close expected) s t := by
  unfold expressionsUpTo
  refine beside_bind (beside_commaSeparated (m := Relabel.expr ν) hst ?_) ?_
  · intro s' t' hst' hle
    exact hrules.conditional hst' (by omega)
  · intro items s' t' hst' _
    apply beside_expect_bind hst'
    intro _ hnext
    rw [← Relabel.exprs_eq_map]
    exact beside_pure hnext items

theorem beside_leaf {build build' : Node → Expr} (hst : B s t)
    (hbuild : ∀ node, build' (ν node) = Relabel.expr ν (build node)) :
    Beside B (Relabel.expr ν) (leaf build) (leaf build') s t := by
  unfold leaf
  apply beside_advance_bind hst
  intro hnext
  apply beside_node_bind hnext
  intro node s' t' hst' _
  rw [hbuild]
  exact beside_pure hst' (build node)

theorem beside_primary {tag tag' : Parse Tag} (hrules : rules.Pair B ν n rules')
    (hst : B s t) (hn : s.rest.length ≤ n)
    (htag : ∀ {s t}, B s t → s.rest.length ≤ n → Beside B (Relabel.tag ν) tag tag' s t) :
    Beside B (Relabel.expr ν) (primary rules tag) (primary rules' tag') s t := by
  have hfewer : s.peek.kind ≠ .eof → s.next.rest.length < n := by
    intro hkind
    have hless := State.length_next_lt hkind
    omega
  unfold primary
  apply beside_peek_bind hst
  split
  case h_1 | h_2 | h_3 | h_4 | h_5 | h_6 => exact beside_leaf hst fun _ => rfl
  case h_7 hkind =>
    have hless := hfewer (by simp [hkind])
    apply beside_advance_bind hst
    intro hnext
    apply beside_bind (beside_nested hnext fun hst' => hrules.conditional hst' hless)
    intro inner s' t' hst' _
    apply beside_expect_bind hst'
    intro _ hnext'
    exact beside_pure hnext' inner
  case h_8 hkind =>
    have hless := hfewer (by simp [hkind])
    apply beside_advance_bind hst
    intro hnext
    apply beside_bind (beside_nested hnext fun hst' => beside_expressionsUpTo hrules hst' hless)
    intro items s' t' hst' _
    apply beside_spanFrom_bind hst'
    apply beside_node_bind hst'
    intro node u v huv _
    exact beside_pure huv (Expr.array node items)
  case h_9 hkind =>
    have hbrace : s.kind ≠ .eof := by simp [State.kind, hkind]
    exact beside_nested hst fun hst' => beside_objectLiteral hrules hst' hn hbrace
  case h_10 =>
    apply beside_bind (beside_nested hst fun hst' => htag hst' hn)
    intro tag s' t' hst' _
    rw [Relabel.span_tag]
    apply beside_node_bind hst'
    intro node u v huv _
    exact beside_pure huv (Expr.tag node tag)
  case h_11 => exact beside_unexpected hst _

theorem beside_suffix {object : Expr} (hrules : rules.Pair B ν n rules') (hst : B s t)
    (hn : s.rest.length ≤ n) :
    Beside B (Turn.map (Relabel.expr ν) (Relabel.expr ν)) (suffix rules object)
      (suffix rules' (Relabel.expr ν object)) s t := by
  unfold suffix
  apply beside_get_bind
  rw [Pairing.kind hst, Pairing.inHead hst, Pairing.here hst, span_relabel B]
  split
  next hkind =>
    have hless := State.length_next_lt (s := s) (by simp [hkind])
    apply beside_advance_bind hst
    intro hnext
    apply beside_bind (beside_nested hnext fun hst' =>
      beside_expressionsUpTo hrules hst' (by simp; omega))
    intro arguments s' t' hst' _
    apply beside_spanFrom_bind hst'
    apply beside_node_bind hst'
    intro node u v huv _
    exact beside_again huv (Expr.call node object arguments)
  next hkind =>
    apply beside_advance_bind hst
    intro hnext
    apply beside_kind_bind hnext
    split
    · apply beside_advance_bind hnext
      intro hnext'
      apply beside_spanFrom_bind hnext'
      apply beside_node_bind hnext'
      intro node u v huv _
      exact beside_again huv (Expr.member node object s.next.peek.lexeme)
    · exact beside_unexpected hnext _
  next hkind =>
    split
    · have hless := State.length_next_lt (s := s) (by simp [hkind])
      apply beside_advance_bind hst
      intro hnext
      apply beside_bind (beside_nested hnext fun hst' =>
        hrules.conditional hst' (by simp; omega))
      intro index s' t' hst' _
      apply beside_expect_bind hst'
      intro _ hnext'
      apply beside_spanFrom_bind hnext'
      apply beside_node_bind hnext'
      intro node u v huv _
      exact beside_again huv (Expr.index node object index)
    · exact beside_done hst object
  next => exact beside_done hst object

theorem beside_operand {tag tag' : Parse Tag} (hrules : rules.Pair B ν n rules')
    (hst : B s t) (hn : s.rest.length ≤ n)
    (htag : ∀ {s t}, B s t → s.rest.length ≤ n → Beside B (Relabel.tag ν) tag tag' s t) :
    Beside B (Relabel.expr ν) (operand rules tag) (operand rules' tag') s t := by
  unfold operand
  apply beside_bind (beside_primary hrules hst hn htag)
  intro object s' t' hst' hle
  apply beside_iterate hst'
  intro object u v huv hle'
  exact beside_suffix hrules huv (by omega)

/-! ## Operators -/

theorem beside_unaryRule {tag tag' : Parse Tag} (hrules : rules.Pair B ν n rules')
    (hst : B s t) (hn : s.rest.length ≤ n)
    (htag : ∀ {s t}, B s t → s.rest.length ≤ n → Beside B (Relabel.tag ν) tag tag' s t) :
    Beside B (Relabel.expr ν) (unaryRule rules tag) (unaryRule rules' tag') s t := by
  unfold unaryRule
  apply beside_peek_bind hst
  split
  next op hop =>
    have hless := State.length_next_lt (s := s) (by
      intro hkind
      have hpeek : s.peek.kind = .eof := hkind
      simp [hpeek, unaryOp?] at hop)
    apply beside_advance_bind hst
    intro hnext
    apply beside_bind (hrules.unary hnext (by omega))
    intro operand s' t' hst' _
    rw [span_relabel B]
    apply beside_node_bind hst'
    intro node u v huv _
    exact beside_pure huv (Expr.unary node op operand)
  next =>
    split
    next hkind =>
      have hless := State.length_next_lt (s := s) (by simp [State.kind, hkind])
      apply beside_advance_bind hst
      intro hnext
      apply beside_bind (hrules.unary hnext (by omega))
      intro operand s' t' hst' _
      rw [span_relabel B]
      apply beside_node_bind hst'
      intro node u v huv _
      exact beside_pure huv (Expr.await node operand)
    next => exact beside_operand hrules hst hn htag

theorem beside_binaryStep {least : Nat} {left : Expr} (hrules : rules.Pair B ν n rules')
    (hst : B s t) (hn : s.rest.length ≤ n) :
    Beside B (Turn.map (Relabel.expr ν) (Relabel.expr ν)) (binaryStep rules least left)
      (binaryStep rules' least (Relabel.expr ν left)) s t := by
  unfold binaryStep
  apply beside_kind_bind hst
  split
  next op level hop =>
    have hless := State.length_next_lt (s := s) (by
      intro hkind
      simp [hkind, binaryOp?] at hop)
    split
    · exact beside_done hst left
    · apply beside_advance_bind hst
      intro hnext
      apply beside_bind (hrules.binary _ hnext (by omega))
      intro right s' t' hst' _
      rw [span_relabel B, span_relabel B]
      apply beside_node_bind hst'
      intro node u v huv _
      exact beside_again huv (Expr.binary node left op right)
  next => exact beside_done hst left

theorem beside_binaryRule {unary unary' : Parse Expr} (least : Nat)
    (hrules : rules.Pair B ν n rules') (hn : s.rest.length ≤ n)
    (hunary : Beside B (Relabel.expr ν) unary unary' s t) :
    Beside B (Relabel.expr ν) (binaryRule rules unary least) (binaryRule rules' unary' least)
      s t := by
  unfold binaryRule
  apply beside_bind hunary
  intro left s' t' hst' hle
  apply beside_iterate hst'
  intro left u v huv hle'
  exact beside_binaryStep hrules huv (by omega)

theorem beside_conditionalRule {binary binary' : Nat → Parse Expr}
    (hrules : rules.Pair B ν n rules') (hn : s.rest.length ≤ n)
    (hbinary : Beside B (Relabel.expr ν) (binary 1) (binary' 1) s t) :
    Beside B (Relabel.expr ν) (conditionalRule rules binary) (conditionalRule rules' binary')
      s t := by
  unfold conditionalRule
  apply beside_bind hbinary
  intro test s' t' hst' hle
  apply beside_eat_if hst'
  · intro hkind hnext
    have hless := State.length_next_lt (s := s') (by simp [hkind])
    apply beside_bind (beside_nested hnext fun hst' => hrules.conditional hst' (by simp; omega))
    intro consequent u v huv hle'
    apply beside_expect_bind huv
    intro _ hnext'
    have hle'' := State.length_rest_next u
    apply beside_bind (hrules.conditional hnext' (by omega))
    intro alternate u' v' huv' _
    rw [span_relabel B, span_relabel B]
    apply beside_node_bind huv'
    intro node u'' v'' huv'' _
    exact beside_pure huv'' (Expr.conditional node test consequent alternate)
  · intro _
    exact beside_pure hst' test

/-! ## Tags -/

theorem beside_attributeValue (hrules : rules.Pair B ν n rules') (hst : B s t)
    (hn : s.rest.length < n) :
    Beside B (Relabel.expr ν) (attributeValue rules) (attributeValue rules') s t := by
  unfold attributeValue
  apply beside_peek_bind hst
  split
  case h_1 =>
    have hle := State.length_rest_next s
    apply beside_advance_bind hst
    intro hnext
    apply beside_bind (hrules.conditional hnext (by omega))
    intro value s' t' hst' _
    apply beside_expect_bind hst'
    intro _ hnext'
    exact beside_pure hnext' value
  case h_2 | h_3 | h_4 | h_5 => exact beside_leaf hst fun _ => rfl
  case h_6 => exact beside_unexpected hst _

theorem beside_tagAttribute (hrules : rules.Pair B ν n rules') (hst : B s t)
    (hn : s.rest.length ≤ n) (hkind : s.kind ≠ .eof) :
    Beside B (Relabel.tagAttribute ν) (tagAttribute rules) (tagAttribute rules') s t := by
  have hless := State.length_next_lt hkind
  unfold tagAttribute
  apply beside_advance_bind hst
  intro hnext
  apply beside_eat_ite_bind (m := Relabel.expr? ν) hnext
  · intro _ hnext'
    have hle := State.length_rest_next s.next
    have hvalue := beside_attributeValue hrules hnext' (by omega)
    exact beside_map hvalue fun _ => rfl
  · exact beside_pure hnext none
  · intro value s' t' hst' _
    apply beside_spanFrom_bind hst'
    exact beside_pure hst' (Attribute.mk s.peek.lexeme value _ _)

/-- The attributes of a tag with other nodes; the styles have none. -/
def TagHead.relabel (ν : Node → Node) (head : TagHead) : TagHead :=
  { head with attributes := Relabel.attributeList ν head.attributes }

theorem beside_tagHeadStep {name : String} {head : TagHead} (hrules : rules.Pair B ν n rules')
    (hst : B s t) (hn : s.rest.length ≤ n) :
    Beside B (Turn.map (TagHead.relabel ν) fun result => (result.1.relabel ν, result.2))
      (tagHeadStep rules name head) (tagHeadStep rules' name (head.relabel ν)) s t := by
  unfold tagHeadStep
  apply beside_peek_bind hst
  split
  case h_1 hkind | h_2 hkind =>
    have hname : s.kind ≠ .eof := by simp [State.kind, hkind]
    apply beside_bind (beside_tagAttribute hrules hst hn hname)
    intro added s' t' hst' _
    have hadded : ({ head.relabel ν with attributes :=
        (head.relabel ν).attributes ++ [Relabel.tagAttribute ν added] } : TagHead) =
        TagHead.relabel ν { head with attributes := head.attributes ++ [added] } := by
      simp [TagHead.relabel, Relabel.attributeList_eq_map]
    rw [hadded]
    exact beside_again hst' _
  case h_3 =>
    apply beside_advance_bind hst
    intro hnext
    exact beside_again hnext { head with styles := _ }
  case h_4 =>
    apply beside_advance_bind hst
    intro hnext
    exact beside_done hnext (head, true)
  case h_5 =>
    apply beside_advance_bind hst
    intro hnext
    exact beside_done hnext (head, false)
  case h_6 => exact beside_unexpected hst _

omit [Pairing B ν] in
theorem markups_appendText (children : List Markup) (word : Token) :
    appendText (Relabel.markups ν children) word = Relabel.markups ν (appendText children word) := by
  simp only [Relabel.markups_eq_map]
  unfold appendText
  rw [List.getLast?_map]
  rcases hlast : children.getLast? with _ | (t | ⟨content, span⟩ | e)
  · simp [Relabel.markup]
  · simp [Relabel.markup]
  · simp [Relabel.markup, List.map_dropLast]
  · simp [Relabel.markup]

theorem beside_childStep {name : String} {children : List Markup}
    (hrules : rules.Pair B ν n rules') (hst : B s t) (hn : s.rest.length < n) :
    Beside B (Turn.map (Relabel.markups ν) (Relabel.markups ν)) (childStep rules name children)
      (childStep rules' name (Relabel.markups ν children)) s t := by
  have hconcat : ∀ added, Relabel.markups ν children ++ [Relabel.markup ν added] =
      Relabel.markups ν (children ++ [added]) := by
    simp [Relabel.markups_eq_map]
  unfold childStep
  apply beside_peek_bind hst
  split
  case h_1 =>
    split
    · apply beside_advance_bind hst
      intro hnext
      exact beside_done hnext children
    · exact beside_fail hst _
  case h_2 =>
    apply beside_bind (hrules.tag hst hn)
    intro tag s' t' hst' _
    rw [← Relabel.markup, hconcat]
    exact beside_again hst' _
  case h_3 =>
    have hle := State.length_rest_next s
    apply beside_advance_bind hst
    intro hnext
    apply beside_bind (hrules.conditional hnext (by omega))
    intro value s' t' hst' _
    apply beside_expect_bind hst'
    intro _ hnext'
    rw [← Relabel.markup, hconcat]
    exact beside_again hnext' _
  case h_4 =>
    apply beside_advance_bind hst
    intro hnext
    rw [markups_appendText]
    exact beside_again hnext _
  case h_5 => exact beside_fail hst _
  case h_6 => exact beside_unexpected hst _

theorem beside_tagRule (hrules : rules.Pair B ν n rules') (hst : B s t)
    (hn : s.rest.length ≤ n) :
    Beside B (Relabel.tag ν) (tagRule rules) (tagRule rules') s t := by
  unfold tagRule
  apply beside_expect_bind hst
  intro hkind hnext
  have hless := State.length_next_lt (s := s) (by simp [hkind])
  refine beside_bind (beside_iterate (k := TagHead.relabel ν)
    (m := fun result => (result.1.relabel ν, result.2)) hnext ?_ ⟨[], []⟩) ?_
  · intro head s' t' hst' hle
    exact beside_tagHeadStep hrules hst' (by omega)
  · rintro ⟨head, selfClosing⟩ s' t' hst' hle
    refine beside_ite_bind (m := Relabel.markups ν) (beside_pure hst' [])
      (beside_iterate (k := Relabel.markups ν) hst' ?_ []) ?_
    · intro children u v huv hle'
      exact beside_childStep hrules huv (by omega)
    · intro children u v huv _
      apply beside_spanFrom_bind huv
      exact beside_pure huv (Tag.mk s.peek.lexeme head.attributes head.styles children selfClosing _)

/-! ## All expressions -/

theorem pair_exprRules {depth depth' : Nat} (hn : n ≤ depth) (hn' : n ≤ depth') :
    (exprRules depth).Pair B ν n (exprRules depth') := by
  induction n generalizing depth depth' with
  | zero =>
      constructor
      all_goals
        intros
        omega
  | succ n ih =>
      obtain ⟨depth, rfl⟩ : ∃ d, depth = d + 1 := ⟨depth - 1, by omega⟩
      obtain ⟨depth', rfl⟩ : ∃ d, depth' = d + 1 := ⟨depth' - 1, by omega⟩
      have hrules : (exprRules depth).Pair B ν n (exprRules depth') := ih (by omega) (by omega)
      have htag : ∀ {s t : State}, B s t → s.rest.length ≤ n →
          Beside B (Relabel.tag ν) (exprRules (depth + 1)).tag (exprRules (depth' + 1)).tag s t :=
        fun hst hn => (beside_tagRule hrules hst hn).of_eq rfl rfl
      have hunary : ∀ {s t : State}, B s t → s.rest.length ≤ n →
          Beside B (Relabel.expr ν) (exprRules (depth + 1)).unary (exprRules (depth' + 1)).unary
            s t :=
        fun hst hn => (beside_unaryRule hrules hst hn htag).of_eq rfl rfl
      have hbinary : ∀ least {s t : State}, B s t → s.rest.length ≤ n →
          Beside B (Relabel.expr ν) ((exprRules (depth + 1)).binary least)
            ((exprRules (depth' + 1)).binary least) s t :=
        fun _ _ _ hst hn => (beside_binaryRule _ hrules hn (hunary hst hn)).of_eq rfl rfl
      constructor
      · intro s t hst hn
        have hle : s.rest.length ≤ n := by omega
        exact (beside_conditionalRule hrules hle (hbinary 1 hst hle)).of_eq rfl rfl
      · intro least s t hst hn
        exact hbinary least hst (by omega)
      · intro s t hst hn
        exact hunary hst (by omega)
      · intro s t hst hn
        exact htag hst (by omega)

theorem beside_expression (hst : B s t) :
    Beside B (Relabel.expr ν) expression expression s t := by
  have hlength : t.rest.length = s.rest.length := congrArg List.length (Pairing.rest hst)
  have hrules := pair_exprRules (B := B) (ν := ν) (n := s.rest.length + 1) (Nat.le_refl _)
    (Nat.le_of_eq (congrArg (· + 1) hlength.symm))
  exact (hrules.conditional hst (Nat.lt_succ_self _)).of_eq rfl rfl

theorem beside_tag (hst : B s t) : Beside B (Relabel.tag ν) tag tag s t := by
  have hlength : t.rest.length = s.rest.length := congrArg List.length (Pairing.rest hst)
  have hrules := pair_exprRules (B := B) (ν := ν) (n := s.rest.length + 1) (Nat.le_refl _)
    (Nat.le_of_eq (congrArg (· + 1) hlength.symm))
  exact (hrules.tag hst (Nat.lt_succ_self _)).of_eq rfl rfl

theorem beside_headExpression (hst : B s t) :
    Beside B (Relabel.expr ν) headExpression headExpression s t :=
  beside_withHead hst beside_expression

end ComponentLang.Grammar
