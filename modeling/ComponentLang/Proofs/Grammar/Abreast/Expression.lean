import ComponentLang.Proofs.Grammar.Abreast

/-!
# Expressions and tags, abreast

The depth of the rules that are followed is the number of times that a rule may use another, and the
rules that follow may be deeper. Nothing is followed at no depth, where every rule fails.
-/
namespace ComponentLang.Grammar

open Parse
open State (Abreast Open)

variable {word : String → Prop} {more : Beyond} {s t : State}

/-- Each rule of the first set is followed by its counterpart in the second. -/
structure ExprRules.Mirror (word : String → Prop) (more : Beyond) (rules rules' : ExprRules) :
    Prop where
  conditional {s t : State} (hst : Open word more s t) :
    Mirrors word more (Expr.Agrees word) rules.conditional rules'.conditional s t
  binary (least : Nat) {s t : State} (hst : Open word more s t) :
    Mirrors word more (Expr.Agrees word) (rules.binary least) (rules'.binary least) s t
  unary {s t : State} (hst : Open word more s t) :
    Mirrors word more (Expr.Agrees word) rules.unary rules'.unary s t
  tag {s t : State} (hst : Open word more s t) :
    Mirrors word more (Tag.Agrees word) rules.tag rules'.tag s t

theorem State.ne_of_kind {kind other : TokenKind} (h : s.kind = kind) (hne : kind ≠ other) :
    s.kind ≠ other := h ▸ hne

section Rules

variable {rules rules' : ExprRules} (hrules : rules.Mirror word more rules')

/-! ## Operands -/

theorem mirrors_leaf {build build' : Node → Expr} (hst : Open word more s t)
    (hkind : s.kind ≠ .semicolon) (hbuild : ∀ node, (build node).Agrees word (build' node)) :
    Mirrors word more (Expr.Agrees word) (leaf build) (leaf build') s t := by
  unfold leaf
  apply tracks_advance_bind hst hkind
  intro token htoken hnext
  rw [htoken.span]
  apply tracks_node_bind hnext
  intro node s' t' hst'
  exact tracks_pure hst' (hbuild node)

include hrules

theorem mirrors_propertyValue (hst : Open word more s t) :
    Mirrors word more (Expr.Agrees word) (propertyValue rules) (propertyValue rules') s t := by
  unfold propertyValue
  apply tracks_eat_if hst (by simp)
  · intro _ hnext
    exact hrules.conditional hnext
  · intro _
    exact tracks_unexpected

theorem mirrors_property (hst : Open word more s t) :
    Mirrors word more (Property.Agrees word) (property rules) (property rules') s t := by
  unfold property
  apply tracks_peek_bind hst
  intro key hkey
  rw [hkey.kind]
  split
  next hkind =>
    apply tracks_advance_bind hst (State.ne_of_kind hkind (by simp))
    intro _ _ hnext
    apply tracks_bind (hrules.conditional hnext)
    intro computed computed' s' t' hcomputed hst'
    apply tracks_expect_bind hst' (by simp)
    intro _ _ _ hnext'
    apply tracks_bind (mirrors_propertyValue hrules hnext')
    intro value value' u v hvalue huv
    exact tracks_pure huv (.computed hcomputed hvalue)
  next =>
    split
    next hpropertyKey =>
      have hkind : s.kind ≠ .semicolon := by
        intro hkind
        rw [show s.peek.kind = .semicolon from hkind] at hpropertyKey
        cases hpropertyKey
      apply tracks_advance_bind hst hkind
      intro _ _ hnext
      apply tracks_get_bind
      rw [hnext.kind]
      split
      next hname =>
        have hplain : s.peek.kind.isWord = false := by
          simp only [Bool.and_eq_true, decide_eq_true_eq] at hname
          rw [hname.1]
          rfl
        rw [hkey.span, hkey.lexeme_eq hplain]
        apply tracks_node_bind hnext
        intro node u v huv
        exact tracks_pure huv (.named (fun _ => rfl) (.refl _))
      next =>
        apply tracks_bind (mirrors_propertyValue hrules hnext)
        intro value value' u v hvalue huv
        exact tracks_pure huv (.named hkey.name_eq hvalue)
    next => exact tracks_unexpected

theorem mirrors_objectLiteral (hst : Open word more s t) (hkind : s.kind = .lbrace) :
    Mirrors word more (Expr.Agrees word) (objectLiteral rules) (objectLiteral rules') s t := by
  unfold objectLiteral
  apply tracks_advance_bind hst (State.ne_of_kind hkind (by simp))
  intro token htoken hnext
  apply tracks_bind (mirrors_commaSeparated hnext fun hst' => mirrors_property hrules hst')
  intro properties properties' s' t' hproperties hst'
  apply tracks_expect_bind hst' (by simp)
  intro _ _ _ hnext'
  rw [htoken.span]
  apply tracks_spanFrom_bind hnext'.toAbreast
  apply tracks_node_bind hnext'
  intro node u v huv
  exact tracks_pure huv (.object hproperties)

theorem mirrors_expressionsUpTo {close : TokenKind} {expected : Expected}
    (hst : Open word more s t) (hclose : close ≠ .semicolon) :
    Mirrors word more (List.Forall₂ (Expr.Agrees word)) (expressionsUpTo rules close expected)
      (expressionsUpTo rules' close expected) s t := by
  unfold expressionsUpTo
  apply tracks_bind (mirrors_commaSeparated hst fun hst' => hrules.conditional hst')
  intro items items' s' t' hitems hst'
  apply tracks_expect_bind hst' hclose
  intro _ _ _ hnext
  exact tracks_pure hnext hitems

theorem mirrors_primary {tag tag' : Parse Tag} (hst : Open word more s t)
    (htag : ∀ {s t}, Open word more s t → Mirrors word more (Tag.Agrees word) tag tag' s t) :
    Mirrors word more (Expr.Agrees word) (primary rules tag) (primary rules' tag') s t := by
  unfold primary
  apply tracks_peek_bind hst
  intro token htoken
  rw [htoken.kind]
  have hplain : s.peek.kind.isWord = false → token.lexeme = s.peek.lexeme := htoken.lexeme_eq
  split
  case h_1 hkind | h_2 hkind | h_5 hkind | h_6 hkind =>
    rw [hplain (by rw [hkind]; rfl)]
    exact mirrors_leaf hst (State.ne_of_kind hkind (by simp)) fun _ => .refl _
  case h_3 hkind =>
    rw [htoken.value hkind]
    exact mirrors_leaf hst (State.ne_of_kind hkind (by simp)) fun _ => .refl _
  case h_4 hkind => exact mirrors_leaf hst (State.ne_of_kind hkind (by simp)) fun _ => .refl _
  case h_7 hkind =>
    apply tracks_advance_bind hst (State.ne_of_kind hkind (by simp))
    intro _ _ hnext
    apply tracks_bind (mirrors_nested hnext fun hst' => hrules.conditional hst')
    intro inner inner' s' t' hinner hst'
    apply tracks_expect_bind hst' (by simp)
    intro _ _ _ hnext'
    exact tracks_pure hnext' hinner
  case h_8 hkind =>
    apply tracks_advance_bind hst (State.ne_of_kind hkind (by simp))
    intro _ _ hnext
    apply tracks_bind (mirrors_nested hnext fun hst' =>
      mirrors_expressionsUpTo hrules hst' (by simp))
    intro items items' s' t' hitems hst'
    rw [htoken.span]
    apply tracks_spanFrom_bind hst'.toAbreast
    apply tracks_node_bind hst'
    intro node u v huv
    exact tracks_pure huv (.array hitems)
  case h_9 hkind => exact mirrors_nested hst fun hst' => mirrors_objectLiteral hrules hst' hkind
  case h_10 =>
    apply tracks_bind (mirrors_nested hst fun hst' => htag hst')
    intro tag tag' s' t' htag hst'
    rw [htag.span]
    apply tracks_node_bind hst'
    intro node u v huv
    exact tracks_pure huv (.tag htag)
  case h_11 => exact tracks_unexpected

theorem mirrors_suffix {object object' : Expr} (hobject : object.Agrees word object')
    (hst : Open word more s t) :
    Tracks (Turn.Last Whatever) (Open word more) (Turn.Rel (Expr.Agrees word) (Expr.Agrees word))
      (suffix rules object) (suffix rules' object') s t := by
  unfold suffix
  apply tracks_get_bind
  rw [hst.kind, hst.inHead, hst.here, hobject.span]
  split
  next hkind =>
    apply tracks_advance_bind hst (State.ne_of_kind hkind (by simp))
    intro _ _ hnext
    apply tracks_bind (mirrors_nested hnext fun hst' =>
      mirrors_expressionsUpTo hrules hst' (by simp))
    intro arguments arguments' s' t' harguments hst'
    apply tracks_spanFrom_bind hst'.toAbreast
    apply tracks_node_bind hst'
    intro node u v huv
    exact tracks_again huv (.call hobject harguments)
  next hkind =>
    apply tracks_advance_bind hst (State.ne_of_kind hkind (by simp))
    intro _ _ hnext
    apply tracks_kind_bind hnext
    split
    next hmember =>
      have hsemicolon : s.next.kind ≠ .semicolon := by
        intro hsemicolon
        rw [hsemicolon] at hmember
        cases hmember
      apply tracks_advance_bind hnext hsemicolon
      intro name hname hnext'
      apply tracks_spanFrom_bind hnext'.toAbreast
      apply tracks_node_bind hnext'
      intro node u v huv
      exact tracks_again huv (.member hobject hname.name_eq)
    next => exact tracks_unexpected
  next hkind =>
    split
    · apply tracks_advance_bind hst (State.ne_of_kind hkind (by simp))
      intro _ _ hnext
      apply tracks_bind (mirrors_nested hnext fun hst' => hrules.conditional hst')
      intro index index' s' t' hindex hst'
      apply tracks_expect_bind hst' (by simp)
      intro _ _ _ hnext'
      apply tracks_spanFrom_bind hnext'.toAbreast
      apply tracks_node_bind hnext'
      intro node u v huv
      exact tracks_again huv (.index hobject hindex)
    · exact tracks_done hst hobject
  next => exact tracks_done hst hobject

theorem mirrors_operand {tag tag' : Parse Tag} (hst : Open word more s t)
    (htag : ∀ {s t}, Open word more s t → Mirrors word more (Tag.Agrees word) tag tag' s t) :
    Mirrors word more (Expr.Agrees word) (operand rules tag) (operand rules' tag') s t := by
  unfold operand
  apply tracks_bind (mirrors_primary hrules hst htag)
  intro object object' s' t' hobject hst'
  exact tracks_iterate hst' (fun hobject hst' => mirrors_suffix hrules hobject hst') hobject

/-! ## Operators -/

theorem mirrors_unaryRule {tag tag' : Parse Tag} (hst : Open word more s t)
    (htag : ∀ {s t}, Open word more s t → Mirrors word more (Tag.Agrees word) tag tag' s t) :
    Mirrors word more (Expr.Agrees word) (unaryRule rules tag) (unaryRule rules' tag') s t := by
  unfold unaryRule
  apply tracks_peek_bind hst
  intro token htoken
  rw [htoken.kind, htoken.span]
  split
  next op hop =>
    have hkind : s.kind ≠ .semicolon := by
      intro hkind
      rw [show s.peek.kind = .semicolon from hkind] at hop
      cases hop
    apply tracks_advance_bind hst hkind
    intro _ _ hnext
    apply tracks_bind (hrules.unary hnext)
    intro operand operand' s' t' hoperand hst'
    rw [hoperand.span]
    apply tracks_node_bind hst'
    intro node u v huv
    exact tracks_pure huv (.unary hoperand)
  next =>
    split
    next hkind =>
      apply tracks_advance_bind hst (State.ne_of_kind hkind (by simp))
      intro _ _ hnext
      apply tracks_bind (hrules.unary hnext)
      intro operand operand' s' t' hoperand hst'
      rw [hoperand.span]
      apply tracks_node_bind hst'
      intro node u v huv
      exact tracks_pure huv (.await hoperand)
    next => exact mirrors_operand hrules hst htag

theorem mirrors_binaryStep {least : Nat} {left left' : Expr} (hleft : left.Agrees word left')
    (hst : Open word more s t) :
    Tracks (Turn.Last Whatever) (Open word more) (Turn.Rel (Expr.Agrees word) (Expr.Agrees word))
      (binaryStep rules least left) (binaryStep rules' least left') s t := by
  unfold binaryStep
  apply tracks_kind_bind hst
  split
  next op level hop =>
    have hkind : s.kind ≠ .semicolon := by
      intro hkind
      rw [hkind] at hop
      cases hop
    split
    · exact tracks_done hst hleft
    · apply tracks_advance_bind hst hkind
      intro _ _ hnext
      apply tracks_bind (hrules.binary _ hnext)
      intro right right' s' t' hright hst'
      rw [hleft.span, hright.span]
      apply tracks_node_bind hst'
      intro node u v huv
      exact tracks_again huv (.binary hleft hright)
  next => exact tracks_done hst hleft

theorem mirrors_binaryRule {unary unary' : Parse Expr} {least : Nat}
    (hunary : Mirrors word more (Expr.Agrees word) unary unary' s t) :
    Mirrors word more (Expr.Agrees word) (binaryRule rules unary least)
      (binaryRule rules' unary' least) s t := by
  unfold binaryRule
  apply tracks_bind hunary
  intro left left' s' t' hleft hst'
  exact tracks_iterate hst' (fun hleft hst' => mirrors_binaryStep hrules hleft hst') hleft

theorem mirrors_conditionalRule {binary binary' : Nat → Parse Expr}
    (hbinary : Mirrors word more (Expr.Agrees word) (binary 1) (binary' 1) s t) :
    Mirrors word more (Expr.Agrees word) (conditionalRule rules binary)
      (conditionalRule rules' binary') s t := by
  unfold conditionalRule
  apply tracks_bind hbinary
  intro test test' s' t' htest hst'
  apply tracks_eat_if hst' (by simp)
  · intro _ hnext
    apply tracks_bind (mirrors_nested hnext fun hst' => hrules.conditional hst')
    intro consequent consequent' u v hconsequent huv
    apply tracks_expect_bind huv (by simp)
    intro _ _ _ hnext'
    apply tracks_bind (hrules.conditional hnext')
    intro alternate alternate' w x halternate hwx
    rw [htest.span, halternate.span]
    apply tracks_node_bind hwx
    intro node y z hyz
    exact tracks_pure hyz (.conditional htest hconsequent halternate)
  · intro _
    exact tracks_pure hst' htest

/-! ## Markup -/

theorem mirrors_attributeValue (hst : Open word more s t) :
    Mirrors word more (Expr.Agrees word) (attributeValue rules) (attributeValue rules') s t := by
  unfold attributeValue
  apply tracks_peek_bind hst
  intro token htoken
  rw [htoken.kind]
  have hplain : s.peek.kind.isWord = false → token.lexeme = s.peek.lexeme := htoken.lexeme_eq
  split
  case h_1 hkind =>
    apply tracks_advance_bind hst (State.ne_of_kind hkind (by simp))
    intro _ _ hnext
    apply tracks_bind (hrules.conditional hnext)
    intro value value' s' t' hvalue hst'
    apply tracks_expect_bind hst' (by simp)
    intro _ _ _ hnext'
    exact tracks_pure hnext' hvalue
  case h_2 hkind | h_3 hkind | h_4 hkind | h_5 hkind =>
    rw [hplain (by rw [hkind]; rfl)]
    exact mirrors_leaf hst (State.ne_of_kind hkind (by simp)) fun _ => .refl _
  case h_6 => exact tracks_unexpected

theorem mirrors_tagAttribute (hst : Open word more s t) (hkind : s.kind ≠ .semicolon)
    (hplain : s.kind.isWord = false) :
    Mirrors word more (Agrees word .attribute) (tagAttribute rules) (tagAttribute rules') s t := by
  unfold tagAttribute
  apply tracks_advance_bind hst hkind
  intro name hname hnext
  rw [hname.kind, hname.span, hname.lexeme_eq hplain]
  apply tracks_eat_ite_bind (Q := Option.Rel (Expr.Agrees word)) (D := Open word more) hnext
    (by simp)
  · intro _ hnext'
    exact tracks_map (mirrors_attributeValue hrules hnext') .some
  · exact tracks_pure hnext .none
  · intro value value' s' t' hvalue hst'
    apply tracks_spanFrom_bind hst'.toAbreast
    exact tracks_pure hst' (agrees_attribute hvalue)

/-- The heads of tags have the same styles, and their attributes agree. -/
def TagHead.Agrees (word : String → Prop) (head head' : TagHead) : Prop :=
  head'.styles = head.styles ∧ AgreesAll word .attribute head.attributes head'.attributes

theorem mirrors_tagHeadStep {name : String} {head head' : TagHead}
    (hhead : head.Agrees word head') (hst : Open word more s t) :
    Tracks (Turn.Last Whatever) (Open word more)
      (Turn.Rel (TagHead.Agrees word) fun read read' => read.1.Agrees word read'.1 ∧ read'.2 = read.2)
      (tagHeadStep rules name head) (tagHeadStep rules' name head') s t := by
  obtain ⟨attributes, styles⟩ := head
  obtain ⟨attributes', styles'⟩ := head'
  obtain ⟨hstyles, hattributes⟩ := hhead
  cases hstyles
  unfold tagHeadStep
  apply tracks_peek_bind hst
  intro token htoken
  rw [htoken.kind]
  split
  case h_1 hkind | h_2 hkind =>
    have hplain : s.kind ≠ .semicolon ∧ s.kind.isWord = false := by
      rw [show s.kind = s.peek.kind from rfl, hkind]
      exact ⟨by simp, rfl⟩
    apply tracks_bind (mirrors_tagAttribute hrules hst hplain.1 hplain.2)
    intro added added' s' t' hadded hst'
    exact tracks_again hst' ⟨rfl, hattributes.concat hadded⟩
  case h_3 hkind =>
    rw [htoken.lexeme_eq (by rw [hkind]; rfl)]
    apply tracks_advance_bind hst (State.ne_of_kind hkind (by simp))
    intro _ _ hnext
    exact tracks_again hnext ⟨rfl, hattributes⟩
  case h_4 hkind | h_5 hkind =>
    apply tracks_advance_bind hst (State.ne_of_kind hkind (by simp))
    intro _ _ hnext
    exact tracks_done hnext ⟨⟨rfl, hattributes⟩, rfl⟩
  case h_6 => exact tracks_unexpected

omit hrules in
/-- Text has no names in it, so nothing is in the way of the children before it. -/
theorem agreesAll_appendText {children children' : List Markup} {token : Token}
    (h : AgreesAll word .markup children children') :
    AgreesAll word .markup (appendText children token) (appendText children' token) := by
  intro hclear
  have hbefore : ∀ m ∈ children, (TreePart.markup m).Avoids word := by
    unfold appendText at hclear
    split at hclear
    next content span hlast =>
      obtain ⟨front, rfl⟩ := List.getLast?_eq_some_iff.1 hlast
      rw [List.dropLast_concat, List.forall_mem_append] at hclear
      rw [List.forall_mem_append, List.forall_mem_singleton]
      exact ⟨hclear.1, TreePart.avoids_text content span⟩
    next =>
      rw [List.forall_mem_append] at hclear
      exact hclear.1
  rw [h hbefore]

theorem mirrors_childStep {name : String} {children children' : List Markup}
    (hchildren : AgreesAll word .markup children children') (hst : Open word more s t) :
    Tracks (Turn.Last Whatever) (Open word more)
      (Turn.Rel (AgreesAll word .markup) (AgreesAll word .markup))
      (childStep rules name children) (childStep rules' name children') s t := by
  unfold childStep
  apply tracks_peek_bind hst
  intro token htoken
  rw [htoken.kind]
  split
  case h_1 hkind =>
    rw [htoken.lexeme_eq (by rw [hkind]; rfl)]
    split
    · apply tracks_advance_bind hst (State.ne_of_kind hkind (by simp))
      intro _ _ hnext
      exact tracks_done hnext hchildren
    · exact tracks_fail
  case h_2 =>
    apply tracks_bind (hrules.tag hst)
    intro tag tag' s' t' htag hst'
    exact tracks_again hst' (hchildren.concat htag.markup)
  case h_3 hkind =>
    apply tracks_advance_bind hst (State.ne_of_kind hkind (by simp))
    intro _ _ hnext
    apply tracks_bind (hrules.conditional hnext)
    intro value value' s' t' hvalue hst'
    apply tracks_expect_bind hst' (by simp)
    intro _ _ _ hnext'
    exact tracks_again hnext' (hchildren.concat hvalue.markup)
  case h_4 hkind =>
    have hsame : ∀ children, appendText children token = appendText children s.peek := by
      intro children
      unfold appendText
      rw [htoken.lexeme_eq (by rw [hkind]; rfl), htoken.span]
    rw [hsame]
    apply tracks_advance_bind hst (State.ne_of_kind hkind (by simp))
    intro _ _ hnext
    exact tracks_again hnext (agreesAll_appendText hchildren)
  case h_5 => exact tracks_fail
  case h_6 => exact tracks_unexpected

theorem mirrors_tagRule (hst : Open word more s t) :
    Mirrors word more (Tag.Agrees word) (tagRule rules) (tagRule rules') s t := by
  unfold tagRule
  apply tracks_expect_bind hst (by simp)
  intro opening hkind hopening hnext
  have hplain : s.peek.kind.isWord = false := by
    rw [show s.peek.kind = .tagOpen from hkind]
    rfl
  rw [hopening.lexeme_eq hplain, hopening.span]
  apply tracks_bind (tracks_iterate hnext
    (fun hhead hst' => mirrors_tagHeadStep hrules hhead hst') ⟨rfl, fun _ => rfl⟩)
  rintro ⟨⟨attributes, styles⟩, selfClosing⟩ ⟨⟨attributes', styles'⟩, selfClosing'⟩ s' t'
    ⟨⟨hstyles, hattributes⟩, hselfClosing⟩ hst'
  cases hstyles
  cases hselfClosing
  have hchildren : Mirrors word more (AgreesAll word .markup)
      (if selfClosing = true then pure [] else iterate (childStep rules s.peek.lexeme) [])
      (if selfClosing = true then pure [] else iterate (childStep rules' s.peek.lexeme) [])
      s' t' := by
    split
    · exact tracks_pure hst' fun _ => rfl
    · exact tracks_iterate hst' (fun hchildren hst' => mirrors_childStep hrules hchildren hst')
        fun _ => rfl
  have hend : ∀ {children children' : List Markup} {u v : State},
      AgreesAll word .markup children children' → Open word more u v →
      Mirrors word more (Tag.Agrees word) (do
        return Tag.mk s.peek.lexeme attributes styles children selfClosing
          (← spanFrom s.peek.span)) (do
        return Tag.mk s.peek.lexeme attributes' styles children' selfClosing
          (← spanFrom s.peek.span)) u v := by
    intro children children' u v hchildren huv
    apply tracks_spanFrom_bind huv.toAbreast
    exact tracks_pure huv (.of_parts hattributes hchildren)
  cases selfClosing with
  | true => exact hend (fun _ => rfl) hst'
  | false => exact tracks_bind hchildren hend

end Rules

/-! ## All expressions -/

/-- Rules are followed by rules that are no less deep. -/
theorem mirror_exprRules {depth depth' : Nat} (hle : depth ≤ depth') :
    (exprRules depth).Mirror word more (exprRules depth') := by
  induction depth generalizing depth' with
  | zero =>
      constructor
      · exact fun _ => tracks_fail
      · exact fun _ _ _ _ => tracks_fail
      · exact fun _ => tracks_fail
      · exact fun _ => tracks_fail
  | succ depth ih =>
      obtain ⟨depth', rfl⟩ : ∃ n, depth' = n + 1 := ⟨depth' - 1, by omega⟩
      have hrules : (exprRules depth).Mirror word more (exprRules depth') := ih (by omega)
      have htag : ∀ {s t : State}, Open word more s t → Mirrors word more (Tag.Agrees word)
          (exprRules (depth + 1)).tag (exprRules (depth' + 1)).tag s t :=
        fun hst => (mirrors_tagRule hrules hst).of_eq rfl rfl
      have hunary : ∀ {s t : State}, Open word more s t → Mirrors word more (Expr.Agrees word)
          (exprRules (depth + 1)).unary (exprRules (depth' + 1)).unary s t :=
        fun hst => (mirrors_unaryRule hrules hst htag).of_eq rfl rfl
      have hbinary : ∀ least {s t : State}, Open word more s t →
          Mirrors word more (Expr.Agrees word) ((exprRules (depth + 1)).binary least)
            ((exprRules (depth' + 1)).binary least) s t :=
        fun _ _ _ hst => (mirrors_binaryRule hrules (hunary hst)).of_eq rfl rfl
      constructor
      · exact fun hst => (mirrors_conditionalRule hrules (hbinary 1 hst)).of_eq rfl rfl
      · exact hbinary
      · exact hunary
      · exact htag

theorem mirrors_expression (hst : Open word more s t) :
    Mirrors word more (Expr.Agrees word) expression expression s t :=
  ((mirror_exprRules hst.length_le).conditional hst).of_eq rfl rfl

theorem mirrors_tag (hst : Open word more s t) :
    Mirrors word more (Tag.Agrees word) tag tag s t :=
  ((mirror_exprRules hst.length_le).tag hst).of_eq rfl rfl

theorem mirrors_headExpression (hst : Open word more s t) :
    Mirrors word more (Expr.Agrees word) headExpression headExpression s t :=
  mirrors_withHead hst fun hst' => mirrors_expression hst'

end ComponentLang.Grammar
