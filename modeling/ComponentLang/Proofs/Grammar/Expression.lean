import ComponentLang.Grammar.Markup
import ComponentLang.Grammar.TypeExpr
import ComponentLang.Proofs.Grammar.Takes

/-!
# What type expressions, expressions and tags take

Types, expressions and tags are read in a way that keeps to the travel at hand, and a rule that comes
to itself again has taken a token before.
-/

/-! ## What type expressions take -/

namespace ComponentLang.Grammar

open Parse

variable {R : State → State → Prop} [Travel R] {s : State}

theorem skims_typeExprAtom {inner : Parse TypeExpr}
    (hinner : ∀ t, t.rest.length < s.rest.length → Skims R inner t) :
    Skims R (typeExprAtom inner) s := by
  unfold typeExprAtom
  simp only [takes_peek_bind]
  split
  case h_1 hkind | h_2 hkind =>
    have hless := State.length_next_lt (s := s) (by simp [State.kind, hkind])
    apply takes_advance_bind
    split
    · apply takes_eat_if
      · intro _
        have hle := State.length_rest_next s.next
        apply takes_bind (hinner _ (by omega))
        intro element t _ _
        apply takes_expect_bind
        simp
      · simp
    · simp
  case h_3 hkind =>
    have hless := State.length_next_lt (s := s) (by simp [State.kind, hkind])
    apply takes_advance_bind
    apply takes_bind (hinner _ hless)
    intro inside t _ _
    apply takes_expect_bind
    simp
  case h_4 => simp

theorem takes_typeExprSuffix {start : Span} {a : TypeExpr} :
    Turns R (typeExprSuffix start a) s := by
  unfold typeExprSuffix
  simp only [takes_get_bind]
  split
  next hkind =>
    have hpos := State.length_pos_of_kind (s := s) (by simp [hkind])
    apply takes_advance_bind
    simp
    omega
  · split
    next hkind =>
      have hpos := State.length_pos_of_kind (s := s) (by simp_all)
      apply takes_advance_bind
      apply takes_advance_bind
      simp
      omega
    next => simp

theorem skims_suffixedTypeExpr {inner : Parse TypeExpr}
    (hinner : ∀ t, t.rest.length < s.rest.length → Skims R inner t) :
    Skims R (suffixedTypeExpr inner) s := by
  unfold suffixedTypeExpr
  simp only [takes_here_bind]
  apply takes_bind (skims_typeExprAtom hinner)
  intro a t _ _
  apply skims_iterate
  intro b u _
  exact takes_typeExprSuffix

theorem takes_unionMember {inner : Parse TypeExpr} {members : List TypeExpr}
    (hinner : ∀ t, t.rest.length < s.rest.length → Skims R inner t) :
    Turns R (unionMember inner members) s := by
  unfold unionMember
  apply takes_eat_if
  · intro hpipe
    have hless := State.length_next_lt (s := s) (by simp [hpipe])
    apply takes_bind (skims_suffixedTypeExpr fun t ht => hinner t (by omega))
    intro member t htravel _
    have hle := Travel.shrinks htravel
    simp
    omega
  · simp

theorem skims_typeExprRule {inner : Parse TypeExpr}
    (hinner : ∀ t, t.rest.length < s.rest.length → Skims R inner t) :
    Skims R (typeExprRule inner) s := by
  unfold typeExprRule
  apply takes_bind (skims_suffixedTypeExpr hinner)
  intro first t hst _
  have hle := Travel.shrinks hst
  simp only [takes_kind_bind]
  split
  · refine takes_bind (skims_iterate ?_ _) ?_
    · intro members u htu
      have hle' := Travel.shrinks htu
      exact takes_unionMember fun v hv => hinner v (by omega)
    · intro members u _ _
      simp
  · simp

theorem skims_typeExprAt (depth : Nat) (h : s.rest.length < depth) :
    Skims R (typeExprAt depth) s := by
  induction depth generalizing s with
  | zero => omega
  | succ depth ih =>
      unfold typeExprAt
      apply skims_typeExprRule
      intro t ht
      exact ih (by omega)

theorem skims_typeExpr : Skims R typeExpr s :=
  (skims_typeExprAt _ (Nat.lt_succ_self _)).of_eq rfl

theorem skims_typeExpr? : Skims R typeExpr? s := by
  unfold typeExpr?
  apply takes_eat_if
  · intro _
    exact takes_bind skims_typeExpr fun _ _ _ _ => by simp
  · simp

end ComponentLang.Grammar

/-! ## What expressions and tags take

The rules at one depth are followed by induction on the depth. A rule uses the rules below it only
after it has taken a token, so as many depths as there are tokens to come are enough, whatever the
tokens are. -/

namespace ComponentLang.Grammar

open Parse

/-- The rules keep to `R` wherever fewer than `n` tokens are to come. -/
structure ExprRules.Keep (R : State → State → Prop) (n : Nat) (rules : ExprRules) : Prop where
  conditional (t : State) : t.rest.length < n → Skims R rules.conditional t
  binary (least : Nat) (t : State) : t.rest.length < n → Skims R (rules.binary least) t
  unary (t : State) : t.rest.length < n → Skims R rules.unary t
  tag (t : State) : t.rest.length < n → Reads R rules.tag t

variable {R : State → State → Prop} [Travel R] {s : State} {rules : ExprRules} {n : Nat}

/-! ### Operands -/

theorem skims_propertyValue (hrules : rules.Keep R n) (hn : s.rest.length < n) :
    Skims R (propertyValue rules) s := by
  unfold propertyValue
  apply takes_eat_if
  · intro _
    have hle := State.length_rest_next s
    exact hrules.conditional _ (by omega)
  · simp

theorem skims_property (hrules : rules.Keep R n) (hn : s.rest.length < n) :
    Skims R (property rules) s := by
  have hle := State.length_rest_next s
  unfold property
  simp only [takes_peek_bind]
  split
  · apply takes_advance_bind
    apply takes_bind (hrules.conditional _ (by omega))
    intro computed t hst _
    have hle' := Travel.shrinks hst
    apply takes_expect_bind
    intro _
    have hle'' := State.length_rest_next t
    apply takes_bind (skims_propertyValue hrules (by omega))
    intro value u _ _
    simp
  · split
    · apply takes_advance_bind
      simp only [takes_get_bind]
      split
      · apply takes_node_bind
        simp
      · apply takes_bind (skims_propertyValue hrules (by omega))
        intro value t _ _
        simp
    · simp

theorem skims_objectLiteral (hrules : rules.Keep R n) (hn : s.rest.length ≤ n)
    (hkind : s.kind ≠ .eof) : Skims R (objectLiteral rules) s := by
  have hless := State.length_next_lt hkind
  unfold objectLiteral
  apply takes_advance_bind
  refine takes_bind (skims_commaSeparated ?_) ?_
  · intro t hst
    have hle := Travel.shrinks hst
    exact skims_property hrules (by omega)
  · intro properties t _ _
    apply takes_expect_bind
    simp

theorem skims_expressionsUpTo {close : TokenKind} {expected : Expected}
    (hrules : rules.Keep R n) (hn : s.rest.length < n) :
    Skims R (expressionsUpTo rules close expected) s := by
  unfold expressionsUpTo
  refine takes_bind (skims_commaSeparated ?_) ?_
  · intro t hst
    have hle := Travel.shrinks hst
    exact hrules.conditional t (by omega)
  · intro items t _ _
    apply takes_expect_bind
    simp

theorem skims_leaf {build : Node → Expr} : Skims R (leaf build) s := by
  unfold leaf
  apply takes_advance_bind
  apply takes_node_bind
  simp

theorem skims_primary {tag : Parse Tag} (hrules : rules.Keep R n) (hn : s.rest.length ≤ n)
    (htag : ∀ t, t.rest.length ≤ n → Reads R tag t) : Skims R (primary rules tag) s := by
  have hfewer : s.peek.kind ≠ .eof → s.next.rest.length < n := by
    intro hkind
    have hless := State.length_next_lt hkind
    omega
  unfold primary
  simp only [takes_peek_bind]
  split
  case h_1 | h_2 | h_3 | h_4 | h_5 | h_6 => exact skims_leaf
  case h_7 hkind =>
    have hless := hfewer (by simp [hkind])
    apply takes_advance_bind
    apply takes_bind (skims_nested (hrules.conditional _ hless))
    intro inner t _ _
    apply takes_expect_bind
    simp
  case h_8 hkind =>
    have hless := hfewer (by simp [hkind])
    apply takes_advance_bind
    apply takes_bind (skims_nested (skims_expressionsUpTo hrules hless))
    intro items t _ _
    simp
  case h_9 hkind =>
    have hbrace : s.kind ≠ .eof := by simp [State.kind, hkind]
    exact skims_nested (skims_objectLiteral hrules hn hbrace)
  case h_10 =>
    apply takes_bind (skims_nested (htag { s with inHead := false } hn).skims)
    intro tag t _ _
    simp
  case h_11 => simp

theorem turns_suffix {object : Expr} (hrules : rules.Keep R n) (hn : s.rest.length ≤ n) :
    Turns R (suffix rules object) s := by
  unfold suffix
  simp only [takes_get_bind]
  split
  next hkind =>
    have hless := State.length_next_lt (s := s) (by simp [hkind])
    apply takes_advance_bind
    apply takes_bind (skims_nested (skims_expressionsUpTo hrules (by simp; omega)))
    intro arguments t hst _
    have hle := Travel.shrinks hst
    simp
    omega
  next hkind =>
    have hless := State.length_next_lt (s := s) (by simp [hkind])
    apply takes_advance_bind
    simp only [takes_kind_bind]
    split
    · apply takes_advance_bind
      simp
      omega
    · simp
  next hkind =>
    split
    · have hless := State.length_next_lt (s := s) (by simp [hkind])
      apply takes_advance_bind
      apply takes_bind (skims_nested (hrules.conditional _ (by simp; omega)))
      intro index t hst _
      have hle := Travel.shrinks hst
      apply takes_expect_bind
      intro _
      simp
      omega
    · simp
  next => simp

theorem skims_operand {tag : Parse Tag} (hrules : rules.Keep R n) (hn : s.rest.length ≤ n)
    (htag : ∀ t, t.rest.length ≤ n → Reads R tag t) : Skims R (operand rules tag) s := by
  unfold operand
  apply takes_bind (skims_primary hrules hn htag)
  intro object t hst _
  apply skims_iterate
  intro object u htu
  have hle := Travel.shrinks hst
  have hle' := Travel.shrinks htu
  exact turns_suffix hrules (by omega)

/-! ### Operators -/

theorem skims_unaryRule {tag : Parse Tag} (hrules : rules.Keep R n) (hn : s.rest.length ≤ n)
    (htag : ∀ t, t.rest.length ≤ n → Reads R tag t) : Skims R (unaryRule rules tag) s := by
  unfold unaryRule
  simp only [takes_peek_bind]
  split
  next op hop =>
    have hless := State.length_next_lt (s := s) (by
      intro hkind
      have hpeek : s.peek.kind = .eof := hkind
      simp [hpeek, unaryOp?] at hop)
    apply takes_advance_bind
    apply takes_bind (hrules.unary _ (by omega))
    intro operand t _ _
    simp
  next =>
    split
    next hkind =>
      have hless := State.length_next_lt (s := s) (by simp [State.kind, hkind])
      apply takes_advance_bind
      apply takes_bind (hrules.unary _ (by omega))
      intro operand t _ _
      simp
    next => exact skims_operand hrules hn htag

theorem turns_binaryStep {least : Nat} {left : Expr} (hrules : rules.Keep R n)
    (hn : s.rest.length ≤ n) : Turns R (binaryStep rules least left) s := by
  unfold binaryStep
  simp only [takes_kind_bind]
  split
  next op level hop =>
    have hless := State.length_next_lt (s := s) (by
      intro hkind
      simp [hkind, binaryOp?] at hop)
    split
    · simp
    · apply takes_advance_bind
      apply takes_bind (hrules.binary _ _ (by omega))
      intro right t hst _
      have hle := Travel.shrinks hst
      simp
      omega
  next => simp

theorem skims_binaryRule {unary : Parse Expr} {least : Nat} (hrules : rules.Keep R n)
    (hn : s.rest.length ≤ n) (hunary : Skims R unary s) :
    Skims R (binaryRule rules unary least) s := by
  unfold binaryRule
  apply takes_bind hunary
  intro left t hst _
  apply skims_iterate
  intro left u htu
  have hle := Travel.shrinks hst
  have hle' := Travel.shrinks htu
  exact turns_binaryStep hrules (by omega)

theorem skims_conditionalRule {binary : Nat → Parse Expr} (hrules : rules.Keep R n)
    (hn : s.rest.length ≤ n) (hbinary : ∀ least, Skims R (binary least) s) :
    Skims R (conditionalRule rules binary) s := by
  unfold conditionalRule
  apply takes_bind (hbinary 1)
  intro test t hst _
  have hle := Travel.shrinks hst
  apply takes_eat_if
  · intro hkind
    have hless := State.length_next_lt (s := t) (by simp [hkind])
    apply takes_bind (skims_nested (hrules.conditional _ (by simp; omega)))
    intro consequent u htu _
    have hle' := Travel.shrinks htu
    apply takes_expect_bind
    intro _
    have hle'' := State.length_rest_next u
    apply takes_bind (hrules.conditional _ (by omega))
    intro alternate v _ _
    simp
  · simp

/-! ### Tags -/

theorem skims_attributeValue (hrules : rules.Keep R n) (hn : s.rest.length < n) :
    Skims R (attributeValue rules) s := by
  unfold attributeValue
  simp only [takes_peek_bind]
  split
  case h_1 =>
    have hle := State.length_rest_next s
    apply takes_advance_bind
    apply takes_bind (hrules.conditional _ (by omega))
    intro value t _ _
    apply takes_expect_bind
    simp
  case h_2 | h_3 | h_4 | h_5 => exact skims_leaf
  case h_6 => simp

theorem reads_tagAttribute (hrules : rules.Keep R n) (hn : s.rest.length ≤ n)
    (hkind : s.kind ≠ .eof) : Reads R (tagAttribute rules) s := by
  have hless := State.length_next_lt hkind
  unfold tagAttribute
  apply takes_advance_bind
  apply takes_eat_if
  · intro _
    have hle := State.length_rest_next s.next
    have hvalue : Skims R (attributeValue rules) s.next.next :=
      skims_attributeValue hrules (by omega)
    apply takes_bind (skims_map hvalue)
    intro value t hst _
    have hle' := Travel.shrinks hst
    simp
    omega
  · intro _
    simpa using hless

theorem turns_tagHeadStep {name : String} {head : TagHead} (hrules : rules.Keep R n)
    (hn : s.rest.length ≤ n) : Turns R (tagHeadStep rules name head) s := by
  unfold tagHeadStep
  simp only [takes_peek_bind]
  split
  case h_1 hkind | h_2 hkind =>
    have hname : s.kind ≠ .eof := by simp [State.kind, hkind]
    apply takes_bind (reads_tagAttribute hrules hn hname)
    intro added t _ hless
    simpa using hless
  case h_3 hkind =>
    have hless := State.length_next_lt (s := s) (by simp [State.kind, hkind])
    apply takes_advance_bind
    simpa using hless
  case h_4 | h_5 =>
    apply takes_advance_bind
    simp
  case h_6 => simp

theorem turns_childStep {name : String} {children : List Markup} (hrules : rules.Keep R n)
    (hn : s.rest.length < n) : Turns R (childStep rules name children) s := by
  unfold childStep
  simp only [takes_peek_bind]
  split
  case h_1 =>
    split
    · apply takes_advance_bind
      simp
    · simp
  case h_2 =>
    apply takes_bind (hrules.tag s hn)
    intro tag t _ hless
    simpa using hless
  case h_3 hkind =>
    have hless := State.length_next_lt (s := s) (by simp [State.kind, hkind])
    apply takes_advance_bind
    apply takes_bind (hrules.conditional _ (by omega))
    intro value t hst _
    have hle := Travel.shrinks hst
    apply takes_expect_bind
    intro _
    simp
    omega
  case h_4 hkind =>
    have hless := State.length_next_lt (s := s) (by simp [State.kind, hkind])
    apply takes_advance_bind
    simpa using hless
  case h_5 => simp
  case h_6 => simp

theorem reads_tagRule (hrules : rules.Keep R n) (hn : s.rest.length ≤ n) :
    Reads R (tagRule rules) s := by
  unfold tagRule
  apply takes_expect_bind
  intro hkind
  have hless := State.length_next_lt (s := s) (by simp [hkind])
  refine takes_bind (skims_iterate ?_ _) ?_
  · intro head t hst
    have hle := Travel.shrinks hst
    exact turns_tagHeadStep hrules (by omega)
  · rintro ⟨head, selfClosing⟩ t hst _
    have hle := Travel.shrinks hst
    have hchildren : Skims R (iterate (childStep rules s.peek.lexeme) []) t := by
      apply skims_iterate
      intro children u htu
      have hle' := Travel.shrinks htu
      exact turns_childStep hrules (by omega)
    dsimp only
    split
    · simp
      omega
    · apply takes_bind hchildren
      intro children u htu _
      have hle' := Travel.shrinks htu
      simp
      omega

/-! ### All expressions -/

theorem keep_exprRules (depth : Nat) : (exprRules depth).Keep R depth := by
  induction depth with
  | zero =>
      constructor
      all_goals
        intros
        omega
  | succ depth ih =>
      have htag : ∀ t : State, t.rest.length ≤ depth → Reads R (exprRules (depth + 1)).tag t := by
        intro t ht
        exact (reads_tagRule ih ht).of_eq rfl
      have hunary : ∀ t : State, t.rest.length ≤ depth →
          Skims R (exprRules (depth + 1)).unary t := by
        intro t ht
        exact (skims_unaryRule ih ht htag).of_eq rfl
      have hbinary : ∀ least (t : State), t.rest.length ≤ depth →
          Skims R ((exprRules (depth + 1)).binary least) t := by
        intro least t ht
        exact (skims_binaryRule ih ht (hunary t ht)).of_eq rfl
      constructor
      · intro t ht
        have hle : t.rest.length ≤ depth := by omega
        exact (skims_conditionalRule ih hle fun least => hbinary least t hle).of_eq rfl
      · intro least t ht
        exact hbinary least t (by omega)
      · intro t ht
        exact hunary t (by omega)
      · intro t ht
        exact htag t (by omega)

theorem skims_expression : Skims R expression s :=
  ((keep_exprRules _).conditional s (Nat.lt_succ_self _)).of_eq rfl

theorem reads_tag : Reads R tag s :=
  ((keep_exprRules _).tag s (Nat.lt_succ_self _)).of_eq rfl

theorem skims_headExpression : Skims R headExpression s :=
  takes_withHead skims_expression

end ComponentLang.Grammar
