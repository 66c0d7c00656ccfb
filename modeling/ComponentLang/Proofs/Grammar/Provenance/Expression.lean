import ComponentLang.Grammar.Markup
import ComponentLang.Grammar.TypeExpr
import ComponentLang.Proofs.Grammar.Provenance.Reading

/-!
# What expressions and tags keep

An expression keeps every name and every value from outside that is in its tokens, and the brackets
in them match. A type expression keeps nothing: the names in it are no uses. The rules are followed
by induction on the depth; a rule that stops at the limit gives nothing that would have to tally.
-/
namespace ComponentLang.Grammar

open Parse State

variable {s : State} {opened : List Opening} {g : Yield}

/-! ## Type expressions -/

theorem passes_typeExprAtom {inner : Parse TypeExpr} (hinner : ∀ t, Passes inner t) :
    Passes (typeExprAtom inner) s := by
  unfold typeExprAtom
  rw [Passes, Gathers, retains_peek_bind]
  split
  case h_1 hkind | h_2 hkind =>
    refine retains_advance_bind (passed_silent hkind rfl) ?_
    split
    · refine retains_eat_if (fun hlt => passed_silent hlt rfl) ?_ (retains_pure rfl)
      refine retains_passes_bind (hinner _) fun element t => ?_
      exact retains_expect_bind (fun hgt => passed_silent hgt rfl) fun _ => retains_pure rfl
    · exact retains_pure rfl
  case h_3 hkind =>
    refine retains_advance_bind (passed_opening hkind rfl) ?_
    refine retains_passes_bind (hinner _) fun inside t => ?_
    exact retains_expect_bind (fun hclose => passed_closing hclose rfl) fun _ => retains_pure rfl
  case h_4 => exact retains_unexpected

theorem passes_suffixedTypeExpr {inner : Parse TypeExpr} (hinner : ∀ t, Passes inner t) :
    Passes (suffixedTypeExpr inner) s := by
  unfold suffixedTypeExpr
  rw [Passes, Gathers, retains_here_bind]
  refine retains_passes_bind (passes_typeExprAtom hinner) fun first t => ?_
  refine retains_iterate (n := fun _ => ⟨[], 0⟩) (fun a u => ?_) first
  unfold typeExprSuffix
  rw [retains_get_bind]
  split
  next hkind => exact retains_advance_bind (passed_silent hkind rfl) (retains_pure rfl)
  next =>
    split
    next hkinds =>
      rw [Bool.and_eq_true, decide_eq_true_eq, decide_eq_true_eq] at hkinds
      have hsecond := next_kind_of_second (by simp [hkinds.1]) hkinds.2
      refine retains_advance_bind (passed_opening hkinds.1 rfl) ?_
      exact retains_advance_bind (passed_closing hsecond rfl) (retains_pure rfl)
    next => exact retains_pure rfl

theorem passes_typeExprRule {inner : Parse TypeExpr} (hinner : ∀ t, Passes inner t) :
    Passes (typeExprRule inner) s := by
  unfold typeExprRule
  refine retains_passes_bind (passes_suffixedTypeExpr hinner) fun first t => ?_
  rw [retains_kind_bind]
  split
  · refine retains_passes_bind (retains_iterate (n := fun _ => ⟨[], 0⟩) (fun members u => ?_) _)
      fun members u => retains_pure rfl
    unfold unionMember
    refine retains_eat_if (fun hpipe => passed_silent hpipe rfl) ?_ (retains_pure rfl)
    exact retains_passes_bind (passes_suffixedTypeExpr hinner) fun _ _ => retains_pure rfl
  · exact retains_pure rfl

theorem passes_typeExpr : Passes typeExpr s := by
  have hdepth : ∀ depth t, Passes (typeExprAt depth) t := by
    intro depth
    induction depth with
    | zero => exact fun _ => retains_fail
    | succ depth ih => exact fun _ => passes_typeExprRule ih
  exact (hdepth (s.rest.length + 1) s).of_eq rfl

theorem passes_typeExpr? : Passes typeExpr? s := by
  unfold typeExpr?
  refine retains_eat_if (fun hcolon => passed_silent hcolon rfl) ?_ (retains_pure rfl)
  exact retains_passes_bind passes_typeExpr fun _ _ => retains_pure rfl

/-! ## Operands -/

/-- Every rule keeps what it takes, and takes a token. -/
structure ExprRules.Retain (rules : ExprRules) : Prop where
  conditional (t : State) : Harvests (fun e => yield (.expr e)) rules.conditional t
  binary (least : Nat) (t : State) : Harvests (fun e => yield (.expr e)) (rules.binary least) t
  unary (t : State) : Harvests (fun e => yield (.expr e)) rules.unary t
  tag (t : State) : Harvests (fun t => yield (.tag t)) rules.tag t

/-- What a property keeps. -/
def propertyYield (p : Property) : Yield := yields (p.exprs.map .expr)

variable {rules : ExprRules}

theorem harvests_propertyValue (hrules : rules.Retain) :
    Harvests (fun e => yield (.expr e)) (propertyValue rules) s :=
  retains_eat_if (fun hcolon => passed_silent hcolon rfl) (hrules.conditional _).still
    retains_unexpected

/-- A key may be any word, string or number. -/
theorem isSilent_of_isPropertyKey {kind : TokenKind} (h : isPropertyKey kind = true) :
    isSilent kind = true := by
  cases kind <;> first | rfl | cases h

theorem isSilent_of_isMemberName {kind : TokenKind} (h : isMemberName kind = true) :
    isSilent kind = true := by
  cases kind <;> first | rfl | cases h

theorem harvests_property (hrules : rules.Retain) :
    Harvests propertyYield (property rules) s := by
  have hvalue : ∀ {key : String} {t : State},
      Gathers propertyYield (do return .named key (← propertyValue rules)) t := by
    intro key t
    refine retains_then (harvests_propertyValue hrules) fun value u => ?_
    exact retains_pure (by simp [propertyYield, Property.exprs])
  unfold property
  rw [Harvests, retains_peek_bind]
  split
  next hkind =>
    refine retains_advance_bind (passed_opening hkind rfl) ?_
    refine retains_then (hrules.conditional _) fun computed t => ?_
    refine retains_expect_bind (fun hclose => passed_closing hclose rfl) fun _ => ?_
    refine retains_then (harvests_propertyValue hrules) fun value u => ?_
    exact retains_pure (by simp [propertyYield, Property.exprs])
  next =>
    split
    next hkey =>
      -- A name alone is a use of the variable, but a name before a colon is none.
      by_cases hname : s.peek.kind = .identifier
      · refine retains_advance_name_bind hname ?_
        rw [retains_get_bind]
        split
        · refine retains_node_bind fun node t hnode => retains_pure ?_
          simp [propertyYield, Property.exprs, yield_name, hnode]
        · exact retains_drop hvalue
      · refine retains_advance_bind (passed_silent rfl (isSilent_of_isPropertyKey hkey)) ?_
        rw [retains_get_bind, if_neg (by simp [hname])]
        exact hvalue
    next => exact retains_unexpected

theorem harvests_objectLiteral (hrules : rules.Retain) (hs : s.peek.kind = .lbrace) :
    Harvests (fun e => yield (.expr e)) (objectLiteral rules) s := by
  unfold objectLiteral
  refine retains_advance_bind (passed_opening hs rfl) ?_
  have hproperties : ∀ t, Gathers (fun ps => yields ((ps.flatMap Property.exprs).map .expr))
      (commaSeparated .rbrace (property rules)) t := fun t =>
    gathers_commaSeparated (fun u => (harvests_property hrules).still) rfl fun ps p => by
      simp [propertyYield]
  refine retains_then (hproperties _) fun properties t => ?_
  refine retains_expect_bind (fun hclose => passed_closing hclose rfl) fun _ => ?_
  rw [retains_spanFrom_bind]
  refine retains_node_bind fun node u _ => ?_
  exact retains_pure (hand_eq rfl (by simp [TreePart.children, Expr.children]))

/-- The closing bracket is taken with the expressions. -/
theorem retains_expressionsUpTo {close : TokenKind} {expected : Expected} {o : Opening}
    (hrules : rules.Retain) (hclose : ∀ lexeme, o.closedBy close lexeme = true) :
    Retains (fun _ => false) ⟨o :: opened, g⟩
      (fun items => ⟨opened, g + yields (items.map .expr)⟩)
      (expressionsUpTo rules close expected) s := by
  unfold expressionsUpTo
  have hitems : Gathers (fun items => yields (items.map .expr))
      (commaSeparated close rules.conditional) s :=
    gathers_commaSeparated (fun t => (hrules.conditional t).still) rfl fun items e => by simp
  refine retains_then hitems fun items t => ?_
  exact retains_expect_bind (fun hkind => passed_closing hkind (hclose _)) fun _ => retains_pure rfl

theorem harvests_leaf {build : Node → Expr} (ht : Passed s.peek [] [])
    (hbuild : ∀ node, yield (.expr (build node)) = 0) :
    Harvests (fun e => yield (.expr e)) (leaf build) s := by
  unfold leaf
  refine retains_advance_bind ht (retains_node_bind fun node t _ => ?_)
  exact retains_pure (congrArg _ (hbuild node).symm)

theorem harvests_name (ht : s.peek.kind = .identifier) :
    Harvests (fun e => yield (.expr e)) (leaf (.identifier · s.peek.lexeme)) s := by
  unfold leaf
  refine retains_advance_name_bind ht (retains_node_bind fun node t hnode => ?_)
  exact retains_pure (by simp [yield_name, hnode])

/-- A value from outside gets its number as soon as it is taken. -/
theorem harvests_value (ht : s.peek.kind = .valueBinding) :
    Harvests (fun e => yield (.expr e)) (leaf (.valueBinding · s.peek.lexeme)) s := by
  intro s₀ hs
  have hread : s.peek.kind ≠ .eof := by rw [ht]; decide
  have hyield : yield (.expr (.valueBinding ⟨s.next.nextId, s.peek.span⟩ s.peek.lexeme)) =
      .ofValue (⟨s.nextId, s.peek.span⟩, s.peek.lexeme) := by
    rw [s.nextId_next, yield_value]
  refine ⟨⟨s.precedes_next.rest, ?_, s.precedes_next.diagnostics⟩, fun _ => ?_, ?_⟩
  · exact Nat.le_succ_of_le s.precedes_next.numbers
  · exact length_next_lt hread
  · have hvalue := hs.trans (tallies_value ht)
    rwa [zero_add, ← hyield] at hvalue

theorem harvests_primary {tag : Parse Tag} (hrules : rules.Retain)
    (htag : ∀ t, Harvests (fun t => yield (.tag t)) tag t) :
    Harvests (fun e => yield (.expr e)) (primary rules tag) s := by
  unfold primary
  rw [Harvests, retains_peek_bind]
  split
  case h_1 hkind | h_2 hkind | h_3 hkind | h_4 hkind =>
    exact harvests_leaf (passed_silent hkind rfl) fun _ => yield_of_children rfl
  case h_5 hkind => exact harvests_name hkind
  case h_6 hkind => exact harvests_value hkind
  case h_7 hkind =>
    refine retains_advance_bind (passed_opening hkind rfl) ?_
    refine retains_then (retains_nested fun t _ => hrules.conditional t) fun inner t => ?_
    refine retains_expect_bind (fun hclose => passed_closing hclose rfl) fun _ => ?_
    exact retains_pure (by rw [zero_add])
  case h_8 hkind =>
    refine retains_advance_bind (passed_opening hkind rfl) ?_
    refine retains_bind (retains_nested fun t _ => retains_expressionsUpTo hrules fun _ => rfl)
      fun items t => ?_
    rw [retains_spanFrom_bind]
    refine retains_node_bind fun node u _ => ?_
    exact retains_pure (hand_eq rfl (by simp [TreePart.children, Expr.children]))
  case h_9 hkind =>
    exact retains_nested fun t ht => harvests_objectLiteral hrules (ht ▸ hkind)
  case h_10 hkind =>
    refine retains_then_moved (retains_nested fun t _ => htag t) fun tag t => ?_
    refine retains_node_bind fun node u _ => ?_
    exact retains_pure (hand_eq rfl (by simp [TreePart.children, Expr.children]))
  case h_11 => exact retains_unexpected

theorem retains_suffix {object : Expr} (hrules : rules.Retain) :
    Retains (fun _ => false) ⟨[], yield (.expr object)⟩
      (turnHand (fun e => ⟨[], yield (.expr e)⟩) fun e => ⟨[], yield (.expr e)⟩)
      (suffix rules object) s := by
  unfold suffix
  rw [retains_get_bind]
  split
  next hkind =>
    refine retains_advance_bind (passed_opening hkind rfl) ?_
    refine retains_bind (retains_nested fun t _ => retains_expressionsUpTo hrules fun _ => rfl)
      fun arguments t => ?_
    rw [retains_spanFrom_bind]
    refine retains_node_bind fun node u _ => ?_
    exact retains_pure (hand_eq rfl (by simp [TreePart.children, Expr.children]))
  next hkind =>
    refine retains_advance_bind (passed_silent hkind rfl) ?_
    rw [retains_kind_bind]
    split
    next hname =>
      refine retains_advance_bind (passed_silent rfl (isSilent_of_isMemberName hname)) ?_
      rw [retains_spanFrom_bind]
      refine retains_node_bind fun node u _ => ?_
      exact retains_pure (hand_eq rfl (by simp [TreePart.children, Expr.children]))
    next => exact retains_unexpected
  next hkind =>
    split
    · refine retains_advance_bind (passed_opening hkind rfl) ?_
      refine retains_then (retains_nested fun t _ => hrules.conditional t) fun index t => ?_
      refine retains_expect_bind (fun hclose => passed_closing hclose rfl) fun _ => ?_
      rw [retains_spanFrom_bind]
      refine retains_node_bind fun node u _ => ?_
      exact retains_pure (hand_eq rfl (by simp [TreePart.children, Expr.children]))
    · exact retains_pure rfl
  next => exact retains_pure rfl

theorem harvests_operand {tag : Parse Tag} (hrules : rules.Retain)
    (htag : ∀ t, Harvests (fun t => yield (.tag t)) tag t) :
    Harvests (fun e => yield (.expr e)) (operand rules tag) s := by
  unfold operand
  refine retains_bind_moved (harvests_primary hrules htag) fun object t => ?_
  exact retains_iterate (n := fun e => ⟨[], yield (.expr e)⟩) (fun _ _ => retains_suffix hrules)
    object

/-! ## Operators -/

theorem isSilent_of_unaryOp? {kind : TokenKind} {op : UnaryOp} (h : unaryOp? kind = some op) :
    isSilent kind = true := by
  cases kind <;> first | rfl | cases h

theorem isSilent_of_binaryOp? {kind : TokenKind} {op : BinaryOp × Nat}
    (h : binaryOp? kind = some op) : isSilent kind = true := by
  cases kind <;> first | rfl | cases h

theorem harvests_unaryRule {tag : Parse Tag} (hrules : rules.Retain)
    (htag : ∀ t, Harvests (fun t => yield (.tag t)) tag t) :
    Harvests (fun e => yield (.expr e)) (unaryRule rules tag) s := by
  unfold unaryRule
  rw [Harvests, retains_peek_bind]
  split
  next op hop =>
    refine retains_advance_bind (passed_silent rfl (isSilent_of_unaryOp? hop)) ?_
    refine retains_then (hrules.unary _) fun operand t => ?_
    refine retains_node_bind fun node u _ => ?_
    exact retains_pure (hand_eq rfl (by simp [TreePart.children, Expr.children]))
  next =>
    split
    next hkind =>
      refine retains_advance_bind (passed_silent hkind rfl) ?_
      refine retains_then (hrules.unary _) fun operand t => ?_
      refine retains_node_bind fun node u _ => ?_
      exact retains_pure (hand_eq rfl (by simp [TreePart.children, Expr.children]))
    next => exact harvests_operand hrules htag

theorem retains_binaryStep {least : Nat} {left : Expr} (hrules : rules.Retain) :
    Retains (fun _ => false) ⟨[], yield (.expr left)⟩
      (turnHand (fun e => ⟨[], yield (.expr e)⟩) fun e => ⟨[], yield (.expr e)⟩)
      (binaryStep rules least left) s := by
  unfold binaryStep
  rw [retains_kind_bind]
  split
  next op level hop =>
    split
    · exact retains_pure rfl
    · refine retains_advance_bind (passed_silent rfl (isSilent_of_binaryOp? hop)) ?_
      refine retains_then (hrules.binary _ _) fun right t => ?_
      refine retains_node_bind fun node u _ => ?_
      exact retains_pure (hand_eq rfl (by simp [TreePart.children, Expr.children]))
  next => exact retains_pure rfl

theorem harvests_binaryRule {unary : Parse Expr} {least : Nat} (hrules : rules.Retain)
    (hunary : ∀ t, Harvests (fun e => yield (.expr e)) unary t) :
    Harvests (fun e => yield (.expr e)) (binaryRule rules unary least) s := by
  unfold binaryRule
  refine retains_bind_moved (hunary s) fun left t => ?_
  exact retains_iterate (n := fun e => ⟨[], yield (.expr e)⟩)
    (fun _ _ => retains_binaryStep hrules) left

theorem harvests_conditionalRule {binary : Nat → Parse Expr} (hrules : rules.Retain)
    (hbinary : ∀ least t, Harvests (fun e => yield (.expr e)) (binary least) t) :
    Harvests (fun e => yield (.expr e)) (conditionalRule rules binary) s := by
  unfold conditionalRule
  refine retains_bind_moved (hbinary 1 s) fun test t => ?_
  refine retains_eat_if (fun hkind => passed_silent hkind rfl) ?_ (retains_pure rfl)
  refine retains_then (retains_nested fun u _ => hrules.conditional u) fun consequent u => ?_
  refine retains_expect_bind (fun hkind => passed_silent hkind rfl) fun _ => ?_
  refine retains_then (hrules.conditional _) fun alternate v => ?_
  refine retains_node_bind fun node w _ => ?_
  exact retains_pure (hand_eq rfl (by simp [TreePart.children, Expr.children, add_assoc]))

/-! ## Tags -/

theorem harvests_attributeValue (hrules : rules.Retain) :
    Harvests (fun e => yield (.expr e)) (attributeValue rules) s := by
  unfold attributeValue
  rw [Harvests, retains_peek_bind]
  split
  case h_1 hkind =>
    refine retains_advance_bind (passed_opening hkind rfl) ?_
    refine retains_then (hrules.conditional _) fun value t => ?_
    refine retains_expect_bind (fun hclose => passed_closing hclose rfl) fun _ => ?_
    exact retains_pure (by rw [zero_add])
  case h_2 hkind | h_3 hkind | h_4 hkind =>
    exact harvests_leaf (passed_silent hkind rfl) fun _ => yield_of_children rfl
  case h_5 hkind => exact harvests_value hkind
  case h_6 => exact retains_unexpected

theorem harvests_tagAttribute (hrules : rules.Retain) (hs : isSilent s.peek.kind = true) :
    Harvests (fun a => yield (.attribute a)) (tagAttribute rules) s := by
  unfold tagAttribute
  refine retains_advance_bind (passed_silent rfl hs) ?_
  refine retains_passes_bind (passes_eat rfl) fun taken t => ?_
  refine retains_ite_bind (gathers_some (harvests_attributeValue hrules).still)
    (gathers_none .expr) fun value u => ?_
  rw [retains_spanFrom_bind]
  exact retains_pure (hand_eq rfl (zero_add _))

/-- The tag is open while its attributes are read, and closed if it closes itself. -/
theorem retains_tagHeadStep {name : String} {head : TagHead} (hrules : rules.Retain) :
    Retains (fun _ => false) ⟨[.tag name], yields (head.attributes.map .attribute)⟩
      (turnHand (fun head => ⟨[.tag name], yields (head.attributes.map .attribute)⟩)
        fun result => ⟨if result.2 then [] else [.tag name],
          yields (result.1.attributes.map .attribute)⟩)
      (tagHeadStep rules name head) s := by
  unfold tagHeadStep
  rw [retains_peek_bind]
  split
  case h_1 hkind | h_2 hkind =>
    have hsilent : isSilent s.peek.kind = true := by rw [hkind]; rfl
    refine retains_then (harvests_tagAttribute hrules hsilent) fun added t => retains_pure ?_
    simp [turnHand]
  case h_3 hkind => exact retains_advance_bind (passed_silent hkind rfl) (retains_pure rfl)
  case h_4 hkind => exact retains_advance_bind (passed_closing hkind rfl) (retains_pure rfl)
  case h_5 hkind => exact retains_advance_bind (passed_silent hkind rfl) (retains_pure rfl)
  case h_6 => exact retains_unexpected

theorem yield_text (content : String) (span : Span) : yield (.markup (.text content span)) = 0 := by
  have hinner : yield (.text content span) = 0 := yield_of_children rfl
  rw [yield_of_children rfl]
  simp [TreePart.children, Markup.children, hinner]

theorem yield_embedded (e : Expr) : yield (.markup (.expr e)) = yield (.expr e) := by
  rw [yield_of_children rfl]
  simp [TreePart.children, Markup.children]

theorem yield_tagMarkup (t : Tag) : yield (.markup (.tag t)) = yield (.tag t) := by
  rw [yield_of_children rfl]
  simp [TreePart.children, Markup.children]

theorem yields_appendText (children : List Markup) (word : Token) :
    yields ((appendText children word).map .markup) = yields (children.map .markup) := by
  unfold appendText
  split
  next content span hlast =>
    obtain ⟨before, rfl⟩ := List.getLast?_eq_some_iff.1 hlast
    simp [yield_text]
  next => simp [yield_text]

/-- The tag stays open until it is closed by its name. -/
theorem retains_childStep {name : String} {children : List Markup} (hrules : rules.Retain) :
    Retains (fun _ => false) ⟨[.tag name], g + yields (children.map .markup)⟩
      (turnHand (fun children => ⟨[.tag name], g + yields (children.map .markup)⟩)
        fun children => ⟨[], g + yields (children.map .markup)⟩)
      (childStep rules name children) s := by
  unfold childStep
  rw [retains_peek_bind]
  split
  case h_1 hkind =>
    split
    next hname =>
      have hclosed : (Opening.tag name).closedBy .tagClose s.peek.lexeme = true := by
        rw [hname]
        exact beq_self_eq_true name
      exact retains_advance_bind (passed_closing hkind hclosed) (retains_pure rfl)
    next => exact retains_fail
  case h_2 =>
    refine retains_then (hrules.tag _) fun tag t => retains_pure ?_
    simp [turnHand, yield_tagMarkup, add_assoc]
  case h_3 hkind =>
    refine retains_advance_bind (passed_opening hkind rfl) ?_
    refine retains_then (hrules.conditional _) fun value t => ?_
    refine retains_expect_bind (fun hclose => passed_closing hclose rfl) fun _ => retains_pure ?_
    simp [turnHand, yield_embedded, add_assoc]
  case h_4 hkind =>
    refine retains_advance_bind (passed_silent hkind rfl) (retains_pure ?_)
    rw [turnHand, yields_appendText]
  case h_5 => exact retains_fail
  case h_6 => exact retains_unexpected

theorem harvests_tagRule (hrules : rules.Retain) :
    Harvests (fun t => yield (.tag t)) (tagRule rules) s := by
  unfold tagRule
  have hopening : s.peek.kind = .tagOpen → Passed s.peek [] [.tag s.peek.lexeme] :=
    fun hkind => passed_opening hkind rfl
  refine retains_expect_bind hopening fun _ => ?_
  refine retains_bind (retains_iterate (fun _ _ => retains_tagHeadStep hrules) ⟨[], []⟩) ?_
  rintro ⟨head, selfClosing⟩ t
  let kept (children : List Markup) : Yield :=
    yields (head.attributes.map .attribute) + yields (children.map .markup)
  have hempty : yields (head.attributes.map .attribute) = kept [] := (add_zero _).symm
  have htag : ∀ children u, Retains (fun _ => false) ⟨[], kept children⟩
      (fun t => ⟨[], yield (.tag t)⟩)
      (do return ⟨s.peek.lexeme, head.attributes, head.styles, children, selfClosing,
        ← spanFrom s.peek.span⟩) u := by
    intro children u
    rw [retains_spanFrom_bind]
    exact retains_pure (hand_eq rfl (by simp [kept, TreePart.children]))
  dsimp only
  rw [hempty]
  cases selfClosing with
  | true => exact retains_bind (n := fun children => ⟨[], kept children⟩) (retains_pure rfl) htag
  | false =>
    exact retains_bind (retains_iterate (fun _ _ => retains_childStep hrules) []) htag

/-! ## All expressions -/

theorem retain_exprRules (depth : Nat) : (exprRules depth).Retain := by
  induction depth with
  | zero =>
      exact ⟨fun _ => retains_fail, fun _ _ => retains_fail, fun _ => retains_fail,
        fun _ => retains_fail⟩
  | succ depth ih =>
      have htag : ∀ t, Harvests (fun t => yield (.tag t)) (exprRules (depth + 1)).tag t :=
        fun _ => harvests_tagRule ih
      have hunary : ∀ t, Harvests (fun e => yield (.expr e)) (exprRules (depth + 1)).unary t :=
        fun _ => harvests_unaryRule ih htag
      have hbinary : ∀ least t, Harvests (fun e => yield (.expr e))
          ((exprRules (depth + 1)).binary least) t :=
        fun _ _ => harvests_binaryRule ih hunary
      exact ⟨fun _ => harvests_conditionalRule ih hbinary, hbinary, hunary, htag⟩

theorem harvests_expression : Harvests (fun e => yield (.expr e)) expression s :=
  ((retain_exprRules (s.rest.length + 1)).conditional s).of_eq rfl

theorem harvests_tag : Harvests (fun t => yield (.tag t)) tag s :=
  ((retain_exprRules (s.rest.length + 1)).tag s).of_eq rfl

theorem harvests_headExpression : Harvests (fun e => yield (.expr e)) headExpression s :=
  retains_withHead fun _ _ => harvests_expression

end ComponentLang.Grammar
