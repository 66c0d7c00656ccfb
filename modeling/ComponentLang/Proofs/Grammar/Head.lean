import ComponentLang.Proofs.Grammar.Abreast
import ComponentLang.Proofs.Grammar.Unbounded

/-!
# The head restriction

In the head of a control statement a `[` may begin the body, and the restriction that says so is
lifted within brackets. A reader puts it back behind a failure too, so a head that cannot be read
changes nothing for what is read behind it.

`SameAt b p q` is about two readers that are made in the same way from different ones: where the
restriction is `b` they do the same, and it is `b` again behind them. There is one lemma for each
way of making a reader. Of a reader and itself it says that the restriction is kept.
-/
namespace ComponentLang.Grammar

namespace Parse

variable {α β : Type} {b : Bool}

/-- Whether it succeeds or fails, `p` leaves the head restriction as it was. -/
def KeepsHead (p : Parse α) : Prop := ∀ s : State, (p.run s).2.inHead = s.inHead

/-- Where the head restriction is `b`, `q` does what `p` does, and the restriction is `b` again
behind them. -/
def SameAt (b : Bool) (p q : Parse α) : Prop :=
  ∀ s : State, s.inHead = b → q.run s = p.run s ∧ (p.run s).2.inHead = b

theorem keepsHead_of_sameAt {p q : Parse α} (h : ∀ b, SameAt b p q) : KeepsHead p :=
  fun s => (h s.inHead s rfl).2

theorem sameAt_self {p q : Parse α} (h : SameAt b p q) : SameAt b p p :=
  fun s hs => ⟨rfl, (h s hs).2⟩

/-- Readers that do the same everywhere are one reader. -/
theorem eq_of_sameAt {p q : Parse α} (h : ∀ b, SameAt b p q) : q = p :=
  funext fun s => (h s.inHead s rfl).1

theorem sameAt_bind {p q : Parse β} {f g : β → Parse α} (hp : SameAt b p q)
    (hf : ∀ c, SameAt b (f c) (g c)) : SameAt b (p >>= f) (q >>= g) := by
  intro s hs
  obtain ⟨hrun, hhead⟩ := hp s hs
  rw [run_bind, run_bind, hrun]
  generalize p.run s = ended at hhead
  obtain ⟨outcome, t⟩ := ended
  cases outcome with
  | ok c => exact hf c t hhead
  | error e => exact ⟨rfl, hhead⟩

theorem sameAt_map {p q : Parse β} {f : β → α} (h : SameAt b p q) :
    SameAt b (f <$> p) (f <$> q) := by
  rw [map_eq_pure_bind, map_eq_pure_bind]
  exact sameAt_bind h fun c s hs => ⟨rfl, hs⟩

/-- Readers that are chosen by looking at the state are the same if the chosen ones are. -/
theorem sameAt_of_eq {p q : Parse α} {choose choose' : State → Parse α}
    (h : ∀ s, SameAt b (choose s) (choose' s)) (hp : ∀ s, p s = choose s s)
    (hq : ∀ s, q s = choose' s s) : SameAt b p q := by
  intro s hs
  have hrunp : p.run s = (choose s).run s := hp s
  have hrunq : q.run s = (choose' s).run s := hq s
  rw [hrunp, hrunq]
  exact h s s hs

/-! ## Single steps -/

theorem sameAt_pure (a : α) : SameAt b (pure a : Parse α) (pure a) := fun _ hs => ⟨rfl, hs⟩

theorem sameAt_throw (e : Problem) : SameAt b (throw e : Parse α) (throw e) := fun _ hs => ⟨rfl, hs⟩

theorem sameAt_get : SameAt b (get : Parse State) get := fun _ hs => ⟨rfl, hs⟩

theorem sameAt_peek : SameAt b peek peek := fun _ hs => ⟨rfl, hs⟩

theorem sameAt_kind : SameAt b kind kind := fun _ hs => ⟨rfl, hs⟩

theorem sameAt_here : SameAt b here here := fun _ hs => ⟨rfl, hs⟩

theorem sameAt_spanFrom {start : Span} : SameAt b (spanFrom start) (spanFrom start) :=
  fun _ hs => ⟨rfl, hs⟩

theorem sameAt_node {span : Span} : SameAt b (node span) (node span) := fun _ hs => ⟨rfl, hs⟩

theorem sameAt_fail {cause : Cause} : SameAt b (fail cause : Parse α) (fail cause) :=
  fun _ hs => ⟨rfl, hs⟩

theorem sameAt_unexpected {expected : Expected} :
    SameAt b (unexpected expected : Parse α) (unexpected expected) := fun _ hs => ⟨rfl, hs⟩

theorem sameAt_advance : SameAt b advance advance := fun s hs => ⟨rfl, s.inHead_next.trans hs⟩

theorem sameAt_eat {kind : TokenKind} : SameAt b (eat kind) (eat kind) := by
  intro s hs
  have hrun : (eat kind).run s = if s.kind = kind then (.ok true, s.next) else (.ok false, s) := by
    unfold eat run
    rw [get_bind]
    split <;> rfl
  refine ⟨rfl, ?_⟩
  rw [hrun]
  split
  · exact s.inHead_next.trans hs
  · exact hs

theorem sameAt_expect {kind : TokenKind} {expected : Expected} :
    SameAt b (expect kind expected) (expect kind expected) := by
  unfold expect
  apply sameAt_bind sameAt_get
  intro s
  split
  · exact sameAt_advance
  · exact sameAt_unexpected

theorem sameAt_expectIdentifier {expected : Expected} :
    SameAt b (expectIdentifier expected) (expectIdentifier expected) :=
  sameAt_bind sameAt_expect fun token => sameAt_pure token.lexeme

/-! ## Readers made from readers -/

/-- Under a restriction of their own readers do the same whatever it is around them. -/
theorem sameAt_withHead {inHead : Bool} {p q : Parse α} (h : SameAt inHead p q) :
    SameAt b (withHead inHead p) (withHead inHead q) := by
  intro s hs
  have hrun : q.run { s with inHead } = p.run { s with inHead } := (h { s with inHead } rfl).1
  refine ⟨?_, hs⟩
  show ((q.run { s with inHead }).1, { (q.run { s with inHead }).2 with inHead := s.inHead }) = _
  rw [hrun]
  rfl

theorem sameAt_nested {p q : Parse α} (h : SameAt false p q) : SameAt b (nested p) (nested q) :=
  sameAt_withHead h

theorem sameAt_attempt {p q : Parse α} (h : SameAt b p q) : SameAt b (attempt p) (attempt q) := by
  intro s hs
  obtain ⟨hrun, hhead⟩ := h s hs
  refine ⟨?_, hhead⟩
  show (Except.ok (q.run s).1, (q.run s).2) = _
  rw [hrun]
  rfl

theorem sameAt_eat_if {kind : TokenKind} {p p' q q' : Parse α} (hp : SameAt b p q)
    (hp' : SameAt b p' q') :
    SameAt b (eat kind >>= fun taken => if taken = true then p else p')
      (eat kind >>= fun taken => if taken = true then q else q') := by
  apply sameAt_bind sameAt_eat
  intro taken
  split
  · exact hp
  · exact hp'

/-- A reader written in two parts, of which one is for the tokens of one kind. -/
theorem sameAt_kind_if {special : TokenKind} {p atSpecial atSpecial' other : Parse α}
    (hp : ∀ s : State, s.kind = special → p.run s = atSpecial.run s)
    (hspecial : SameAt b atSpecial atSpecial')
    (hother : ∀ s : State, s.inHead = b → s.kind ≠ special →
      other.run s = p.run s ∧ (p.run s).2.inHead = b) :
    SameAt b p (kind >>= fun next => if next = special then atSpecial' else other) := by
  intro s hs
  have hrun : (kind >>= fun next => if next = special then atSpecial' else other : Parse α).run s =
      (if s.kind = special then atSpecial' else other).run s := rfl
  rw [hrun]
  split
  next hkind =>
    rw [hp s hkind]
    exact hspecial s hs
  next hkind => exact hother s hs hkind

/-- One of two readers, and the same after either. -/
theorem sameAt_ite_bind {c : Prop} [Decidable c] {p p' q q' : Parse β} {f g : β → Parse α}
    (hp : SameAt b p q) (hp' : SameAt b p' q') (hf : ∀ d, SameAt b (f d) (g d)) :
    SameAt b (if c then p >>= f else p' >>= f) (if c then q >>= g else q' >>= g) := by
  split
  · exact sameAt_bind hp hf
  · exact sameAt_bind hp' hf

theorem sameAt_iterate {turn turn' : β → Parse (Turn β α)} (h : ∀ c, SameAt b (turn c) (turn' c))
    (c : β) : SameAt b (iterate turn c) (iterate turn' c) := by
  have hfor : ∀ turns c, SameAt b (iterateFor turn turns c) (iterateFor turn' turns c) := by
    intro turns
    induction turns with
    | zero => exact fun _ => sameAt_fail
    | succ turns ih =>
        intro c
        unfold iterateFor
        apply sameAt_bind (h c)
        intro turned
        cases turned with
        | again c => exact ih c
        | done a => exact sameAt_pure a
  exact sameAt_bind sameAt_get fun _ => hfor _ c

theorem sameAt_commaSeparated {close : TokenKind} {item item' : Parse α}
    (h : SameAt b item item') :
    SameAt b (commaSeparated close item) (commaSeparated close item') := by
  unfold commaSeparated
  refine sameAt_iterate (fun items => ?_) []
  apply sameAt_bind sameAt_get
  intro s
  split
  · exact sameAt_pure _
  · apply sameAt_bind h
    intro a
    exact sameAt_eat_if (sameAt_pure _) (sameAt_pure _)

end Parse

/-! ## Expressions

The rules for operators and operands read what is in brackets where the restriction is lifted, so a
tag is read there, whatever the restriction is around the expression that it stands in. -/

open Parse

/-- The rules do the same, tags where the restriction is lifted and all else anywhere. -/
structure ExprRules.Same (rules rules' : ExprRules) : Prop where
  conditional (b : Bool) : SameAt b rules.conditional rules'.conditional
  binary (b : Bool) (least : Nat) : SameAt b (rules.binary least) (rules'.binary least)
  unary (b : Bool) : SameAt b rules.unary rules'.unary
  tag : SameAt false rules.tag rules'.tag

variable {b : Bool} {rules rules' : ExprRules} {tag tag' : Parse Tag}

/-! ### Operands -/

section Operands

variable (hconditional : SameAt b rules.conditional rules'.conditional)

include hconditional

theorem sameAt_propertyValue : SameAt b (propertyValue rules) (propertyValue rules') :=
  sameAt_eat_if hconditional sameAt_unexpected

theorem sameAt_property : SameAt b (property rules) (property rules') := by
  unfold property
  apply sameAt_bind sameAt_peek
  intro key
  split
  · apply sameAt_bind sameAt_advance
    intro _
    apply sameAt_bind hconditional
    intro computed
    apply sameAt_bind sameAt_expect
    intro _
    apply sameAt_bind (sameAt_propertyValue hconditional)
    exact fun value => sameAt_pure _
  · split
    · apply sameAt_bind sameAt_advance
      intro _
      apply sameAt_bind sameAt_get
      intro s
      split
      · exact sameAt_bind sameAt_node fun node => sameAt_pure _
      · exact sameAt_bind (sameAt_propertyValue hconditional) fun value => sameAt_pure _
    · exact sameAt_unexpected

theorem sameAt_objectLiteral : SameAt b (objectLiteral rules) (objectLiteral rules') := by
  unfold objectLiteral
  apply sameAt_bind sameAt_advance
  intro start
  apply sameAt_bind (sameAt_commaSeparated (sameAt_property hconditional))
  intro properties
  apply sameAt_bind sameAt_expect
  intro _
  apply sameAt_bind sameAt_spanFrom
  intro span
  exact sameAt_bind sameAt_node fun node => sameAt_pure _

theorem sameAt_expressionsUpTo {close : TokenKind} {expected : Expected} :
    SameAt b (expressionsUpTo rules close expected) (expressionsUpTo rules' close expected) := by
  unfold expressionsUpTo
  apply sameAt_bind (sameAt_commaSeparated hconditional)
  intro items
  exact sameAt_bind sameAt_expect fun _ => sameAt_pure _

end Operands

theorem sameAt_leaf {build : Node → Expr} : SameAt b (leaf build) (leaf build) := by
  unfold leaf
  apply sameAt_bind sameAt_advance
  intro token
  exact sameAt_bind sameAt_node fun node => sameAt_pure _

theorem sameAt_primary (hconditional : SameAt false rules.conditional rules'.conditional)
    (htag : SameAt false tag tag') : SameAt b (primary rules tag) (primary rules' tag') := by
  unfold primary
  apply sameAt_bind sameAt_peek
  intro token
  split
  case h_1 | h_2 | h_3 | h_4 | h_5 | h_6 => exact sameAt_leaf
  case h_7 =>
    apply sameAt_bind sameAt_advance
    intro _
    apply sameAt_bind (sameAt_nested hconditional)
    intro inner
    exact sameAt_bind sameAt_expect fun _ => sameAt_pure _
  case h_8 =>
    apply sameAt_bind sameAt_advance
    intro _
    apply sameAt_bind (sameAt_nested (sameAt_expressionsUpTo hconditional))
    intro items
    apply sameAt_bind sameAt_spanFrom
    intro span
    exact sameAt_bind sameAt_node fun node => sameAt_pure _
  case h_9 => exact sameAt_nested (sameAt_objectLiteral hconditional)
  case h_10 =>
    apply sameAt_bind (sameAt_nested htag)
    intro tag
    exact sameAt_bind sameAt_node fun node => sameAt_pure _
  case h_11 => exact sameAt_unexpected

theorem sameAt_suffix {object : Expr}
    (hconditional : SameAt false rules.conditional rules'.conditional) :
    SameAt b (suffix rules object) (suffix rules' object) := by
  unfold suffix
  apply sameAt_bind sameAt_get
  intro s
  split
  · apply sameAt_bind sameAt_advance
    intro _
    apply sameAt_bind (sameAt_nested (sameAt_expressionsUpTo hconditional))
    intro arguments
    apply sameAt_bind sameAt_spanFrom
    intro span
    exact sameAt_bind sameAt_node fun node => sameAt_pure _
  · apply sameAt_bind sameAt_advance
    intro _
    apply sameAt_bind sameAt_kind
    intro kind
    split
    · apply sameAt_bind sameAt_advance
      intro property
      apply sameAt_bind sameAt_spanFrom
      intro span
      exact sameAt_bind sameAt_node fun node => sameAt_pure _
    · exact sameAt_unexpected
  · split
    · apply sameAt_bind sameAt_advance
      intro _
      apply sameAt_bind (sameAt_nested hconditional)
      intro index
      apply sameAt_bind sameAt_expect
      intro _
      apply sameAt_bind sameAt_spanFrom
      intro span
      exact sameAt_bind sameAt_node fun node => sameAt_pure _
    · exact sameAt_pure _
  · exact sameAt_pure _

theorem sameAt_operand (hconditional : SameAt false rules.conditional rules'.conditional)
    (htag : SameAt false tag tag') : SameAt b (operand rules tag) (operand rules' tag') := by
  unfold operand
  apply sameAt_bind (sameAt_primary hconditional htag)
  intro object
  exact sameAt_iterate (fun _ => sameAt_suffix hconditional) object

/-! ### Operators -/

theorem sameAt_unaryRule (hconditional : SameAt false rules.conditional rules'.conditional)
    (hunary : SameAt b rules.unary rules'.unary) (htag : SameAt false tag tag') :
    SameAt b (unaryRule rules tag) (unaryRule rules' tag') := by
  unfold unaryRule
  apply sameAt_bind sameAt_peek
  intro token
  split
  · apply sameAt_bind sameAt_advance
    intro _
    apply sameAt_bind hunary
    intro operand
    exact sameAt_bind sameAt_node fun node => sameAt_pure _
  · split
    · apply sameAt_bind sameAt_advance
      intro _
      apply sameAt_bind hunary
      intro operand
      exact sameAt_bind sameAt_node fun node => sameAt_pure _
    · exact sameAt_operand hconditional htag

theorem sameAt_binaryStep {least : Nat} {left : Expr}
    (hbinary : ∀ least, SameAt b (rules.binary least) (rules'.binary least)) :
    SameAt b (binaryStep rules least left) (binaryStep rules' least left) := by
  unfold binaryStep
  apply sameAt_bind sameAt_kind
  intro kind
  split
  · split
    · exact sameAt_pure _
    · apply sameAt_bind sameAt_advance
      intro _
      apply sameAt_bind (hbinary _)
      intro right
      exact sameAt_bind sameAt_node fun node => sameAt_pure _
  · exact sameAt_pure _

theorem sameAt_binaryRule {unary unary' : Parse Expr} {least : Nat}
    (hbinary : ∀ least, SameAt b (rules.binary least) (rules'.binary least))
    (hunary : SameAt b unary unary') :
    SameAt b (binaryRule rules unary least) (binaryRule rules' unary' least) := by
  unfold binaryRule
  apply sameAt_bind hunary
  intro left
  exact sameAt_iterate (fun _ => sameAt_binaryStep hbinary) left

theorem sameAt_conditionalRule {binary binary' : Nat → Parse Expr}
    (hconditional : ∀ b, SameAt b rules.conditional rules'.conditional)
    (hbinary : SameAt b (binary 1) (binary' 1)) :
    SameAt b (conditionalRule rules binary) (conditionalRule rules' binary') := by
  unfold conditionalRule
  apply sameAt_bind hbinary
  intro test
  apply sameAt_eat_if
  · apply sameAt_bind (sameAt_nested (hconditional false))
    intro consequent
    apply sameAt_bind sameAt_expect
    intro _
    apply sameAt_bind (hconditional b)
    intro alternate
    exact sameAt_bind sameAt_node fun node => sameAt_pure _
  · exact sameAt_pure _

/-! ### Tags -/

section Tags

variable (hconditional : SameAt b rules.conditional rules'.conditional)

include hconditional

theorem sameAt_attributeValue : SameAt b (attributeValue rules) (attributeValue rules') := by
  unfold attributeValue
  apply sameAt_bind sameAt_peek
  intro token
  split
  case h_1 =>
    apply sameAt_bind sameAt_advance
    intro _
    apply sameAt_bind hconditional
    intro value
    exact sameAt_bind sameAt_expect fun _ => sameAt_pure _
  case h_2 | h_3 | h_4 | h_5 => exact sameAt_leaf
  case h_6 => exact sameAt_unexpected

theorem sameAt_tagAttribute : SameAt b (tagAttribute rules) (tagAttribute rules') := by
  unfold tagAttribute
  apply sameAt_bind sameAt_advance
  intro name
  apply sameAt_bind sameAt_eat
  intro taken
  apply sameAt_ite_bind (sameAt_map (sameAt_attributeValue hconditional)) (sameAt_pure none)
  intro value
  exact sameAt_bind sameAt_spanFrom fun span => sameAt_pure _

theorem sameAt_tagHeadStep {name : String} {head : TagHead} :
    SameAt b (tagHeadStep rules name head) (tagHeadStep rules' name head) := by
  unfold tagHeadStep
  apply sameAt_bind sameAt_peek
  intro token
  split
  case h_1 | h_2 =>
    exact sameAt_bind (sameAt_tagAttribute hconditional) fun added => sameAt_pure _
  case h_3 | h_4 | h_5 => exact sameAt_bind sameAt_advance fun _ => sameAt_pure _
  case h_6 => exact sameAt_unexpected

theorem sameAt_childStep {name : String} {children : List Markup}
    (htag : SameAt b rules.tag rules'.tag) :
    SameAt b (childStep rules name children) (childStep rules' name children) := by
  unfold childStep
  apply sameAt_bind sameAt_peek
  intro token
  split
  case h_1 =>
    split
    · exact sameAt_bind sameAt_advance fun _ => sameAt_pure _
    · exact sameAt_fail
  case h_2 => exact sameAt_bind htag fun tag => sameAt_pure _
  case h_3 =>
    apply sameAt_bind sameAt_advance
    intro _
    apply sameAt_bind hconditional
    intro value
    exact sameAt_bind sameAt_expect fun _ => sameAt_pure _
  case h_4 => exact sameAt_bind sameAt_advance fun _ => sameAt_pure _
  case h_5 => exact sameAt_fail
  case h_6 => exact sameAt_unexpected

theorem sameAt_tagRule (htag : SameAt b rules.tag rules'.tag) :
    SameAt b (tagRule rules) (tagRule rules') := by
  unfold tagRule
  apply sameAt_bind sameAt_expect
  intro opening
  apply sameAt_bind (sameAt_iterate (fun _ => sameAt_tagHeadStep hconditional) _)
  rintro ⟨head, selfClosing⟩
  apply sameAt_ite_bind (sameAt_pure [])
    (sameAt_iterate (fun _ => sameAt_childStep hconditional htag) [])
  intro children
  exact sameAt_bind sameAt_spanFrom fun span => sameAt_pure _

end Tags

/-! ### All expressions -/

/-- Rules that are made from the same rules are the same. -/
theorem ExprRules.Same.next (h : rules.Same rules') (htag : SameAt false tag tag') :
    ExprRules.Same
      ⟨conditionalRule rules (binaryRule rules (unaryRule rules tag)),
        binaryRule rules (unaryRule rules tag), unaryRule rules tag, tag⟩
      ⟨conditionalRule rules' (binaryRule rules' (unaryRule rules' tag')),
        binaryRule rules' (unaryRule rules' tag'), unaryRule rules' tag', tag'⟩ := by
  have hunary (b : Bool) : SameAt b (unaryRule rules tag) (unaryRule rules' tag') :=
    sameAt_unaryRule (h.conditional false) (h.unary b) htag
  have hbinary (b : Bool) (least : Nat) :
      SameAt b (binaryRule rules (unaryRule rules tag) least)
        (binaryRule rules' (unaryRule rules' tag') least) :=
    sameAt_binaryRule (h.binary b) (hunary b)
  exact ⟨fun b => sameAt_conditionalRule h.conditional (hbinary b 1), hbinary, hunary, htag⟩

theorem same_exprRules_zero : (exprRules 0).Same (exprRules 0) :=
  ⟨fun _ => sameAt_fail, fun _ _ => sameAt_fail, fun _ => sameAt_fail, sameAt_fail⟩

theorem same_exprRules (depth : Nat) : (exprRules depth).Same (exprRules depth) := by
  induction depth with
  | zero => exact same_exprRules_zero
  | succ depth ih => exact ih.next (sameAt_tagRule (ih.conditional false) ih.tag)

/-- Tags are not read in a head, but there too the restriction would stay as it is. -/
theorem sameAt_tag_exprRules (depth : Nat) :
    SameAt b (exprRules depth).tag (exprRules depth).tag := by
  induction depth with
  | zero => exact sameAt_fail
  | succ depth ih => exact sameAt_tagRule ((same_exprRules depth).conditional b) ih

theorem sameAt_expression : SameAt b expression expression :=
  sameAt_of_eq (fun s => (same_exprRules (s.rest.length + 1)).conditional b) (fun _ => rfl)
    fun _ => rfl

theorem sameAt_tag : SameAt b Grammar.tag Grammar.tag :=
  sameAt_of_eq (fun s => sameAt_tag_exprRules (s.rest.length + 1)) (fun _ => rfl) fun _ => rfl

theorem sameAt_headExpression : SameAt b headExpression headExpression :=
  sameAt_withHead sameAt_expression

theorem same_allRules : allRules.Same allRules where
  conditional _ := sameAt_expression
  binary b least :=
    sameAt_of_eq (fun s => (same_exprRules (s.rest.length + 1)).binary b least) (fun _ => rfl)
      fun _ => rfl
  unary b :=
    sameAt_of_eq (fun s => (same_exprRules (s.rest.length + 1)).unary b) (fun _ => rfl)
      fun _ => rfl
  tag := sameAt_tag

end ComponentLang.Grammar
