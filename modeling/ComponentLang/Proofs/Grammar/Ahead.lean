import ComponentLang.Proofs.Grammar.Program

/-!
# The declaration ahead of debris

Tokens among which no statement can begin are read as an expression or dropped. Wherever that
fails, it fails among them or right behind them: a keyword at which a statement begins continues
no expression and no markup, and only after a point may it be taken as a name.
-/
namespace ComponentLang.Grammar

open Parse

/-- Whether a token of this kind is neither a word of the language nor the beginning of a block or
of a modifier, and is read at all and not the end. -/
def isDebris : TokenKind → Bool
  | .keyword _ | .lbrace | .atModifier | .asyncBlock | .eof | .error | .errorRecovery => false
  | _ => true

/-- Tokens in which no statement but an expression can begin, the last of which asks for no name. -/
structure Debris (b : List Token) : Prop where
  kinds : ∀ t ∈ b, isDebris t.kind = true
  last : b.getLast?.map Token.kind ≠ some .dot

/-- The tokens begin with a keyword at which a statement begins. -/
def BeginsStatement (d : List Token) : Prop :=
  ∃ first rest word, d = first :: rest ∧ first.kind = .keyword word ∧ word.startsStatement = true

/-- What comes is debris, and then `d`. -/
def State.Ahead (d : List Token) (s : State) : Prop :=
  ∃ b, s.rest = b ++ d ∧ Debris b

theorem Debris.tail {t : Token} {b : List Token} (h : Debris (t :: b)) : Debris b where
  kinds u hu := h.kinds u (List.mem_cons_of_mem t hu)
  last := by
    have hlast := h.last
    cases b with
    | nil => simp
    | cons u b => rwa [List.getLast?_cons_cons] at hlast

variable {d : List Token} {s t : State}

theorem State.next_eq {first : Token} {rest : List Token} (h : s.rest = first :: rest) :
    s.next = { s with rest, previous := some first.span } := by
  unfold State.next
  rw [h]

theorem State.kind_of_rest {first : Token} {rest : List Token} (h : s.rest = first :: rest) :
    s.kind = first.kind := by
  unfold State.kind State.peek
  rw [h]

namespace State.Ahead

/-- The next token is debris, or it is the keyword. -/
theorem kind (h : s.Ahead d) (hd : BeginsStatement d) :
    isDebris s.kind = true ∨ ∃ word, s.kind = .keyword word ∧ word.startsStatement = true := by
  obtain ⟨b, hrest, hb⟩ := h
  cases b with
  | nil =>
      obtain ⟨first, rest, word, rfl, hfirst, hword⟩ := hd
      rw [State.kind_of_rest hrest]
      exact .inr ⟨word, hfirst, hword⟩
  | cons first b =>
      rw [State.kind_of_rest hrest]
      exact .inl (hb.kinds first List.mem_cons_self)

/-- What is not a keyword may be taken. -/
theorem next (h : s.Ahead d) (hd : BeginsStatement d) (hkind : ∀ word, s.kind ≠ .keyword word) :
    s.next.Ahead d := by
  obtain ⟨b, hrest, hb⟩ := h
  cases b with
  | nil =>
      obtain ⟨first, rest, word, rfl, hfirst, _⟩ := hd
      rw [State.kind_of_rest hrest, hfirst] at hkind
      exact absurd rfl (hkind word)
  | cons first b =>
      have hnext : s.next.rest = b ++ d := by
        rw [State.next_eq hrest]
        rfl
      exact ⟨b, hnext, hb.tail⟩

/-- After a point there is more debris. -/
theorem debris_of_dot (h : s.Ahead d) (hd : BeginsStatement d) (hkind : s.kind = .dot) :
    isDebris s.next.kind = true := by
  obtain ⟨b, hrest, hb⟩ := h
  cases b with
  | nil =>
      obtain ⟨first, rest, word, rfl, hfirst, _⟩ := hd
      rw [State.kind_of_rest hrest, hfirst] at hkind
      cases hkind
  | cons first b =>
      have hfirst : first.kind = .dot := by rw [← State.kind_of_rest hrest, hkind]
      cases b with
      | nil => exact absurd (by simp [hfirst]) hb.last
      | cons second b =>
          have hnext : s.next.rest = second :: (b ++ d) := by
            rw [State.next_eq hrest]
            rfl
          rw [State.kind_of_rest hnext]
          exact hb.kinds second (by simp)

end State.Ahead

theorem State.ne_keyword {kind : TokenKind} (hkind : s.kind = kind)
    (hplain : isDebris kind = true) : ∀ word, s.kind ≠ .keyword word := by
  intro word hword
  rw [← hkind, hword] at hplain
  cases hplain

/-! ## Readers that stay -/

/-- From `s` to `t` nothing of `d` is taken, and the restriction of a head is as before. -/
structure State.Stays (d : List Token) (s t : State) : Prop where
  ahead : t.Ahead d
  inHead : t.inHead = s.inHead
  stop : t.stop = s.stop

theorem State.Stays.trans {u : State} (h : s.Stays d t) (h' : t.Stays d u) : s.Stays d u :=
  ⟨h'.ahead, h'.inHead.trans h.inHead, h'.stop.trans h.stop⟩

/-- However `p` ends at `s`, it takes nothing of `d`. -/
def Leaves {α : Type} (d : List Token) (p : Parse α) (s : State) : Prop :=
  Ends (fun _ t => s.Stays d t) (fun _ t => s.Stays d t) p s

section Rules

variable {α β γ : Type} {p : Parse β} {f : β → Parse α}

theorem leaves_pure (hs : s.Ahead d) (a : α) : Leaves d (pure a) s :=
  ⟨hs, rfl, rfl⟩

theorem leaves_throw (hs : s.Ahead d) (e : Problem) : Leaves d (throw e : Parse α) s :=
  ⟨hs, rfl, rfl⟩

theorem leaves_fail (hs : s.Ahead d) (cause : Cause) : Leaves d (fail cause : Parse α) s :=
  ⟨hs, rfl, rfl⟩

theorem leaves_unexpected (hs : s.Ahead d) (expected : Expected) :
    Leaves d (unexpected expected : Parse α) s :=
  ⟨hs, rfl, rfl⟩

theorem Leaves.from {p : Parse α} (hst : s.Stays d t) (h : Leaves d p t) :
    Ends (fun _ u => s.Stays d u) (fun _ u => s.Stays d u) p t :=
  Ends.mono h (fun _ _ htu => hst.trans htu) fun _ _ htu => hst.trans htu

/-- A reader that is chosen by looking at the state does there what the chosen one does. -/
theorem Leaves.of_eq {p q : Parse α} (h : Leaves d q s) (heq : p s = q s) : Leaves d p s := by
  have hrun : p.run s = q.run s := heq
  unfold Leaves Ends at *
  rw [hrun]
  exact h

theorem leaves_bind (hp : Leaves d p s) (hf : ∀ b t, t.Ahead d → Leaves d (f b) t) :
    Leaves d (p >>= f) s := by
  unfold Leaves
  rw [ends_bind]
  apply Ends.mono hp
  · intro b t hst
    exact (hf b t hst.ahead).from hst
  · exact fun _ _ hst => hst

theorem leaves_map {g : β → α} (hp : Leaves d p s) : Leaves d (g <$> p) s := by
  rw [map_eq_pure_bind]
  apply leaves_bind hp
  intro b t ht
  exact leaves_pure ht _

theorem leaves_node_bind {span : Span} {f : Node → Parse α} (hs : s.Ahead d)
    (hf : ∀ node t, t.Ahead d → Leaves d (f node) t) : Leaves d (node span >>= f) s :=
  leaves_bind (p := node span) ⟨hs, rfl, rfl⟩ hf

theorem leaves_get_bind {f : State → Parse α} (h : Leaves d (f s) s) :
    Leaves d (get >>= f) s := h

theorem leaves_peek_bind {f : Token → Parse α} (h : Leaves d (f s.peek) s) :
    Leaves d (peek >>= f) s := h

theorem leaves_kind_bind {f : TokenKind → Parse α} (h : Leaves d (f s.kind) s) :
    Leaves d (kind >>= f) s := h

theorem leaves_here_bind {f : Span → Parse α} (h : Leaves d (f s.here) s) :
    Leaves d (here >>= f) s := h

theorem leaves_spanFrom_bind {start : Span} {f : Span → Parse α}
    (hf : ∀ span, Leaves d (f span) s) : Leaves d (spanFrom start >>= f) s :=
  hf _

theorem State.stays_next (hs : s.Ahead d) (hd : BeginsStatement d)
    (hkind : ∀ word, s.kind ≠ .keyword word) : s.Stays d s.next where
  ahead := hs.next hd hkind
  inHead := by
    unfold State.next
    split <;> rfl
  stop := by
    unfold State.next
    split <;> rfl

theorem leaves_report_bind {problem : Problem} {f : PUnit → Parse α} (hs : s.Ahead d)
    (hf : ∀ t, t.Ahead d → Leaves d (f ⟨⟩) t) :
    Leaves d ((modify fun s => s.report problem : Parse PUnit) >>= f) s := by
  have hreport : s.Stays d (s.report problem) := ⟨hs, rfl, rfl⟩
  unfold Leaves
  rw [ends_modify_bind]
  exact (hf _ hreport.ahead).from hreport

theorem leaves_advance_bind {f : Token → Parse α} (hd : BeginsStatement d) (hs : s.Ahead d)
    (hkind : ∀ word, s.kind ≠ .keyword word)
    (hf : s.next.Ahead d → Leaves d (f s.peek) s.next) : Leaves d (advance >>= f) s := by
  have hnext := State.stays_next hs hd hkind
  unfold Leaves
  rw [ends_advance_bind]
  exact (hf hnext.ahead).from hnext

theorem leaves_eat_bind {kind : TokenKind} {f : Bool → Parse α} (hd : BeginsStatement d)
    (hs : s.Ahead d) (hkind : ∀ word, kind ≠ .keyword word)
    (htaken : s.kind = kind → s.next.Ahead d → Leaves d (f true) s.next)
    (hleft : Leaves d (f false) s) : Leaves d (eat kind >>= f) s := by
  unfold Leaves
  rw [ends_eat_bind]
  split
  next h =>
    have hnext := State.stays_next hs hd (by rwa [h])
    exact (htaken h hnext.ahead).from hnext
  next => exact hleft

theorem leaves_expect_bind {kind : TokenKind} {expected : Expected} {f : Token → Parse α}
    (hd : BeginsStatement d) (hs : s.Ahead d) (hkind : ∀ word, kind ≠ .keyword word)
    (hf : ∀ token t, t.Ahead d → Leaves d (f token) t) :
    Leaves d (expect kind expected >>= f) s := by
  have hexpect : Leaves d (expect kind expected) s := by
    unfold expect Leaves
    rw [ends_get_bind]
    split
    next h => exact State.stays_next hs hd (by rwa [h])
    next => exact leaves_unexpected hs expected
  exact leaves_bind hexpect hf

theorem leaves_nested {p : Parse α} (hs : s.Ahead d) (hp : ∀ t, t.Ahead d → Leaves d p t) :
    Leaves d (nested p) s := by
  have hinside : Leaves d p { s with inHead := false } := hp _ hs
  unfold Leaves nested
  rw [ends_withHead]
  apply Ends.mono hinside
  · exact fun _ _ h => ⟨h.ahead, rfl, h.stop⟩
  · exact fun _ _ h => ⟨h.ahead, rfl, h.stop⟩

theorem leaves_attempt_bind {f : Except Problem β → Parse α} (hp : Leaves d p s)
    (hf : ∀ result t, t.Ahead d → Leaves d (f result) t) : Leaves d (attempt p >>= f) s := by
  apply ends_attempt_bind hp
  · intro b t hst
    exact (hf _ t hst.ahead).from hst
  · intro e t hst
    exact (hf _ t hst.ahead).from hst

theorem leaves_iterate {turn : β → Parse (Turn β α)} (hs : s.Ahead d)
    (hturn : ∀ b t, t.Ahead d → Leaves d (turn b) t) (b : β) : Leaves d (iterate turn b) s := by
  have hloop : ∀ turns b {s : State}, s.Ahead d → Leaves d (iterateFor turn turns b) s := by
    intro turns
    induction turns with
    | zero => exact fun _ _ hs => leaves_fail hs _
    | succ turns ih =>
        intro b s hs
        unfold iterateFor
        apply leaves_bind (hturn b s hs)
        intro turned t ht
        cases turned with
        | again b => exact ih b ht
        | done a => exact leaves_pure ht a
  exact hloop _ b hs

theorem leaves_commaSeparated {close : TokenKind} {item : Parse α} (hd : BeginsStatement d)
    (hs : s.Ahead d) (hitem : ∀ t, t.Ahead d → Leaves d item t) :
    Leaves d (commaSeparated close item) s := by
  unfold commaSeparated
  apply leaves_iterate hs
  intro items t ht
  unfold Leaves
  rw [ends_get_bind]
  split
  · exact leaves_pure ht _
  · apply leaves_bind (hitem t ht)
    intro a u hu
    apply leaves_eat_bind hd hu (by simp)
    · intro _ hnext
      exact leaves_pure hnext _
    · exact leaves_pure hu _

end Rules

/-! ## Expressions -/

/-- The rules take nothing of `d`, wherever they begin ahead of it. -/
structure ExprRules.Leave (d : List Token) (rules : ExprRules) : Prop where
  conditional {s : State} (hs : s.Ahead d) : Leaves d rules.conditional s
  binary (least : Nat) {s : State} (hs : s.Ahead d) : Leaves d (rules.binary least) s
  unary {s : State} (hs : s.Ahead d) : Leaves d rules.unary s
  tag {s : State} (hs : s.Ahead d) : Leaves d rules.tag s

section Expressions

variable {rules : ExprRules} (hd : BeginsStatement d) (hrules : rules.Leave d)

include hd

theorem leaves_leaf {build : Node → Expr} (hs : s.Ahead d)
    (hkind : ∀ word, s.kind ≠ .keyword word) : Leaves d (leaf build) s := by
  unfold leaf
  apply leaves_advance_bind hd hs hkind
  intro hnext
  apply leaves_node_bind hnext
  intro node t ht
  exact leaves_pure ht _

include hrules

theorem leaves_expressionsUpTo {close : TokenKind} {expected : Expected} (hs : s.Ahead d)
    (hclose : ∀ word, close ≠ .keyword word) :
    Leaves d (expressionsUpTo rules close expected) s := by
  unfold expressionsUpTo
  apply leaves_bind (leaves_commaSeparated hd hs fun _ ht => hrules.conditional ht)
  intro items t ht
  apply leaves_expect_bind hd ht hclose
  intro _ u hu
  exact leaves_pure hu items

theorem leaves_primary {tag : Parse Tag} (hs : s.Ahead d)
    (htag : ∀ {t : State}, t.Ahead d → Leaves d tag t) : Leaves d (primary rules tag) s := by
  unfold primary
  apply leaves_peek_bind
  split
  case h_1 hkind | h_2 hkind | h_3 hkind | h_4 hkind | h_5 hkind | h_6 hkind =>
    exact leaves_leaf hd hs (State.ne_keyword hkind rfl)
  case h_7 hkind =>
    apply leaves_advance_bind hd hs (State.ne_keyword hkind rfl)
    intro hnext
    apply leaves_bind (leaves_nested hnext fun _ ht => hrules.conditional ht)
    intro inner t ht
    apply leaves_expect_bind hd ht (by simp)
    intro _ u hu
    exact leaves_pure hu inner
  case h_8 hkind =>
    apply leaves_advance_bind hd hs (State.ne_keyword hkind rfl)
    intro hnext
    apply leaves_bind (leaves_nested hnext fun _ ht =>
      leaves_expressionsUpTo hd hrules ht (by simp))
    intro items t ht
    apply leaves_spanFrom_bind
    intro span
    apply leaves_node_bind ht
    intro node u hu
    exact leaves_pure hu _
  case h_9 hkind =>
    have hbrace : s.kind = .lbrace := hkind
    rcases hs.kind hd with hdebris | ⟨word, hword, _⟩
    · rw [hbrace] at hdebris
      cases hdebris
    · rw [hbrace] at hword
      cases hword
  case h_10 =>
    apply leaves_bind (leaves_nested hs fun _ ht => htag ht)
    intro tag t ht
    apply leaves_node_bind ht
    intro node u hu
    exact leaves_pure hu _
  case h_11 => exact leaves_unexpected hs _

theorem leaves_suffix {object : Expr} (hs : s.Ahead d) : Leaves d (suffix rules object) s := by
  unfold suffix
  apply leaves_get_bind
  split
  next hkind =>
    apply leaves_advance_bind hd hs (State.ne_keyword hkind rfl)
    intro hnext
    apply leaves_bind (leaves_nested hnext fun _ ht =>
      leaves_expressionsUpTo hd hrules ht (by simp))
    intro arguments t ht
    apply leaves_spanFrom_bind
    intro span
    apply leaves_node_bind ht
    intro node u hu
    exact leaves_pure hu _
  next hkind =>
    -- The keyword may name a member, but the point before it would be the last of the debris.
    have hdebris := hs.debris_of_dot hd hkind
    apply leaves_advance_bind hd hs (State.ne_keyword hkind rfl)
    intro hnext
    apply leaves_kind_bind
    split
    · apply leaves_advance_bind hd hnext (State.ne_keyword rfl hdebris)
      intro hnext'
      apply leaves_spanFrom_bind
      intro span
      apply leaves_node_bind hnext'
      intro node t ht
      exact leaves_pure ht _
    · exact leaves_unexpected hnext _
  next hkind =>
    split
    · apply leaves_advance_bind hd hs (State.ne_keyword hkind rfl)
      intro hnext
      apply leaves_bind (leaves_nested hnext fun _ ht => hrules.conditional ht)
      intro index t ht
      apply leaves_expect_bind hd ht (by simp)
      intro _ u hu
      apply leaves_spanFrom_bind
      intro span
      apply leaves_node_bind hu
      intro node v hv
      exact leaves_pure hv _
    · exact leaves_pure hs _
  next => exact leaves_pure hs _

theorem leaves_operand {tag : Parse Tag} (hs : s.Ahead d)
    (htag : ∀ {t : State}, t.Ahead d → Leaves d tag t) : Leaves d (operand rules tag) s := by
  unfold operand
  apply leaves_bind (leaves_primary hd hrules hs htag)
  intro object t ht
  apply leaves_iterate ht
  intro object u hu
  exact leaves_suffix hd hrules hu

theorem leaves_unaryRule {tag : Parse Tag} (hs : s.Ahead d)
    (htag : ∀ {t : State}, t.Ahead d → Leaves d tag t) : Leaves d (unaryRule rules tag) s := by
  unfold unaryRule
  apply leaves_peek_bind
  split
  next op hop =>
    have hkind : ∀ word, s.kind ≠ .keyword word := by
      intro word hword
      have hpeek : s.peek.kind = .keyword word := hword
      rw [hpeek] at hop
      cases hop
    apply leaves_advance_bind hd hs hkind
    intro hnext
    apply leaves_bind (hrules.unary hnext)
    intro operand t ht
    apply leaves_node_bind ht
    intro node u hu
    exact leaves_pure hu _
  next =>
    split
    next hawait =>
      have hkind : s.kind = .keyword .awaitKw := hawait
      rcases hs.kind hd with hdebris | ⟨word, hword, hstarts⟩
      · rw [hkind] at hdebris
        cases hdebris
      · rw [hkind] at hword
        cases hword
        cases hstarts
    next => exact leaves_operand hd hrules hs htag

theorem leaves_binaryStep {least : Nat} {left : Expr} (hs : s.Ahead d) :
    Leaves d (binaryStep rules least left) s := by
  unfold binaryStep
  apply leaves_kind_bind
  split
  next op level hop =>
    have hkind : ∀ word, s.kind ≠ .keyword word := by
      intro word hword
      rw [hword] at hop
      cases hop
    split
    · exact leaves_pure hs _
    · apply leaves_advance_bind hd hs hkind
      intro hnext
      apply leaves_bind (hrules.binary _ hnext)
      intro right t ht
      apply leaves_node_bind ht
      intro node u hu
      exact leaves_pure hu _
  next => exact leaves_pure hs _

theorem leaves_binaryRule {unary : Parse Expr} {least : Nat} (hunary : Leaves d unary s) :
    Leaves d (binaryRule rules unary least) s := by
  unfold binaryRule
  apply leaves_bind hunary
  intro left t ht
  apply leaves_iterate ht
  intro left u hu
  exact leaves_binaryStep hd hrules hu

theorem leaves_conditionalRule {binary : Nat → Parse Expr} (hbinary : Leaves d (binary 1) s) :
    Leaves d (conditionalRule rules binary) s := by
  unfold conditionalRule
  apply leaves_bind hbinary
  intro test t ht
  apply leaves_eat_bind hd ht (by simp)
  · intro _ hnext
    simp only [if_true]
    apply leaves_bind (leaves_nested hnext fun _ ht => hrules.conditional ht)
    intro consequent u hu
    apply leaves_expect_bind hd hu (by simp)
    intro _ v hv
    apply leaves_bind (hrules.conditional hv)
    intro alternate w hw
    apply leaves_node_bind hw
    intro node x hx
    exact leaves_pure hx _
  · exact leaves_pure ht _

/-! ## Markup -/

theorem leaves_attributeValue (hs : s.Ahead d) : Leaves d (attributeValue rules) s := by
  unfold attributeValue
  apply leaves_peek_bind
  split
  case h_1 hkind =>
    apply leaves_advance_bind hd hs (State.ne_keyword hkind rfl)
    intro hnext
    apply leaves_bind (hrules.conditional hnext)
    intro value t ht
    apply leaves_expect_bind hd ht (by simp)
    intro _ u hu
    exact leaves_pure hu value
  case h_2 hkind | h_3 hkind | h_4 hkind | h_5 hkind =>
    exact leaves_leaf hd hs (State.ne_keyword hkind rfl)
  case h_6 => exact leaves_unexpected hs _

theorem leaves_tagAttribute (hs : s.Ahead d) (hkind : ∀ word, s.kind ≠ .keyword word) :
    Leaves d (tagAttribute rules) s := by
  have hend : ∀ {value : Option Expr} {t : State}, t.Ahead d → Leaves d (do
      return Attribute.mk s.peek.lexeme value (s.peek.kind = .atModifier)
        (← spanFrom s.peek.span)) t := by
    intro value t ht
    apply leaves_spanFrom_bind
    intro span
    exact leaves_pure ht _
  unfold tagAttribute
  apply leaves_advance_bind hd hs hkind
  intro hnext
  apply leaves_eat_bind hd hnext (by simp)
  · intro _ hnext'
    simp only [if_true]
    apply leaves_bind (leaves_map (leaves_attributeValue hd hrules hnext'))
    intro value t ht
    exact hend ht
  · exact hend hnext

theorem leaves_tagHeadStep {name : String} {head : TagHead} (hs : s.Ahead d) :
    Leaves d (tagHeadStep rules name head) s := by
  unfold tagHeadStep
  apply leaves_peek_bind
  split
  case h_1 hkind | h_2 hkind =>
    have hname : ∀ word, s.kind ≠ .keyword word := by
      intro word hword
      have hpeek : s.peek.kind = .keyword word := hword
      rw [hkind] at hpeek
      cases hpeek
    apply leaves_bind (leaves_tagAttribute hd hrules hs hname)
    intro added t ht
    exact leaves_pure ht _
  case h_3 hkind | h_4 hkind | h_5 hkind =>
    apply leaves_advance_bind hd hs (State.ne_keyword hkind rfl)
    intro hnext
    exact leaves_pure hnext _
  case h_6 => exact leaves_unexpected hs _

theorem leaves_childStep {name : String} {children : List Markup} (hs : s.Ahead d) :
    Leaves d (childStep rules name children) s := by
  unfold childStep
  apply leaves_peek_bind
  split
  case h_1 hkind =>
    split
    · apply leaves_advance_bind hd hs (State.ne_keyword hkind rfl)
      intro hnext
      exact leaves_pure hnext _
    · exact leaves_fail hs _
  case h_2 =>
    apply leaves_bind (hrules.tag hs)
    intro tag t ht
    exact leaves_pure ht _
  case h_3 hkind =>
    apply leaves_advance_bind hd hs (State.ne_keyword hkind rfl)
    intro hnext
    apply leaves_bind (hrules.conditional hnext)
    intro value t ht
    apply leaves_expect_bind hd ht (by simp)
    intro _ u hu
    exact leaves_pure hu _
  case h_4 hkind =>
    apply leaves_advance_bind hd hs (State.ne_keyword hkind rfl)
    intro hnext
    exact leaves_pure hnext _
  case h_5 => exact leaves_fail hs _
  case h_6 => exact leaves_unexpected hs _

theorem leaves_tagRule (hs : s.Ahead d) : Leaves d (tagRule rules) s := by
  unfold tagRule
  apply leaves_expect_bind hd hs (by simp)
  intro opening t ht
  have hhead : Leaves d (iterate (tagHeadStep rules opening.lexeme) ⟨[], []⟩) t :=
    leaves_iterate ht (fun _ _ hu => leaves_tagHeadStep hd hrules hu) _
  apply leaves_bind hhead
  rintro ⟨head, selfClosing⟩ u hu
  have hend : ∀ (children : List Markup) (v : State), v.Ahead d → Leaves d (do
      return Tag.mk opening.lexeme head.attributes head.styles children selfClosing
        (← spanFrom opening.span)) v := by
    intro children v hv
    apply leaves_spanFrom_bind
    intro span
    exact leaves_pure hv _
  cases selfClosing with
  | true => exact hend [] u hu
  | false =>
      have hchildren : Leaves d (iterate (childStep rules opening.lexeme) []) u :=
        leaves_iterate hu (fun _ _ hv => leaves_childStep hd hrules hv) []
      exact leaves_bind hchildren hend

omit hrules in
theorem leave_exprRules (depth : Nat) : (exprRules depth).Leave d := by
  induction depth with
  | zero =>
      constructor
      · exact fun hs => leaves_fail hs _
      · exact fun _ _ hs => leaves_fail hs _
      · exact fun hs => leaves_fail hs _
      · exact fun hs => leaves_fail hs _
  | succ depth ih =>
      have htag : ∀ {s : State}, s.Ahead d → Leaves d (exprRules (depth + 1)).tag s :=
        fun hs => (leaves_tagRule hd ih hs).of_eq rfl
      have hunary : ∀ {s : State}, s.Ahead d → Leaves d (exprRules (depth + 1)).unary s :=
        fun hs => (leaves_unaryRule hd ih hs htag).of_eq rfl
      have hbinary : ∀ least {s : State}, s.Ahead d →
          Leaves d ((exprRules (depth + 1)).binary least) s :=
        fun _ _ hs => (leaves_binaryRule hd ih (hunary hs)).of_eq rfl
      constructor
      · exact fun hs => (leaves_conditionalRule hd ih (hbinary 1 hs)).of_eq rfl
      · exact hbinary
      · exact hunary
      · exact htag

omit hrules in
theorem leaves_expression (hs : s.Ahead d) : Leaves d expression s :=
  ((leave_exprRules hd (s.rest.length + 1)).conditional hs).of_eq rfl

end Expressions

end ComponentLang.Grammar
