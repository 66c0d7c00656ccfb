import ComponentLang.Proofs.Grammar.Writing

/-!
# Reading what is written

A reader that stands before the tokens of an expression gives that expression, but for its nodes,
and stops at the token after it. This is by induction on how the expression is written. An operand
is read up to the loop of its calls, members and indices, which goes on with whatever comes next;
all other readers are done where the next token cannot go on with the expression.
-/
namespace ComponentLang.Grammar

open Parse

/-! ## Readers before known tokens -/

section Comes

variable {α β γ δ : Type} {m : α → γ} {m' : β → δ} {s t : State} {a a' : α} {b : β}
  {token : Token} {tokens rest : List Token}

/-- The reader gives what `m` does not tell from `a`, and then `rest` comes. -/
def Comes (m : α → γ) (p : Parse α) (s : State) (a : α) (rest : List Token) : Prop :=
  ∃ a' t, p s = (pure a' : Parse α) t ∧ m a' = m a ∧ t.Faces rest

theorem comes_pure (ha : m a' = m a) (hs : s.Faces rest) : Comes m (pure a') s a rest :=
  ⟨a', s, rfl, ha, hs⟩

theorem Comes.of_eq {p q : Parse α} (h : Comes m q t a rest) (heq : p s = q t) :
    Comes m p s a rest := by
  obtain ⟨a', u, hq, ha, hu⟩ := h
  exact ⟨a', u, heq.trans hq, ha, hu⟩

theorem Comes.congr {p : Parse α} (h : Comes m p s a rest) (ha : m a = m a') :
    Comes m p s a' rest := by
  obtain ⟨b, t, hp, hb, ht⟩ := h
  exact ⟨b, t, hp, hb.trans ha, ht⟩

theorem comes_bind {p : Parse α} {f : α → Parse β} (hp : Comes m p s a tokens)
    (hf : ∀ a' t, m a' = m a → t.Faces tokens → Comes m' (f a') t b rest) :
    Comes m' (p >>= f) s b rest := by
  obtain ⟨a', t, hpure, ha, ht⟩ := hp
  exact (hf a' t ha ht).of_eq (bind_of_eq_pure hpure f)

theorem comes_advance_bind {f : Token → Parse β} (hs : s.Faces (token :: tokens))
    (hf : ∀ t, t.Faces tokens → Comes m' (f token) t b rest) :
    Comes m' (advance >>= f) s b rest := by
  apply (hf s.next hs.next).of_eq
  rw [advance_bind, hs.peek_eq]

theorem comes_expect_bind {expected : Expected} {f : Token → Parse β}
    (hs : s.Faces (token :: tokens)) {kind : TokenKind} (hkind : token.kind = kind)
    (hf : ∀ t, t.Faces tokens → Comes m' (f token) t b rest) :
    Comes m' (expect kind expected >>= f) s b rest := by
  have hhead : s.kind = kind := hs.kind_eq.trans hkind
  apply (hf s.next hs.next).of_eq
  rw [expect_bind hhead, hs.peek_eq]

theorem comes_eat_bind {f : Bool → Parse β} (hs : s.Faces (token :: tokens)) {kind : TokenKind}
    (hkind : token.kind = kind) (hf : ∀ t, t.Faces tokens → Comes m' (f true) t b rest) :
    Comes m' (eat kind >>= f) s b rest := by
  have hhead : s.kind = kind := hs.kind_eq.trans hkind
  exact (hf s.next hs.next).of_eq (eat_bind_of_eq hhead f)

theorem comes_node_bind {span : Span} {f : Node → Parse β} (hs : s.Faces tokens)
    (hf : ∀ node t, t.Faces tokens → Comes m' (f node) t b rest) :
    Comes m' (node span >>= f) s b rest :=
  hf _ _ (hs.numbered _)

theorem comes_spanFrom_bind {start : Span} {f : Span → Parse β}
    (hf : ∀ span, Comes m' (f span) s b rest) : Comes m' (spanFrom start >>= f) s b rest :=
  hf (s.spanFrom start)

/-- Outside of heads nothing changes where any expression may stand. -/
theorem nested_of_eq_pure {p : Parse α} (hp : p s = (pure a : Parse α) t)
    (hs : s.inHead = false) (ht : t.inHead = false) : nested p s = (pure a : Parse α) t := by
  have hbefore : { s with inHead := false } = s := by rw [← hs]
  have hafter : { t with inHead := s.inHead } = t := by rw [hs, ← ht]
  have hrun : p.run s = (.ok a, t) := hp
  have hnested : (nested p).run s = (.ok a, t) := by
    unfold nested withHead run
    unfold run at hrun
    simp only [hbefore, hrun, hafter]
  exact hnested

theorem comes_nested {p : Parse α} (hs : s.Faces tokens) (hp : Comes m p s a rest) :
    Comes m (nested p) s a rest := by
  obtain ⟨a', t, hpure, ha, ht⟩ := hp
  exact ⟨a', t, nested_of_eq_pure hpure hs.inHead ht.inHead, ha, ht⟩

end Comes

/-! ## Lists with commas -/

section Commas

variable {α γ : Type} {m : α → γ} {close : TokenKind} {item : Parse α} {s : State} {a : α}
  {before items : List α} {comma : Token} {tokens rest : List Token}

/-- One item of a list and the comma after it. -/
def commaTurn (close : TokenKind) (item : Parse α) (items : List α) :
    Parse (Turn (List α) (List α)) := do
  let s ← get
  if s.kind = close || s.atEnd then return .done items
  else
    let items := items ++ [← item]
    if ← eat .comma then return .again items else return .done items

theorem advances_commaTurn (hitem : ∀ t, Skims State.Drops item t) :
    Advances (commaTurn close item) := by
  apply advances_of_turns (R := State.Drops)
  intro items s
  unfold commaTurn
  simp only [takes_get_bind]
  split
  · simp
  · apply takes_bind (hitem s)
    intro a t hst _
    have hle := Travel.shrinks hst
    apply takes_eat_if
    · intro hcomma
      have hless := State.length_next_lt (s := t) (by simp [hcomma])
      rw [takes_pure, onward_again]
      omega
    · simp

theorem comes_commas_nil (before : List α) (hitem : ∀ t, Skims State.Drops item t) (hs : s.Faces rest)
    (hclose : headKind rest = close) :
    Comes (List.map m) (iterate (commaTurn close item) before) s before rest := by
  have hhead : s.kind = close := hs.kind_eq.trans hclose
  have hturn : commaTurn close item before s =
      (pure (.done before) : Parse (Turn (List α) (List α))) s := by
    unfold commaTurn
    rw [get_bind, if_pos (by simp [hhead])]
  exact ⟨before, s, iterate_of_done (advances_commaTurn hitem) hturn, rfl, hs⟩

/-- A turn before an item reads the item and looks for a comma. -/
theorem commaTurn_of_item {t : State} (hs : s.kind ≠ close) (hend : s.kind ≠ .eof)
    (hitem : item s = (pure a : Parse α) t) :
    commaTurn close item before s =
      (do if ← eat .comma then return .again (before ++ [a]) else return .done (before ++ [a]) :
        Parse (Turn (List α) (List α))) t := by
  have hrest : s.rest ≠ [] := List.length_pos_iff.1 (State.length_pos_of_kind hend)
  unfold commaTurn
  rw [get_bind, if_neg (by simp [hs, hrest])]
  exact bind_of_eq_pure hitem _

theorem comes_commas_last (hskims : ∀ t, Skims State.Drops item t) (hs : s.kind ≠ close)
    (hend : s.kind ≠ .eof) (hitem : Comes m item s a rest) (hrest : headKind rest ≠ .comma) :
    Comes (List.map m) (iterate (commaTurn close item) before) s (before ++ [a]) rest := by
  obtain ⟨a', t, hpure, ha, ht⟩ := hitem
  have hcomma : t.kind ≠ .comma := by rwa [ht.kind_eq]
  have hturn : commaTurn close item before s =
      (pure (.done (before ++ [a'])) : Parse (Turn (List α) (List α))) t := by
    rw [commaTurn_of_item hs hend hpure, eat_bind_of_ne hcomma]
    rfl
  have hloop : iterate (commaTurn close item) before s = (pure (before ++ [a']) : Parse _) t :=
    iterate_of_done (advances_commaTurn hskims) hturn
  exact ⟨before ++ [a'], t, hloop, by simp [ha], ht⟩

theorem comes_commas_more (hskims : ∀ t, Skims State.Drops item t) (hs : s.kind ≠ close)
    (hend : s.kind ≠ .eof) (hitem : Comes m item s a (comma :: tokens))
    (hcomma : comma.kind = .comma)
    (hmore : ∀ a' t, t.Faces tokens →
      Comes (List.map m) (iterate (commaTurn close item) (before ++ [a'])) t
        (before ++ [a'] ++ items) rest) :
    Comes (List.map m) (iterate (commaTurn close item) before) s (before ++ a :: items) rest := by
  obtain ⟨a', t, hpure, ha, ht⟩ := hitem
  have hhead : t.kind = .comma := ht.kind_eq.trans hcomma
  have hturn : commaTurn close item before s =
      (pure (.again (before ++ [a'])) : Parse (Turn (List α) (List α))) t.next := by
    rw [commaTurn_of_item hs hend hpure, eat_bind_of_eq hhead]
    rfl
  have hmap : (before ++ [a'] ++ items).map m = (before ++ a :: items).map m := by simp [ha]
  have hloop := (hmore a' t.next ht.next).congr hmap
  exact hloop.of_eq (iterate_of_next (advances_commaTurn hskims) hturn)

end Commas

/-! ## Operands -/

variable {s t : State} {e e' object index : Expr} {token opening closing : Token}
  {r r' tokens rest : List Token}

def unplaced (_ : Node) : Node := ⟨0, .zero⟩

/-- The expression without its nodes. -/
def form (e : Expr) : Expr := Relabel.expr unplaced e

@[simp] theorem form_call (node : Node) (callee : Expr) (arguments : List Expr) :
    form (.call node callee arguments) =
      .call (unplaced node) (form callee) (arguments.map form) :=
  congrArg _ (Relabel.exprs_eq_map unplaced arguments)

@[simp] theorem form_array (node : Node) (items : List Expr) :
    form (.array node items) = .array (unplaced node) (items.map form) :=
  congrArg _ (Relabel.exprs_eq_map unplaced items)

@[simp] theorem form_object (node : Node) (properties : List Property) :
    form (.object node properties) =
      .object (unplaced node) (properties.map (Relabel.property unplaced)) :=
  congrArg _ (Relabel.propertyList_eq_map unplaced properties)

/-- Reading an operand comes to the loop after an operand of the form of `e`, before `rest`. -/
def Opens (s : State) (e : Expr) (rest : List Token) : Prop :=
  ∃ e' t, unaryExpr s = iterate (suffix allRules) e' t ∧ form e' = form e ∧ t.Faces rest

theorem opens_primary (hsign : unaryOp? s.kind = none) (hawait : s.kind ≠ .keyword .awaitKw)
    (h : Comes form (primary allRules tag) s e rest) : Opens s e rest := by
  obtain ⟨e', t, hprimary, he, ht⟩ := h
  have hoperand : unaryExpr s = operand allRules tag s := by
    rw [unaryExpr_eq, unaryRule, peek_bind]
    have hnone : unaryOp? s.peek.kind = none := hsign
    have hword : ¬ s.peek.kind = .keyword .awaitKw := hawait
    simp only [hnone, if_neg hword]
  exact ⟨e', t, hoperand.trans (bind_of_eq_pure hprimary _), he, ht⟩

theorem Opens.suffix (h : Opens s object tokens)
    (hsuffix : ∀ object' t, form object' = form object → t.Faces tokens →
      Comes (Turn.map form form) (suffix allRules object') t (.again e) rest) :
    Opens s e rest := by
  obtain ⟨object', t, hopens, hobject, ht⟩ := h
  obtain ⟨turned, u, hturn, hturned, hu⟩ := hsuffix object' t hobject ht
  cases turned with
  | done _ => cases hturned
  | again e' =>
      have he : form e' = form e := by injection hturned
      exact ⟨e', u, hopens.trans (iterate_of_next advances_suffix hturn), he, hu⟩

theorem suffix_of_none (object : Expr) (h : startsSuffix s.kind = false) :
    suffix allRules object s = (pure (.done object) : Parse (Turn Expr Expr)) s := by
  unfold suffix
  rw [get_bind]
  generalize s.kind = kind at h
  cases kind <;> first | rfl | cases h

/-- An operand is read whole if nothing that may follow an operand comes next. -/
theorem Opens.comes (h : Opens s e rest) (hrest : startsSuffix (headKind rest) = false) :
    Comes form unaryExpr s e rest := by
  obtain ⟨e', t, hopens, he, ht⟩ := h
  rw [← ht.kind_eq] at hrest
  have hdone := iterate_of_done advances_suffix (suffix_of_none e' hrest)
  exact ⟨e', t, hopens.trans hdone, he, ht⟩

theorem comes_leaf {build : Node → Expr} (hs : s.Faces (token :: rest))
    (hbuild : ∀ node, form (build node) = form e) : Comes form (leaf build) s e rest := by
  apply comes_advance_bind hs
  intro t ht
  apply comes_node_bind ht
  intro node u hu
  exact comes_pure (hbuild node) hu

theorem comes_expressionsUpTo {close : TokenKind} {expected : Expected} {items : List Expr}
    (hitems : Comes (List.map form) (commaSeparated close expression) s items (closing :: rest))
    (hclose : closing.kind = close) :
    Comes (List.map form) (expressionsUpTo allRules close expected) s items rest := by
  apply comes_bind hitems
  intro items' t hitems' ht
  apply comes_expect_bind ht hclose
  intro u hu
  exact comes_pure hitems' hu

/-! ## Operators -/

theorem below_of_none {least : Nat} (h : binaryOp? s.kind = none) : Below least s := by
  intro op level hop
  rw [h] at hop
  cases hop

theorem comes_binaryExpr {least : Nat} (h : Comes form unaryExpr s e rest)
    (hrest : binaryOp? (headKind rest) = none) : Comes form (binaryExpr least) s e rest := by
  rw [binaryExpr_climb]
  apply comes_bind h
  intro e' t he ht
  rw [← ht.kind_eq] at hrest
  exact (comes_pure he ht).of_eq (climb_of_below (below_of_none hrest))

theorem comes_expression (h : Comes form (binaryExpr 1) s e rest)
    (hrest : headKind rest ≠ .question) : Comes form expression s e rest := by
  rw [expression_eq]
  apply comes_bind h
  intro e' t he ht
  have hkind : t.kind ≠ .question := by rwa [ht.kind_eq]
  apply Comes.of_eq _ (eat_bind_of_ne hkind _)
  exact comes_pure he ht

theorem continuesExpression_eq_false {kind : TokenKind} :
    continuesExpression kind = false ↔
      startsSuffix kind = false ∧ binaryOp? kind = none ∧ kind ≠ .question := by
  simp [continuesExpression, and_assoc]

theorem startsSuffix_of_binaryOp? {kind : TokenKind} {entry : BinaryOp × Nat}
    (h : binaryOp? kind = some entry) : startsSuffix kind = false := by
  cases kind <;> simp_all [binaryOp?, startsSuffix]

/-! ## Operands as they are written -/

/-- Reading the tokens gives the part, whatever cannot be a part of it comes after them. -/
def Reads : Part → List Token → Prop
  | .whole e, r => ∀ ⦃s rest⦄, s.Faces (r ++ rest) → continuesExpression (headKind rest) = false →
    Comes form expression s e rest
  | .operand e, r => ∀ ⦃s rest⦄, s.Faces (r ++ rest) → Opens s e rest
  | .items es, r => ∀ ⦃s rest⦄ before, s.Faces (r ++ rest) →
    headKind rest = .rparen ∨ headKind rest = .rbracket →
    Comes (List.map form) (iterate (commaTurn (headKind rest) expression) before) s
      (before ++ es) rest
  | .property p, r => ∀ ⦃s rest⦄, s.Faces (r ++ rest) →
    continuesExpression (headKind rest) = false →
    Comes (Relabel.property unplaced) (property allRules) s p rest
  | .properties ps, r => ∀ ⦃s rest⦄ before, s.Faces (r ++ rest) → headKind rest = .rbrace →
    Comes (List.map (Relabel.property unplaced))
      (iterate (commaTurn .rbrace (property allRules)) before) s (before ++ ps) rest

theorem stops_closing {token : Token}
    (h : token.kind = .rparen ∨ token.kind = .rbracket ∨ token.kind = .rbrace ∨
      token.kind = .comma ∨ token.kind = .colon) :
    continuesExpression (headKind (token :: rest)) = false := by
  rcases h with h | h | h | h | h <;> rw [headKind, h] <;> rfl

theorem reads_group (hopen : opening.kind = .lparen) (h : Reads (.whole e) r)
    (hclose : closing.kind = .rparen) : Reads (.operand e) (opening :: (r ++ [closing])) := by
  intro s rest hs
  simp only [List.cons_append, List.append_assoc, List.nil_append] at hs
  have hkind : s.kind = .lparen := hs.kind_eq.trans hopen
  have hgroup : Comes form (do
      let _ ← advance
      let inner ← nested expression
      let _ ← expect .rparen .groupEnd
      return inner) s e rest := by
    apply comes_advance_bind hs
    intro t ht
    apply comes_bind (comes_nested ht (h ht (stops_closing (.inl hclose))))
    intro inner u hinner hu
    apply comes_expect_bind hu hclose
    intro v hv
    exact comes_pure hinner hv
  apply opens_primary (by rw [hkind]; rfl) (by simp [hkind])
  apply hgroup.of_eq
  unfold primary
  rw [peek_bind, hs.peek_eq]
  simp only [hopen]
  rfl

theorem reads_literal {node : Node} {value : Literal} (hvalue : literal? token = some value) :
    Reads (.operand (.literal node value)) [token] := by
  intro s rest hs
  have hkind : s.kind = token.kind := hs.kind_eq
  have hplain : unaryOp? token.kind = none ∧ token.kind ≠ .keyword .awaitKw := by
    unfold literal? at hvalue
    split at hvalue <;> simp_all [unaryOp?]
  have hleaf : Comes form (leaf (.literal · value)) s (.literal node value) rest :=
    comes_leaf hs fun _ => rfl
  apply opens_primary (by rw [hkind]; exact hplain.1) (by rw [hkind]; exact hplain.2)
  apply hleaf.of_eq
  unfold primary
  rw [peek_bind, hs.peek_eq]
  unfold literal? at hvalue
  split at hvalue <;> simp_all

theorem reads_identifier {node : Node} (hname : token.kind = .identifier) :
    Reads (.operand (.identifier node token.lexeme)) [token] := by
  intro s rest hs
  have hkind : s.kind = .identifier := hs.kind_eq.trans hname
  have hleaf : Comes form (leaf (.identifier · token.lexeme)) s
      (.identifier node token.lexeme) rest :=
    comes_leaf hs fun _ => rfl
  apply opens_primary (by rw [hkind]; rfl) (by simp [hkind])
  apply hleaf.of_eq
  unfold primary
  rw [peek_bind, hs.peek_eq]
  simp only [hname]

theorem reads_valueBinding {node : Node} (hname : token.kind = .valueBinding) :
    Reads (.operand (.valueBinding node token.lexeme)) [token] := by
  intro s rest hs
  have hkind : s.kind = .valueBinding := hs.kind_eq.trans hname
  have hleaf : Comes form (leaf (.valueBinding · token.lexeme)) s
      (.valueBinding node token.lexeme) rest :=
    comes_leaf hs fun _ => rfl
  apply opens_primary (by rw [hkind]; rfl) (by simp [hkind])
  apply hleaf.of_eq
  unfold primary
  rw [peek_bind, hs.peek_eq]
  simp only [hname]

theorem reads_array {n : Node} {items : List Expr} (hopen : opening.kind = .lbracket)
    (h : Reads (.items items) r) (hclose : closing.kind = .rbracket) :
    Reads (.operand (.array n items)) (opening :: (r ++ [closing])) := by
  intro s rest hs
  simp only [List.cons_append, List.append_assoc, List.nil_append] at hs
  have hkind : s.kind = .lbracket := hs.kind_eq.trans hopen
  have harray : Comes form (do
      let _ ← advance
      let items ← nested (expressionsUpTo allRules .rbracket .arrayEnd)
      return .array (← node (← spanFrom opening.span)) items) s (.array n items) rest := by
    apply comes_advance_bind hs
    intro t ht
    have hitems := h [] ht (.inr hclose)
    rw [headKind, hclose] at hitems
    apply comes_bind (comes_nested ht (comes_expressionsUpTo hitems hclose))
    intro items' u hitems' hu
    apply comes_spanFrom_bind
    intro span
    apply comes_node_bind hu
    intro node' v hv
    exact comes_pure (by simp [hitems', unplaced]) hv
  apply opens_primary (by rw [hkind]; rfl) (by simp [hkind])
  apply harray.of_eq
  unfold primary
  rw [peek_bind, hs.peek_eq]
  simp only [hopen]

theorem reads_object {node : Node} {properties : List Property}
    (hopen : opening.kind = .lbrace) (h : Reads (.properties properties) r)
    (hclose : closing.kind = .rbrace) :
    Reads (.operand (.object node properties)) (opening :: (r ++ [closing])) := by
  intro s rest hs
  simp only [List.cons_append, List.append_assoc, List.nil_append] at hs
  have hkind : s.kind = .lbrace := hs.kind_eq.trans hopen
  have hobject : Comes form (objectLiteral allRules) s (.object node properties) rest := by
    apply comes_advance_bind hs
    intro t ht
    apply comes_bind (h [] ht hclose)
    intro properties' u hproperties hu
    apply comes_expect_bind hu hclose
    intro v hv
    apply comes_spanFrom_bind
    intro span
    apply comes_node_bind hv
    intro node' w hw
    rw [List.nil_append] at hproperties
    exact comes_pure (by simp [hproperties, unplaced]) hw
  apply opens_primary (by rw [hkind]; rfl) (by simp [hkind])
  apply (comes_nested hs hobject).of_eq
  unfold primary
  rw [peek_bind, hs.peek_eq]
  simp only [hopen]

/-! ## What follows an operand -/

theorem reads_call {n : Node} {callee : Expr} {arguments : List Expr}
    (hcallee : Reads (.operand callee) r) (hopen : opening.kind = .lparen)
    (harguments : Reads (.items arguments) r') (hclose : closing.kind = .rparen) :
    Reads (.operand (.call n callee arguments)) (r ++ opening :: (r' ++ [closing])) := by
  intro s rest hs
  simp only [List.append_assoc, List.cons_append, List.nil_append] at hs
  apply (hcallee hs).suffix
  intro callee' t hcallee' ht
  have hkind : t.kind = .lparen := ht.kind_eq.trans hopen
  have hcall : Comes (Turn.map form form) (do
      let _ ← advance
      let arguments ← nested (expressionsUpTo allRules .rparen .argumentsEnd)
      return .again (.call (← node (← spanFrom callee'.span)) callee' arguments))
      t (.again (.call n callee arguments)) rest := by
    apply comes_advance_bind ht
    intro u hu
    have hitems := harguments [] hu (.inl hclose)
    rw [headKind, hclose] at hitems
    apply comes_bind (comes_nested hu (comes_expressionsUpTo hitems hclose))
    intro arguments' v harguments' hv
    apply comes_spanFrom_bind
    intro span
    apply comes_node_bind hv
    intro n' w hw
    exact comes_pure (by simp [Turn.map, hcallee', harguments', unplaced]) hw
  apply hcall.of_eq
  unfold suffix
  rw [get_bind]
  simp only [hkind]

theorem reads_member {n : Node} {point name : Token} (hobject : Reads (.operand object) r)
    (hpoint : point.kind = .dot) (hname : isMemberName name.kind = true) :
    Reads (.operand (.member n object name.lexeme)) (r ++ [point, name]) := by
  intro s rest hs
  simp only [List.append_assoc, List.cons_append, List.nil_append] at hs
  apply (hobject hs).suffix
  intro object' t hobject' ht
  have hkind : t.kind = .dot := ht.kind_eq.trans hpoint
  have hmember : Comes (Turn.map form form) (do
      let _ ← advance
      if isMemberName (← kind) then
        let property ← advance
        return .again (.member (← node (← spanFrom object'.span)) object' property.lexeme)
      else unexpected .memberName)
      t (.again (.member n object name.lexeme)) rest := by
    apply comes_advance_bind ht
    intro u hu
    have hhead : isMemberName u.kind = true := by rwa [hu.kind_eq]
    apply Comes.of_eq _ (kind_bind _)
    rw [if_pos hhead]
    apply comes_advance_bind hu
    intro v hv
    apply comes_spanFrom_bind
    intro span
    apply comes_node_bind hv
    intro n' w hw
    apply comes_pure _ hw
    show Turn.again (Expr.member _ (form object') _) = _
    rw [hobject']
    rfl
  apply hmember.of_eq
  unfold suffix
  rw [get_bind]
  simp only [hkind]

theorem reads_index {n : Node} (hobject : Reads (.operand object) r)
    (hopen : opening.kind = .lbracket) (hindex : Reads (.whole index) r')
    (hclose : closing.kind = .rbracket) :
    Reads (.operand (.index n object index)) (r ++ opening :: (r' ++ [closing])) := by
  intro s rest hs
  simp only [List.append_assoc, List.cons_append, List.nil_append] at hs
  apply (hobject hs).suffix
  intro object' t hobject' ht
  have hkind : t.kind = .lbracket := ht.kind_eq.trans hopen
  have hmember : Comes (Turn.map form form) (do
      let _ ← advance
      let index ← nested expression
      let _ ← expect .rbracket .indexEnd
      return .again (.index (← node (← spanFrom object'.span)) object' index))
      t (.again (.index n object index)) rest := by
    apply comes_advance_bind ht
    intro u hu
    apply comes_bind (comes_nested hu (hindex hu (stops_closing (.inr (.inl hclose)))))
    intro index' v hindex' hv
    apply comes_expect_bind hv hclose
    intro w hw
    apply comes_spanFrom_bind
    intro span
    apply comes_node_bind hw
    intro n' x hx
    apply comes_pure _ hx
    show Turn.again (Expr.index _ (form object') (form index')) = _
    rw [hobject', hindex']
    rfl
  apply hmember.of_eq
  unfold suffix
  rw [get_bind]
  simp only [hkind, ht.inHead]
  rfl

/-! ## Operations -/

theorem comes_whole (h : Comes form unaryExpr s e rest)
    (hrest : continuesExpression (headKind rest) = false) : Comes form expression s e rest := by
  obtain ⟨_, hop, hquestion⟩ := continuesExpression_eq_false.1 hrest
  exact comes_expression (comes_binaryExpr h hop) hquestion

theorem reads_bare (h : Reads (.operand e) r) : Reads (.whole e) r := by
  intro s rest hs hrest
  obtain ⟨hsuffix, _, _⟩ := continuesExpression_eq_false.1 hrest
  exact comes_whole ((h hs).comes hsuffix) hrest

theorem reads_unary {n : Node} {op : UnaryOp} (hop : unaryOp? token.kind = some op)
    (h : Reads (.operand e) r) : Reads (.whole (.unary n op e)) (token :: r) := by
  intro s rest hs hrest
  obtain ⟨hsuffix, _, _⟩ := continuesExpression_eq_false.1 hrest
  have hunary : Comes form (do
      let _ ← advance
      let operand ← unaryExpr
      return .unary (← node (token.span.through operand.span)) op operand)
      s (.unary n op e) rest := by
    apply comes_advance_bind hs
    intro t ht
    apply comes_bind ((h ht).comes hsuffix)
    intro e' u he' hu
    apply comes_node_bind hu
    intro n' v hv
    exact comes_pure (congrArg (Expr.unary ⟨0, .zero⟩ op) he') hv
  apply comes_whole _ hrest
  apply hunary.of_eq
  rw [congrFun unaryExpr_eq s, unaryRule, peek_bind, hs.peek_eq]
  simp only [hop]
  rfl

theorem reads_await {n : Node} (hword : token.kind = .keyword .awaitKw)
    (h : Reads (.operand e) r) : Reads (.whole (.await n e)) (token :: r) := by
  intro s rest hs hrest
  obtain ⟨hsuffix, _, _⟩ := continuesExpression_eq_false.1 hrest
  have hawait : Comes form (do
      let _ ← advance
      let operand ← unaryExpr
      return .await (← node (token.span.through operand.span)) operand)
      s (.await n e) rest := by
    apply comes_advance_bind hs
    intro t ht
    apply comes_bind ((h ht).comes hsuffix)
    intro e' u he' hu
    apply comes_node_bind hu
    intro n' v hv
    exact comes_pure (congrArg (Expr.await ⟨0, .zero⟩) he') hv
  have hnone : unaryOp? token.kind = none := by rw [hword]; rfl
  apply comes_whole _ hrest
  apply hawait.of_eq
  rw [congrFun unaryExpr_eq s, unaryRule, peek_bind, hs.peek_eq]
  simp only [hnone, if_pos hword]
  rfl

theorem reads_binary {n : Node} {left right : Expr} {op : BinaryOp} {level : Nat}
    (hleft : Reads (.operand left) r) (hop : binaryOp? token.kind = some (op, level))
    (hright : Reads (.operand right) r') :
    Reads (.whole (.binary n left op right)) (r ++ token :: r') := by
  intro s rest hs hrest
  obtain ⟨hsuffix, hnone, hquestion⟩ := continuesExpression_eq_false.1 hrest
  rw [List.append_assoc, List.cons_append] at hs
  have hoperand := (hleft hs).comes (startsSuffix_of_binaryOp? hop)
  have hbinary : Comes form (binaryExpr 1) s (.binary n left op right) rest := by
    rw [binaryExpr_climb]
    apply comes_bind hoperand
    intro left' t hleft' ht
    have hhead : binaryOp? t.kind = some (op, level) := by rwa [ht.kind_eq]
    have hlevel : 1 ≤ level := level_pos hop
    apply Comes.of_eq _ (climb_of_le hhead hlevel)
    unfold operation
    rw [bind_assoc]
    apply comes_advance_bind ht
    intro u hu
    rw [bind_assoc]
    apply comes_bind (comes_binaryExpr ((hright hu).comes hsuffix) hnone)
    intro right' v hright' hv
    rw [bind_assoc]
    apply comes_node_bind hv
    intro n' w hw
    rw [pure_bind]
    have hbelow : binaryOp? w.kind = none := by rwa [hw.kind_eq]
    apply Comes.of_eq _ (climb_of_below (below_of_none hbelow))
    apply comes_pure _ hw
    show Expr.binary _ (form left') op (form right') = _
    rw [hleft', hright']
    rfl
  exact comes_expression hbinary hquestion

theorem reads_conditional {n : Node} {test consequent alternate : Expr} {question colon : Token}
    {r'' : List Token} (htest : Reads (.operand test) r) (hquestion : question.kind = .question)
    (hconsequent : Reads (.whole consequent) r') (hcolon : colon.kind = .colon)
    (halternate : Reads (.whole alternate) r'') :
    Reads (.whole (.conditional n test consequent alternate))
      (r ++ question :: (r' ++ colon :: r'')) := by
  intro s rest hs hrest
  simp only [List.append_assoc, List.cons_append] at hs
  have hstop : startsSuffix (headKind (question :: (r' ++ colon :: (r'' ++ rest)))) = false := by
    rw [headKind, hquestion]
    rfl
  have hnone : binaryOp? (headKind (question :: (r' ++ colon :: (r'' ++ rest)))) = none := by
    rw [headKind, hquestion]
    rfl
  rw [expression_eq]
  apply comes_bind (comes_binaryExpr ((htest hs).comes hstop) hnone)
  intro test' t htest' ht
  apply comes_eat_bind ht hquestion
  intro u hu
  simp only [if_true]
  have hbranch := hconsequent hu (stops_closing (.inr (.inr (.inr (.inr hcolon)))))
  apply comes_bind (comes_nested hu hbranch)
  intro consequent' v hconsequent' hv
  apply comes_expect_bind hv hcolon
  intro w hw
  apply comes_bind (halternate hw hrest)
  intro alternate' x halternate' hx
  apply comes_node_bind hx
  intro n' y hy
  apply comes_pure _ hy
  show Expr.conditional _ (form test') (form consequent') (form alternate') = _
  rw [htest', hconsequent', halternate']
  rfl

/-! ## Items and properties -/

theorem skims_property_allRules : Skims State.Drops (property allRules) s :=
  skims_property (keep_allRules (s.rest.length + 1)) (Nat.lt_succ_self _)

theorem reads_noItems : Reads (.items []) [] := by
  intro s rest before hs _
  have hnil := comes_commas_nil (m := form) before (fun _ => skims_expression) hs rfl
  rwa [List.append_nil]

/-- A list goes on where an expression begins. -/
theorem kind_of_starts {close : TokenKind} (h : startsExpression s.kind = true)
    (hclose : close = .rparen ∨ close = .rbracket) : s.kind ≠ close ∧ s.kind ≠ .eof := by
  constructor
  · rintro rfl
    rcases hclose with hclose | hclose <;> rw [hclose] at h <;> cases h
  · intro heof
    rw [heof] at h
    cases h

theorem reads_lastItem (hbegins : startsExpression (headKind r) = true)
    (h : Reads (.whole e) r) : Reads (.items [e]) r := by
  intro s rest before hs hclose
  have hstart : startsExpression s.kind = true := by
    rw [hs.kind_eq]
    exact headKind_append_of_starts hbegins rest
  obtain ⟨hkind, hend⟩ := kind_of_starts hstart hclose
  have hstop : continuesExpression (headKind rest) = false := by
    rcases hclose with hclose | hclose <;> rw [hclose] <;> rfl
  have hcomma : headKind rest ≠ .comma := by
    rcases hclose with hclose | hclose <;> rw [hclose] <;> simp
  exact comes_commas_last (fun _ => skims_expression) hkind hend (h hs hstop) hcomma

theorem reads_moreItems {es : List Expr} {comma : Token}
    (hbegins : startsExpression (headKind r) = true) (h : Reads (.whole e) r)
    (hcomma : comma.kind = .comma) (hes : Reads (.items es) r') :
    Reads (.items (e :: es)) (r ++ comma :: r') := by
  intro s rest before hs hclose
  rw [List.append_assoc, List.cons_append] at hs
  have hstart : startsExpression s.kind = true := by
    rw [hs.kind_eq]
    exact headKind_append_of_starts hbegins _
  obtain ⟨hkind, hend⟩ := kind_of_starts hstart hclose
  have hitem := h hs (stops_closing (.inr (.inr (.inr (.inl hcomma)))))
  apply comes_commas_more (fun _ => skims_expression) hkind hend hitem hcomma
  intro e' t ht
  exact hes (before ++ [e']) ht hclose

theorem comes_propertyValue {colon : Token} (hs : s.Faces (colon :: (r ++ rest)))
    (hcolon : colon.kind = .colon) (h : Reads (.whole e) r)
    (hrest : continuesExpression (headKind rest) = false) :
    Comes form (propertyValue allRules) s e rest := by
  apply comes_eat_bind hs hcolon
  intro t ht
  rw [if_pos rfl]
  exact h ht hrest

theorem reads_named {key colon : Token} (hkey : isPropertyKey key.kind = true)
    (hcolon : colon.kind = .colon) (h : Reads (.whole e) r) :
    Reads (.property (.named key.lexeme e)) (key :: colon :: r) := by
  intro s rest hs hrest
  have hbracket : key.kind ≠ .lbracket := by
    intro hkind
    rw [hkind] at hkey
    cases hkey
  unfold property
  apply Comes.of_eq _ (peek_bind _)
  rw [hs.peek_eq, if_neg hbracket, if_pos hkey]
  apply comes_advance_bind hs
  intro t ht
  have hkind : t.kind = .colon := ht.kind_eq.trans hcolon
  apply Comes.of_eq _ (get_bind _)
  rw [if_neg (by simp [hkind])]
  apply comes_bind (comes_propertyValue ht hcolon h hrest)
  intro e' u he' hu
  exact comes_pure (congrArg (Property.named key.lexeme) he') hu

theorem reads_computed {key : Expr} {colon : Token} (hopen : opening.kind = .lbracket)
    (hkey : Reads (.whole key) r) (hclose : closing.kind = .rbracket)
    (hcolon : colon.kind = .colon) (h : Reads (.whole e) r') :
    Reads (.property (.computed key e)) (opening :: (r ++ closing :: colon :: r')) := by
  intro s rest hs hrest
  simp only [List.append_assoc, List.cons_append] at hs
  unfold property
  apply Comes.of_eq _ (peek_bind _)
  rw [hs.peek_eq, if_pos hopen]
  apply comes_advance_bind hs
  intro t ht
  apply comes_bind (hkey ht (stops_closing (.inr (.inl hclose))))
  intro key' u hkey' hu
  apply comes_expect_bind hu hclose
  intro v hv
  apply comes_bind (comes_propertyValue hv hcolon h hrest)
  intro e' w he' hw
  apply comes_pure _ hw
  show Property.computed (form key') (form e') = _
  rw [hkey', he']
  rfl

theorem reads_noProperties : Reads (.properties []) [] := by
  intro s rest before hs hclose
  have hnil := comes_commas_nil (m := Relabel.property unplaced) before
    (fun _ => skims_property_allRules) hs hclose
  rwa [List.append_nil]

/-- The properties go on where a property begins. -/
theorem kind_of_begins {p : Property} (hbegins : Begins (.property p) r)
    (hs : s.Faces (r ++ rest)) : s.kind ≠ .rbrace ∧ s.kind ≠ .eof := by
  have hne : headKind r ≠ .eof ∧ headKind r ≠ .rbrace := by
    rcases hbegins with hbracket | hkey
    · simp [hbracket]
    · constructor <;> intro hkind <;> rw [hkind] at hkey <;> cases hkey
  rw [hs.kind_eq, headKind_append hne.1]
  exact ⟨hne.2, hne.1⟩

theorem reads_lastProperty {p : Property} (hbegins : Begins (.property p) r)
    (h : Reads (.property p) r) : Reads (.properties [p]) r := by
  intro s rest before hs hclose
  obtain ⟨hkind, hend⟩ := kind_of_begins hbegins hs
  have hstop : continuesExpression (headKind rest) = false := by
    rw [hclose]
    rfl
  have hcomma : headKind rest ≠ .comma := by simp [hclose]
  exact comes_commas_last (fun _ => skims_property_allRules) hkind hend (h hs hstop) hcomma

theorem reads_moreProperties {p : Property} {ps : List Property} {comma : Token}
    (hbegins : Begins (.property p) r) (h : Reads (.property p) r)
    (hcomma : comma.kind = .comma) (hps : Reads (.properties ps) r') :
    Reads (.properties (p :: ps)) (r ++ comma :: r') := by
  intro s rest before hs hclose
  rw [List.append_assoc, List.cons_append] at hs
  obtain ⟨hkind, hend⟩ := kind_of_begins hbegins hs
  have hitem := h hs (stops_closing (.inr (.inr (.inr (.inl hcomma)))))
  apply comes_commas_more (fun _ => skims_property_allRules) hkind hend hitem hcomma
  intro p' t ht
  exact hps (before ++ [p']) ht hclose

/-! ## Everything that is written -/

theorem Writes.reads {part : Part} (h : Writes part r) : Reads part r := by
  induction h with
  | bare _ ih => exact reads_bare ih
  | group hopen _ hclose ih => exact reads_group hopen ih hclose
  | literal hvalue => exact reads_literal hvalue
  | identifier hname => exact reads_identifier hname
  | valueBinding hname => exact reads_valueBinding hname
  | call _ hopen _ hclose ihcallee ih => exact reads_call ihcallee hopen ih hclose
  | member _ hpoint hname ih => exact reads_member ih hpoint hname
  | index _ hopen _ hclose ihobject ih => exact reads_index ihobject hopen ih hclose
  | array hopen _ hclose ih => exact reads_array hopen ih hclose
  | object hopen _ hclose ih => exact reads_object hopen ih hclose
  | unary hop _ ih => exact reads_unary hop ih
  | await hword _ ih => exact reads_await hword ih
  | binary _ hop _ ihleft ihright => exact reads_binary ihleft hop ihright
  | conditional _ hquestion _ hcolon _ ihtest ihconsequent ihalternate =>
      exact reads_conditional ihtest hquestion ihconsequent hcolon ihalternate
  | noItems => exact reads_noItems
  | lastItem h ih => exact reads_lastItem h.begins ih
  | moreItems h hcomma _ ih ihmore => exact reads_moreItems h.begins ih hcomma ihmore
  | named hkey hcolon _ ih => exact reads_named hkey hcolon ih
  | computed hopen _ hclose hcolon _ ihkey ih => exact reads_computed hopen ihkey hclose hcolon ih
  | noProperties => exact reads_noProperties
  | lastProperty h ih => exact reads_lastProperty h.begins ih
  | moreProperties h hcomma _ ih ihmore => exact reads_moreProperties h.begins ih hcomma ihmore

/-- Every expression without markup can be written. However it is written, and whatever comes
after it that cannot go on with an expression, reading it outside the head of a control statement
takes exactly its tokens and gives it back, but for its nodes. -/
theorem expression_round_trip {e : Expr} (he : Markless e) :
    Writes (.whole e) (render e) ∧
      ∀ {r rest : List Token} {s : State}, Writes (.whole e) r → s.rest = r ++ rest →
        s.inHead = false → continuesExpression (headKind rest) = false →
        ∃ e' t, expression.run s = (.ok e', t) ∧ t.rest = rest ∧ form e' = form e := by
  constructor
  · exact (rendered e he).whole
  · intro r rest s hwrites hrest hhead hstop
    obtain ⟨e', t, hread, hform, ht⟩ := hwrites.reads ⟨hrest, hhead⟩ hstop
    exact ⟨e', t, hread, ht.rest, hform⟩

/-- A call of a member of a sum, in a list: `[(a + 1).b(c), -d]` before a semicolon. -/
theorem expression_round_trip_list :
    let sum : Expr := .binary ⟨1, .zero⟩ (.identifier ⟨2, .zero⟩ "a") .add
      (.literal ⟨3, .zero⟩ (.number "1" .int))
    let call : Expr := .call ⟨4, .zero⟩ (.member ⟨5, .zero⟩ sum "b") [.identifier ⟨6, .zero⟩ "c"]
    let list : Expr := .array ⟨7, .zero⟩ [call, .unary ⟨8, .zero⟩ .neg (.identifier ⟨9, .zero⟩ "d")]
    ∃ e' t, expression.run (.start (render list ++ [plain .semicolon ";"])) = (.ok e', t) ∧
      t.rest = [plain .semicolon ";"] ∧ form e' = form list := by
  intro sum call list
  have hlist : Markless list := by simp [list, call, sum, Markless, MarklessItems]
  have htrip := expression_round_trip hlist
  exact htrip.2 htrip.1 rfl rfl rfl

end ComponentLang.Grammar
