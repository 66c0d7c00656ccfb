import ComponentLang.Proofs.Grammar.Rendering
import ComponentLang.Proofs.Grammar.Unbounded

/-!
# Expressions and tags, read elsewhere

An expression ends in the same place wherever it stands. Only in the head of a control statement
what comes behind it may be the square bracket of a body. This stands apart from every operand, so
it is no index.
-/
namespace ComponentLang.Grammar

open Parse
open Renderable (reread tame whole)

/-- What an expression asks of the tokens behind it: in a head a body may begin there. -/
def Follow.near (inHead : Bool) : Follow := if inHead then .any else .unopened

variable {all : List Token} {W : Rendering all → Prop} {s : State} {B : List Span} {F : Follow}
  {G : Front} {inHead : Bool} {rules : ExprRules}

/-- What `p` gives `q` gives elsewhere, and there are no bodies in it. -/
abbrev Echoes {α : Type} [Renderable α] (W : Rendering all → Prop) (B : List Span) (F : Follow)
    (G : Front) (p : Parse α) (q : Rendering all → Parse α) (s : State) : Prop :=
  Renders W (fun _ => []) B F G p q s

section Echoes

variable {α β : Type} [Renderable α] [Renderable β]

theorem echoes_again [G.Idle] {b : β} (htame : s.Fits all → tame all b) :
    Echoes W B F G (pure (.again b : Turn β α)) (fun w => pure (.again (reread w b))) s :=
  renders_pure (a := (.again b : Turn β α)) (List.forall_mem_nil _) htame

theorem echoes_done [G.Idle] {a : α} (htame : s.Fits all → tame all a) :
    Echoes W B F G (pure (.done a : Turn β α)) (fun w => pure (.done (reread w a))) s :=
  renders_pure (a := (.done a : Turn β α)) (List.forall_mem_nil _) htame

theorem echoes_iterate {turn : β → Parse (Turn β α)}
    {turn' : Rendering all → β → Parse (Turn β α)}
    (hturn : ∀ b s', s.Proceeds s' → tame all b →
      Echoes W [] F .clear (turn b) (fun w => turn' w (reread w b)) s')
    {b : β} (htame : tame all b) :
    Echoes W B F .clear (iterate turn b) (fun w => iterate (turn' w) (reread w b)) s := by
  have hnone : Turn.bodies (fun _ : β => []) (fun _ : α => []) = fun _ => [] := by
    funext turned
    cases turned <;> rfl
  refine renders_iterate (k := fun _ => []) _ ?_ (fun _ => htame) (List.forall_mem_nil _)
  rw [hnone]
  exact hturn

theorem echoes_map {p : Parse α} {q : Rendering all → Parse α} {f : α → β}
    {g : Rendering all → α → β} (hp : Echoes W B F G p q s)
    (hfg : ∀ w a, g w (reread w a) = reread w (f a))
    (htame : ∀ a, tame all a → tame all (f a)) (hwhole : ∀ a, whole (f a) → whole a) :
    Echoes W B F G (f <$> p) (fun w => g w <$> q w) s :=
  renders_map hp hfg (fun _ _ hbody => nomatch hbody) htame hwhole

theorem echoes_some [AllWhole α] {p : Parse α} {q : Rendering all → Parse α}
    (hp : Echoes W B F G p q s) : Echoes W B F G (some <$> p) (fun w => some <$> q w) s :=
  echoes_map hp (fun _ _ => rfl) (fun _ _ => trivial) fun a _ => AllWhole.whole a

end Echoes

/-- The rules, and those at whatever depth is enough, elsewhere. -/
structure ExprRules.Echo (W : Rendering all → Prop) (rules : ExprRules) : Prop where
  conditional {s : State} {B : List Span} {G : Front} {inHead : Bool} (hs : s.inHead = inHead) :
    Echoes W B (.near inHead) G rules.conditional (fun _ => expression) s
  binary (least : Nat) {s : State} {B : List Span} {G : Front} {inHead : Bool}
    (hs : s.inHead = inHead) :
    Echoes W B (.near inHead) G (rules.binary least) (fun _ => binaryExpr least) s
  unary {s : State} {B : List Span} {G : Front} {inHead : Bool} (hs : s.inHead = inHead) :
    Echoes W B (.near inHead) G rules.unary (fun _ => unaryExpr) s
  tag {s : State} {B : List Span} {G : Front} : Echoes W B .any G rules.tag (fun _ => Grammar.tag) s

theorem State.kind_ne_eof {kind : TokenKind} (s : State) (h : s.peek.kind = kind)
    (hkind : (kind != .eof) = true) : s.kind ≠ .eof := by
  rw [State.kind, h]
  exact bne_iff_ne.1 hkind

/-! ## Operands -/

theorem renders_propertyValue (hrules : rules.Echo W) (hs : s.inHead = inHead) :
    Echoes W B (.near inHead) G (propertyValue rules) (fun _ => propertyValue allRules) s := by
  unfold propertyValue
  refine renders_eat_if rfl ?_ ?_
  · intro _
    exact hrules.conditional ((State.inHead_next s).trans hs)
  · intro _
    exact renders_unexpected

theorem renders_property (hrules : rules.Echo W) (hs : s.inHead = inHead) :
    Echoes W B (.near inHead) .clear (property rules) (fun _ => property allRules) s := by
  have hnext := (State.inHead_next s).trans hs
  unfold property
  apply renders_peek_bind
  dsimp only [Rendering.moved]
  by_cases hbracket : s.peek.kind = .lbracket
  · simp only [if_pos hbracket]
    refine renders_advance_bind (s.kind_ne_eof hbracket rfl) ?_
    apply renders_bind_solid (hrules.conditional hnext)
    intro computed s' hs' _
    refine renders_expect_bind rfl fun _ => ?_
    apply renders_bind (renders_propertyValue hrules
      ((State.inHead_next s').trans (hs'.inHead.trans hnext)))
    intro value u _ _
    exact renders_pure (List.forall_mem_nil _) fun _ => trivial
  simp only [if_neg hbracket]
  by_cases hkey : isPropertyKey s.peek.kind = true
  · have hkind : s.kind ≠ .eof := by
      intro heof
      rw [show s.peek.kind = .eof from heof] at hkey
      cases hkey
    simp only [if_pos hkey]
    refine renders_advance_bind hkind ?_
    by_cases hname : (s.peek.kind = .identifier && s.next.kind != .colon : Bool) = true
    · refine renders_get_bind (q := fun w => do
        return .named s.peek.lexeme (.identifier (← node (w.span s.peek.span)) s.peek.lexeme)) ?_ ?_
      · rw [if_pos hname]
        refine renders_node_bind ?_
        exact renders_pure (List.forall_mem_nil _) fun _ => trivial
      · intro w taken ahead t _ _ _ hsees
        rw [Bool.and_eq_true, bne_iff_ne] at hname
        have hne := hsees.kind_ne rfl hname.2
        rw [if_pos (by simpa [hne] using hname.1)]
    · refine (renders_get_bind_solid ?_ ?_)
      · simp only [Rendering.kind_view, if_neg hname]
        apply renders_bind (renders_propertyValue hrules hnext)
        intro value u _ _
        exact renders_pure (List.forall_mem_nil _) fun _ => trivial
      · intro w t hkind' _ _
        simp only [hkind', Rendering.kind_view]
  · simp only [if_neg hkey]
    exact renders_unexpected

theorem renders_objectLiteral (hrules : rules.Echo W) (hs : s.inHead = false)
    (hkind : s.kind ≠ .eof) :
    Echoes W B .any G (objectLiteral rules) (fun _ => objectLiteral allRules) s := by
  refine renders_of_fits fun hfits => ?_
  have hstart : StopsIn all s.peek.span := hfits.here hkind
  unfold objectLiteral
  refine renders_advance_bind hkind ?_
  apply renders_bind_solid (renders_commaSeparated fun s' hs' =>
    renders_property hrules (hs'.inHead.trans ((State.inHead_next s).trans hs)))
  intro properties s' _ _
  refine renders_expect_bind rfl fun hclose => ?_
  have hprevious : s'.next.previous ≠ none := by
    rw [State.previous_next (by simp [hclose])]
    exact Option.some_ne_none _
  refine renders_spanFrom_bind hprevious ?_
  refine renders_node_bind ?_
  have hobject : ∀ (w : Rendering all) (node : Node), Expr.object (reread w node)
      (reread w properties) = reread w (Expr.object node properties) := fun w node =>
    congrArg (Expr.object _) (Remap.propertyList_eq_map _ _ properties).symm
  simp only [hobject]
  exact renders_pure (List.forall_mem_nil _) fun hs' => State.Fits.spanFrom ⟨hs'.rest, hs'.previous⟩ hstart

theorem renders_expressionsUpTo (close : TokenKind) {expected : Expected} (hrules : rules.Echo W)
    (hs : s.inHead = false) (hclose : (close != .eof) = true) :
    Echoes W B .any .clear (expressionsUpTo rules close expected)
      (fun _ => expressionsUpTo allRules close expected) s := by
  unfold expressionsUpTo
  apply renders_bind_solid (renders_commaSeparated fun s' hs' =>
    hrules.conditional (hs'.inHead.trans hs))
  intro items s' _ _
  refine renders_expect_bind hclose fun _ => ?_
  exact renders_pure (List.forall_mem_nil _) fun _ => trivial

/-- The one token that an expression is. -/
theorem renders_leaf {build : Node → Expr} {build' : Rendering all → Node → Expr}
    (hkind : s.kind ≠ .eof) (hbuild : ∀ w node, build' w (reread w node) = reread w (build node))
    (hspan : ∀ node, (build node).span = node.span) :
    Echoes W B .any G (leaf build) (fun w => leaf (build' w)) s := by
  refine renders_of_fits fun hfits => ?_
  unfold leaf
  refine renders_advance_bind hkind ?_
  refine renders_node_bind ?_
  simp only [hbuild]
  refine renders_pure (List.forall_mem_nil _) fun _ => ?_
  show StopsIn all (build _).span
  rw [hspan]
  exact hfits.here hkind

theorem renders_primary {tag : Parse Tag} (hrules : rules.Echo W)
    (htag : ∀ {s : State} {B : List Span}, Echoes W B .any .solid tag (fun _ => Grammar.tag) s) :
    Echoes W B .any G (primary rules tag) (fun _ => primary allRules Grammar.tag) s := by
  refine renders_of_fits fun hfits => ?_
  unfold primary
  apply renders_peek_bind
  dsimp only [Rendering.moved]
  split
  case h_1 | h_2 | h_3 | h_4 | h_5 | h_6 =>
    rename_i hkind
    exact renders_leaf (s.kind_ne_eof hkind rfl) (fun _ _ => rfl) fun _ => rfl
  case h_7 hkind =>
    refine renders_advance_bind (s.kind_ne_eof hkind rfl) ?_
    apply renders_bind_solid (renders_nested (hrules.conditional rfl))
    intro inner s' _ hinner
    refine renders_expect_bind rfl fun _ => ?_
    exact renders_pure (List.forall_mem_nil _) fun _ => hinner
  case h_8 hkind =>
    have hstart : StopsIn all s.peek.span := hfits.here (s.kind_ne_eof hkind rfl)
    refine renders_advance_bind (s.kind_ne_eof hkind rfl) ?_
    apply Renders.anyFront
    apply renders_bind (renders_nested (renders_expressionsUpTo .rbracket hrules rfl rfl))
    intro items s' hs' _
    have hprevious : s'.previous ≠ none := hs'.previous_ne (by
      rw [State.previous_next (s.kind_ne_eof hkind rfl)]
      exact Option.some_ne_none _)
    refine renders_spanFrom_bind hprevious ?_
    refine renders_node_bind ?_
    have harray : ∀ (w : Rendering all) (node : Node), Expr.array (reread w node)
        (reread w items) = reread w (Expr.array node items) := fun w node =>
      congrArg (Expr.array _) (Remap.exprs_eq_map _ _ items).symm
    simp only [harray]
    exact renders_pure (List.forall_mem_nil _) fun hs' => State.Fits.spanFrom ⟨hs'.rest, hs'.previous⟩ hstart
  case h_9 hkind =>
    exact renders_nested (renders_objectLiteral hrules rfl (s.kind_ne_eof hkind rfl))
  case h_10 hkind =>
    apply renders_bind (renders_nested htag)
    intro t s' _ ht
    simp only [Renderable.span_tag]
    refine renders_node_bind ?_
    exact renders_pure (List.forall_mem_nil _) fun _ => ht
  case h_11 => exact renders_unexpected

/-! ## Calls, members and indices -/

/-- Nothing goes on with an operand in front of another token, or of a bracket that stands apart
from it in a head. -/
theorem suffix_of_done {object : Expr} (hparen : s.kind ≠ .lparen) (hdot : s.kind ≠ .dot)
    (hbracket : s.kind = .lbracket → s.inHead = true ∧ s.here.start ≠ object.span.stop) :
    suffix rules object s = (pure (.done object) : Parse (Turn Expr Expr)) s := by
  unfold suffix
  rw [get_bind]
  generalize s.kind = kind at *
  cases kind with
  | lparen => exact absurd rfl hparen
  | dot => exact absurd rfl hdot
  | lbracket =>
      obtain ⟨hhead, hapart⟩ := hbracket rfl
      exact congrFun (if_neg (by simp [hhead, hapart])) s
  | _ => rfl

section Suffix

variable {object : Expr} (hrules : rules.Echo W) (hobject : StopsIn all object.span)

include hrules hobject

theorem renders_callSuffix (hparen : s.kind = .lparen) :
    Echoes W B F .clear (suffix rules object) (fun w => suffix allRules (reread w object)) s := by
  have hkind : s.kind ≠ .eof := by simp [hparen]
  unfold suffix
  refine renders_get_bind_solid ?_ ?_
  · simp only [hparen, Rendering.kind_view, Renderable.span_expr]
    refine renders_advance_bind hkind ?_
    apply Renders.follow
    apply Renders.anyFront
    apply renders_bind (renders_nested (renders_expressionsUpTo .rparen hrules rfl rfl))
    intro arguments s' hs' _
    refine renders_spanFrom_bind (hs'.previous_ne (State.previous_next_ne hkind)) ?_
    refine renders_node_bind ?_
    have hcall : ∀ (w : Rendering all) (node : Node),
        Expr.call (reread w node) (reread w object) (reread w arguments) =
          reread w (Expr.call node object arguments) := fun w node =>
      congrArg (Expr.call _ _) (Remap.exprs_eq_map _ _ arguments).symm
    simp only [hcall]
    exact echoes_again (b := Expr.call _ object arguments)
      (fun hfits => State.Fits.spanFrom ⟨hfits.rest, hfits.previous⟩ hobject)
  · intro w t hkind' _ _
    simp only [hkind', hparen, Rendering.kind_view]

omit hrules in
theorem renders_memberSuffix (hdot : s.kind = .dot) :
    Echoes W B F .clear (suffix rules object) (fun w => suffix allRules (reread w object)) s := by
  have hkind : s.kind ≠ .eof := by simp [hdot]
  unfold suffix
  refine renders_get_bind_solid ?_ ?_
  · simp only [hdot, Rendering.kind_view, Renderable.span_expr]
    refine renders_advance_bind hkind ?_
    apply renders_kind_bind
    by_cases hname : isMemberName s.next.kind = true
    · have hkind' : s.next.kind ≠ .eof := by
        intro heof
        rw [heof] at hname
        cases hname
      simp only [if_pos hname]
      refine renders_advance_bind hkind' ?_
      refine renders_spanFrom_bind (State.previous_next_ne hkind') ?_
      refine renders_node_bind ?_
      exact echoes_again (b := Expr.member _ object s.next.peek.lexeme)
        (fun hfits => State.Fits.spanFrom ⟨hfits.rest, hfits.previous⟩ hobject)
    · simp only [if_neg hname]
      exact renders_unexpected
  · intro w t hkind' _ _
    simp only [hkind', hdot, Rendering.kind_view]

/-- A square bracket is an index outside heads, and in a head if it follows the operand directly. -/
theorem renders_indexSuffix (hbracket : s.kind = .lbracket)
    (hopen : (!s.inHead || s.here.start = object.span.stop : Bool) = true) :
    Echoes W B F .clear (suffix rules object) (fun w => suffix allRules (reread w object)) s := by
  have hkind : s.kind ≠ .eof := by simp [hbracket]
  unfold suffix
  refine renders_get_bind_solid ?_ ?_
  · simp only [hbracket, Rendering.kind_view, Rendering.inHead_view, Rendering.here_view,
      Renderable.span_expr, Rendering.meets, if_pos hopen]
    refine renders_advance_bind hkind ?_
    apply renders_bind_solid (renders_nested (hrules.conditional rfl))
    intro index s' hs' _
    refine renders_expect_bind rfl fun hclose => ?_
    refine renders_spanFrom_bind
      ((hs'.trans s'.proceeds_next).previous_ne (State.previous_next_ne hkind)) ?_
    refine renders_node_bind ?_
    exact echoes_again (b := Expr.index _ object index)
      (fun hfits => State.Fits.spanFrom ⟨hfits.rest, hfits.previous⟩ hobject)
  · intro w t hkind' hhead' hhere'
    simp only [hkind', hbracket, Rendering.kind_view, hhead', Rendering.inHead_view, hhere',
      Rendering.here_view]

omit hrules in
/-- A square bracket that is seen elsewhere is no index either: it stands apart here too, or it is
that of a body, which stands apart from all tokens. -/
theorem bracket_apart {w : Rendering all} {taken ahead : List (Taken all)} {t : State}
    (hs : s.inHead = inHead)
    (hnot : s.kind = .lbracket → s.inHead = true ∧ s.here.start ≠ object.span.stop)
    (hclear : Front.clear.Holds taken) (hnear : (Follow.near inHead).Holds ahead)
    (hsees : w.Sees (taken ++ ahead) s t) (hbracket : t.kind = .lbracket) :
    t.inHead = true ∧ t.here.start ≠ (reread w object).span.stop := by
  rw [Renderable.span_expr]
  rcases hsees.kind_cases with hsame | ⟨token, body, kind, place, rest, hopens, hsquare, -, -⟩ |
    ⟨_, _, _, _, _, _, _, _, hclose⟩ | ⟨_, _, hends⟩
  · -- A bracket that stands apart here stands apart elsewhere.
    obtain ⟨hhead, hapart⟩ := hnot (hsame.symm.trans hbracket)
    obtain ⟨x, rest, hcons⟩ : ∃ x rest, taken ++ ahead = x :: rest :=
      List.exists_cons_of_ne_nil fun hnil => by
        rw [hnil] at hsees
        have heof : s.kind = .eof := State.kind_of_nil hsees.rest
        rw [hsame, heof] at hbracket
        cases hbracket
    rw [hcons] at hsees
    rw [hsees.here_cons]
    exact ⟨hsees.inHead.trans hhead, fun hmeets => hapart ((w.meets _ _).1 hmeets)⟩
  · -- The bracket of a body stands apart from all tokens, and there is none but in a head.
    have hhead : inHead = true := by
      cases inHead with
      | true => rfl
      | false =>
        have hunopened : Follow.unopened.Holds (taken ++ ahead) :=
          Follow.unopened.holds_clear hclear hnear
        exact absurd hopens (hunopened _ _ _ _ _)
    rw [hopens] at hsees
    have hhere : s.here = token.span := by
      unfold State.here State.peek
      rw [hsees.rest]
      rfl
    obtain ⟨last, hlast, hstop⟩ := hobject
    rw [hsees.here_cons, hhere]
    refine ⟨hsees.inHead.trans (hs.trans hhead), fun hmeets => ?_⟩
    exact w.detached body hsquare last hlast
      (hstop.trans (((w.meets _ _).1 hmeets).symm.trans place.symm))
  · rw [hbracket] at hclose
    cases hclose
  · rw [hbracket] at hends
    cases hends

theorem renders_suffix (hs : s.inHead = inHead) :
    Echoes W B (.near inHead) .clear (suffix rules object)
      (fun w => suffix allRules (reread w object)) s := by
  by_cases hparen : s.kind = .lparen
  · exact renders_callSuffix hrules hobject hparen
  by_cases hdot : s.kind = .dot
  · exact renders_memberSuffix hobject hdot
  by_cases hindex : s.kind = .lbracket ∧
    (!s.inHead || s.here.start = object.span.stop : Bool) = true
  · exact renders_indexSuffix hrules hobject hindex.1 hindex.2
  -- Whatever comes next is nothing to go on with, here and elsewhere.
  have hnot : s.kind = .lbracket → s.inHead = true ∧ s.here.start ≠ object.span.stop := by
    intro hbracket
    have hshut : ¬ (!s.inHead || s.here.start = object.span.stop : Bool) = true :=
      fun hopen => hindex ⟨hbracket, hopen⟩
    simpa using hshut
  have hdone : suffix rules object s = (pure (.done object) : Parse (Turn Expr Expr)) s :=
    suffix_of_done hparen hdot hnot
  refine Renders.of_eq (echoes_done (a := object) fun _ => hobject) hdone ?_
  intro w taken ahead t _ hclear hnear hsees
  exact suffix_of_done (hsees.kind_ne rfl hparen) (hsees.kind_ne rfl hdot)
    (bracket_apart hobject hs hnot hclear hnear hsees)

end Suffix

theorem renders_operand {tag : Parse Tag} (hrules : rules.Echo W) (hs : s.inHead = inHead)
    (htag : ∀ {s : State} {B : List Span}, Echoes W B .any .solid tag (fun _ => Grammar.tag) s) :
    Echoes W B (.near inHead) G (operand rules tag) (fun _ => operand allRules Grammar.tag) s := by
  unfold operand
  apply renders_bind (renders_primary hrules htag).follow
  intro object s' hs' hobject
  refine echoes_iterate ?_ hobject
  intro object' u hu hobject'
  exact renders_suffix hrules hobject' (hu.inHead.trans (hs'.inHead.trans hs))

/-! ## Operators -/

theorem renders_unaryRule {tag : Parse Tag} (hrules : rules.Echo W) (hs : s.inHead = inHead)
    (htag : ∀ {s : State} {B : List Span}, Echoes W B .any .solid tag (fun _ => Grammar.tag) s) :
    Echoes W B (.near inHead) G (unaryRule rules tag) (fun _ => unaryRule allRules Grammar.tag)
      s := by
  refine renders_of_fits fun hfits => ?_
  have hnext := (State.inHead_next s).trans hs
  have hspan : ∀ operand : Expr, s.kind ≠ .eof → StopsIn all operand.span →
      StopsIn all (s.peek.span.through operand.span) :=
    fun operand hkind hoperand => (hfits.here hkind).through hoperand
  unfold unaryRule
  apply renders_peek_bind
  dsimp only [Rendering.moved]
  split
  next op hop =>
    have hkind : s.kind ≠ .eof := by
      intro heof
      rw [show s.peek.kind = .eof from heof] at hop
      cases hop
    refine renders_advance_bind hkind ?_
    apply renders_bind (hrules.unary hnext)
    intro operand s' _ hoperand
    simp only [Renderable.span_expr, ← Rendering.through]
    refine renders_node_bind ?_
    exact renders_pure (List.forall_mem_nil _) fun _ => hspan operand hkind hoperand
  next =>
    by_cases hawait : s.peek.kind = .keyword .awaitKw
    · simp only [if_pos hawait]
      refine renders_advance_bind (s.kind_ne_eof hawait rfl) ?_
      apply renders_bind (hrules.unary hnext)
      intro operand s' _ hoperand
      simp only [Renderable.span_expr, ← Rendering.through]
      refine renders_node_bind ?_
      exact renders_pure (List.forall_mem_nil _) fun _ => hspan operand (s.kind_ne_eof hawait rfl) hoperand
    · simp only [if_neg hawait]
      exact renders_operand hrules hs htag

/-- A token turns into no operator and out of none. -/
theorem Rendering.Sees.binaryOp?_eq {w : Rendering all} {ahead : List (Taken all)} {t : State}
    (h : w.Sees ahead s t) : binaryOp? t.kind = binaryOp? s.kind :=
  h.apply_eq rfl rfl fun kind hends => by
    cases kind <;> simp_all [endsOperand, binaryOp?]

theorem renders_binaryStep (least : Nat) {left : Expr} (hrules : rules.Echo W)
    (hs : s.inHead = inHead) (hleft : StopsIn all left.span) :
    Echoes W B (.near inHead) .clear
      (binaryStep rules least left) (fun w => binaryStep allRules least (reread w left)) s := by
  have hdone : Echoes W B (.near inHead) .clear
      (pure (.done left : Turn Expr Expr)) (fun w => pure (.done (reread w left))) s :=
    echoes_done (a := left) fun _ => hleft
  unfold binaryStep
  refine renders_kind_bind_of ?_ fun w taken ahead t _ _ _ hsees => by rw [hsees.binaryOp?_eq]
  split
  next op level hop =>
    by_cases hlevel : level < least
    · simp only [if_pos hlevel]
      exact hdone
    · have hkind : s.kind ≠ .eof := by
        intro heof
        rw [heof] at hop
        cases hop
      simp only [if_neg hlevel]
      refine renders_advance_bind hkind ?_
      apply Renders.anyFront (G := .clear)
      apply renders_bind (hrules.binary _ ((State.inHead_next s).trans hs))
      intro right s' _ hright
      simp only [Renderable.span_expr, ← Rendering.through]
      refine renders_node_bind ?_
      exact echoes_again (b := Expr.binary _ left op right) fun _ => hleft.through hright
  next => exact hdone

theorem renders_binaryRule {unary : Parse Expr} (least : Nat) (hrules : rules.Echo W)
    (hs : s.inHead = inHead)
    (hunary : Echoes W B (.near inHead) G unary (fun _ => unaryExpr) s) :
    Echoes W B (.near inHead) G (binaryRule rules unary least)
      (fun _ => binaryRule allRules unaryExpr least) s := by
  unfold binaryRule
  apply renders_bind hunary
  intro left s' hs' hleft
  refine echoes_iterate ?_ hleft
  intro left' u hu hleft'
  exact renders_binaryStep least hrules (hu.inHead.trans (hs'.inHead.trans hs)) hleft'

theorem renders_conditionalRule {binary : Nat → Parse Expr} (hrules : rules.Echo W)
    (hs : s.inHead = inHead)
    (hbinary : Echoes W B (.near inHead) G (binary 1) (fun _ => binaryExpr 1) s) :
    Echoes W B (.near inHead) G (conditionalRule rules binary)
      (fun _ => conditionalRule allRules binaryExpr) s := by
  unfold conditionalRule
  apply renders_bind hbinary
  intro test s' hs' htest
  have hhead : s'.next.inHead = inHead := (State.inHead_next s').trans (hs'.inHead.trans hs)
  refine renders_eat_if rfl ?_ ?_
  · intro _
    apply renders_bind_solid (renders_nested (hrules.conditional rfl))
    intro consequent u hu _
    refine renders_expect_bind rfl fun _ => ?_
    apply renders_bind (hrules.conditional ((State.inHead_next u).trans (hu.inHead.trans hhead)))
    intro alternate v _ halternate
    simp only [Renderable.span_expr, ← Rendering.through]
    refine renders_node_bind ?_
    exact renders_pure (List.forall_mem_nil _) fun _ => htest.through halternate
  · intro _
    exact renders_pure (List.forall_mem_nil _) fun _ => htest

/-! ## Tags -/

theorem renders_attributeValue (hrules : rules.Echo W) :
    Echoes W B .any G (attributeValue rules) (fun _ => attributeValue allRules) s := by
  unfold attributeValue
  apply renders_peek_bind
  dsimp only [Rendering.moved]
  split
  case h_1 hkind =>
    refine renders_advance_bind (s.kind_ne_eof hkind rfl) ?_
    apply renders_bind_solid (hrules.conditional rfl)
    intro value s' _ hvalue
    refine renders_expect_bind rfl fun _ => ?_
    exact renders_pure (List.forall_mem_nil _) fun _ => hvalue
  case h_2 | h_3 | h_4 | h_5 =>
    rename_i hkind
    exact renders_leaf (s.kind_ne_eof hkind rfl) (fun _ _ => rfl) fun _ => rfl
  case h_6 => exact renders_unexpected

theorem renders_tagAttribute (hrules : rules.Echo W) (hkind : s.kind ≠ .eof) :
    Echoes W B .any G (tagAttribute rules) (fun _ => tagAttribute allRules) s := by
  have hafter : ∀ (value : Option Expr) (s' : State), s.next.Proceeds s' →
      Renders W (fun _ => []) B .any .clear
        (do return ⟨s.peek.lexeme, value, s.peek.kind = .atModifier, ← spanFrom s.peek.span⟩)
        (fun w => do
          return ⟨s.peek.lexeme, reread w value, s.peek.kind = .atModifier,
            ← spanFrom (w.span s.peek.span)⟩ : Rendering all → Parse Attribute) s' := by
    intro value s' hs'
    refine renders_spanFrom_bind (hs'.previous_ne (State.previous_next hkind ▸ Option.some_ne_none _)) ?_
    have hattribute : ∀ (w : Rendering all) (span : Span),
        (⟨s.peek.lexeme, reread w value, s.peek.kind = .atModifier, w.span span⟩ : Attribute) =
          reread w (⟨s.peek.lexeme, value, s.peek.kind = .atModifier, span⟩ : Attribute) :=
      fun w span => congrArg (Attribute.mk _ · _ _) (by cases value <;> rfl)
    simp only [hattribute]
    exact renders_pure (List.forall_mem_nil _) fun _ => trivial
  unfold tagAttribute
  refine renders_advance_bind hkind ?_
  refine renders_eat_bind rfl ?_ ?_
  · intro _
    simp only [if_true]
    apply Renders.anyFront (G := .clear)
    apply renders_bind (echoes_some (renders_attributeValue hrules))
    intro value s' hs' _
    exact hafter value s' (s.next.proceeds_next.trans hs')
  · intro _
    simp only [Bool.false_eq_true, if_false, pure_bind]
    exact (hafter none s.next (.refl _)).anyFront

instance : Renderable TagHead where
  reread w head := { head with attributes := reread w head.attributes }

instance : AllWhole TagHead := ⟨fun _ => trivial⟩

theorem renders_tagHeadStep {name : String} {head : TagHead} (hrules : rules.Echo W) :
    Echoes W B .any .clear (tagHeadStep rules name head)
      (fun w => tagHeadStep allRules name (reread w head)) s := by
  unfold tagHeadStep
  apply renders_peek_bind
  dsimp only [Rendering.moved]
  split
  case h_1 hkind | h_2 hkind =>
    apply renders_bind (renders_tagAttribute hrules (s.kind_ne_eof hkind rfl))
    intro added s' _ _
    have hadded : ∀ w : Rendering all, { reread w head with
        attributes := (reread w head).attributes ++ [reread w added] } =
          reread w { head with attributes := head.attributes ++ [added] } := fun w =>
      congrArg (TagHead.mk · head.styles) (Renderable.render_concat w head.attributes added)
    simp only [hadded]
    exact echoes_again fun _ => trivial
  case h_3 hkind =>
    refine renders_advance_bind (s.kind_ne_eof hkind rfl) ?_
    exact echoes_again (b := TagHead.mk head.attributes
      (head.styles ++ StyleDecl.ofText s.peek.lexeme)) fun _ => trivial
  case h_4 hkind =>
    refine renders_advance_bind (s.kind_ne_eof hkind rfl) ?_
    exact echoes_done (a := (head, true)) fun _ => ⟨trivial, trivial⟩
  case h_5 hkind =>
    refine renders_advance_bind (s.kind_ne_eof hkind rfl) ?_
    exact echoes_done (a := (head, false)) fun _ => ⟨trivial, trivial⟩
  case h_6 => exact renders_unexpected

theorem render_appendText (w : Rendering all) (children : List Markup) (word : Token) :
    appendText (reread w children) (w.moved word) = reread w (appendText children word) := by
  have hchildren : reread w children = children.map (reread w) := rfl
  have hother : children.map (reread w) ++ [Markup.text word.lexeme (w.span word.span)] =
      reread w (children ++ [Markup.text word.lexeme word.span]) :=
    Renderable.render_concat w children (.text word.lexeme word.span)
  unfold appendText
  rw [hchildren, List.getLast?_map]
  cases children.getLast? with
  | none => exact hother
  | some last =>
      cases last with
      | text content span =>
          show List.dropLast _ ++ [Markup.text (content ++
            (if (w.span word.span).start = (w.span span).stop then "" else " ") ++ word.lexeme)
            ((w.span span).through (w.span word.span))] = _
          rw [← List.map_dropLast]
          simp only [w.meets, ← w.through]
          exact Renderable.render_concat w children.dropLast (.text _ _)
      | tag t => exact hother
      | expr e => exact hother

theorem renders_childStep {name : String} {children : List Markup} (hrules : rules.Echo W) :
    Echoes W B .any .clear (childStep rules name children)
      (fun w => childStep allRules name (reread w children)) s := by
  unfold childStep
  apply renders_peek_bind
  dsimp only [Rendering.moved]
  split
  case h_1 hkind =>
    by_cases hname : s.peek.lexeme = name
    · simp only [if_pos hname]
      refine renders_advance_bind (s.kind_ne_eof hkind rfl) ?_
      exact echoes_done (a := children) fun _ => trivial
    · simp only [if_neg hname]
      exact renders_fail
  case h_2 =>
    apply renders_bind hrules.tag
    intro t s' _ _
    have ht : ∀ w : Rendering all, reread w children ++ [Markup.tag (reread w t)] =
        reread w (children ++ [Markup.tag t]) :=
      fun w => Renderable.render_concat w children (.tag t)
    simp only [ht]
    exact echoes_again fun _ => trivial
  case h_3 hkind =>
    refine renders_advance_bind (s.kind_ne_eof hkind rfl) ?_
    apply renders_bind_solid (hrules.conditional rfl)
    intro value s' _ _
    refine renders_expect_bind rfl fun _ => ?_
    have hvalue : ∀ w : Rendering all, reread w children ++ [Markup.expr (reread w value)] =
        reread w (children ++ [Markup.expr value]) :=
      fun w => Renderable.render_concat w children (.expr value)
    simp only [hvalue]
    exact echoes_again fun _ => trivial
  case h_4 hkind =>
    refine renders_advance_bind (s.kind_ne_eof hkind rfl) ?_
    simp only [render_appendText]
    exact echoes_again fun _ => trivial
  case h_5 => exact renders_fail
  case h_6 => exact renders_unexpected

theorem renders_tagRule (hrules : rules.Echo W) :
    Echoes W B .any G (tagRule rules) (fun _ => tagRule allRules) s := by
  refine renders_of_fits fun hfits => ?_
  unfold tagRule
  refine renders_expect_bind rfl fun hopen => ?_
  have hkind : s.kind ≠ .eof := by simp [hopen]
  apply Renders.anyFront (G := .clear)
  apply renders_bind
  · refine echoes_iterate ?_ trivial
    intro head s' _ _
    exact renders_tagHeadStep hrules
  rintro ⟨head, selfClosing⟩ s' hs' _
  have hafter : ∀ (children : List Markup) (u : State), s'.Proceeds u →
      Echoes W B .any .clear
        (do return ⟨s.peek.lexeme, head.attributes, head.styles, children, selfClosing,
          ← spanFrom s.peek.span⟩)
        (fun w => do
          return ⟨s.peek.lexeme, head.attributes.map (reread w), head.styles, reread w children,
            selfClosing, ← spanFrom (w.span s.peek.span)⟩ : Rendering all → Parse Tag) u := by
    intro children u hu
    refine renders_spanFrom_bind
      ((hs'.trans hu).previous_ne (State.previous_next hkind ▸ Option.some_ne_none _)) ?_
    have htag : ∀ (w : Rendering all) (span : Span),
        (⟨s.peek.lexeme, head.attributes.map (reread w), head.styles, reread w children,
          selfClosing, w.span span⟩ : Tag) =
          reread w (⟨s.peek.lexeme, head.attributes, head.styles, children, selfClosing, span⟩ :
            Tag) := by
      intro w span
      show _ = Remap.tag _ _ _
      rw [Remap.tag, Remap.attributeList_eq_map, Remap.markups_eq_map]
      rfl
    simp only [htag]
    refine renders_pure (List.forall_mem_nil _) fun hu' => ?_
    exact State.Fits.spanFrom hu' (hfits.here hkind)
  cases selfClosing with
  | true =>
      simp only [reread, if_true, pure_bind]
      exact hafter [] s' (.refl _)
  | false =>
      simp only [reread, Bool.false_eq_true, if_false]
      apply renders_bind
      · refine echoes_iterate ?_ trivial
        intro children u _ _
        exact renders_childStep hrules
      intro children u hu _
      exact hafter children u hu

/-! ## All expressions -/

theorem echo_exprRules (depth : Nat) : (exprRules depth).Echo W := by
  induction depth with
  | zero =>
      exact ⟨fun _ => renders_fail, fun _ _ _ _ _ _ => renders_fail, fun _ => renders_fail,
        renders_fail⟩
  | succ depth ih =>
      have htag : ∀ {s : State} {B : List Span} {G : Front},
          Echoes W B .any G (exprRules (depth + 1)).tag (fun _ => Grammar.tag) s := by
        rw [tag_eq]
        exact renders_tagRule ih
      have hunary : ∀ {s : State} {B : List Span} {G : Front} {inHead : Bool},
          s.inHead = inHead →
          Echoes W B (.near inHead) G (exprRules (depth + 1)).unary (fun _ => unaryExpr) s := by
        rw [unaryExpr_eq]
        exact fun hs => renders_unaryRule ih hs htag
      have hbinary : ∀ (least : Nat) {s : State} {B : List Span} {G : Front} {inHead : Bool},
          s.inHead = inHead →
          Echoes W B (.near inHead) G ((exprRules (depth + 1)).binary least)
            (fun _ => binaryExpr least) s := by
        intro least
        rw [binaryExpr_eq]
        exact fun hs => renders_binaryRule least ih hs (hunary hs)
      refine ⟨?_, hbinary, hunary, htag⟩
      rw [expression_eq]
      exact fun hs => renders_conditionalRule ih hs (hbinary 1 hs)

theorem renders_expression (hs : s.inHead = inHead) :
    Echoes W B (.near inHead) G expression (fun _ => expression) s :=
  Renders.of_eq ((echo_exprRules (s.rest.length + 1)).conditional hs) rfl fun _ _ _ _ _ _ _ _ => rfl

/-- Before no body an expression ends in the same place in a head and elsewhere. -/
theorem renders_expression_unopened :
    Echoes W B .unopened G expression (fun _ => expression) s := by
  refine (renders_expression rfl).mono (fun _ hbody => hbody) ?_ fun _ hG => hG
  intro ahead hunopened
  cases s.inHead with
  | true => trivial
  | false => exact hunopened

theorem renders_tag : Echoes W B .any G tag (fun _ => tag) s :=
  Renders.of_eq (echo_exprRules (s.rest.length + 1)).tag rfl fun _ _ _ _ _ _ _ _ => rfl

theorem renders_headExpression : Echoes W B .any G headExpression (fun _ => headExpression) s :=
  renders_withHead (renders_expression rfl)

end ComponentLang.Grammar
