import ComponentLang.Grammar.Statement
import ComponentLang.Proofs.Grammar.Rendering.Expression
import ComponentLang.Proofs.Tree.Bodies

/-!
# Types, imports, markup and simple statements, read elsewhere

From here on nothing comes behind the tokens that are read again. There are no bodies in what these
readers give.
-/
namespace ComponentLang.Grammar

open Parse
open Renderable (reread tame whole)

variable {all : List Token} {s : State} {B : List Span} {F : Follow} {G : Front}

/-- What `p` gives `q` gives elsewhere, where nothing comes behind. -/
abbrev RendersFinal {α : Type} [Renderable α] (all : List Token) (m : α → List Span) (B : List Span)
    (F : Follow) (G : Front) (p : Parse α) (q : Rendering all → Parse α) (s : State) : Prop :=
  Renders (Rendering.Final : Rendering all → Prop) m B F G p q s

/-- The same of what has no bodies in it. -/
abbrev EchoesFinal {α : Type} [Renderable α] (all : List Token) (B : List Span) (F : Follow)
    (G : Front) (p : Parse α) (q : Rendering all → Parse α) (s : State) : Prop :=
  Echoes (Rendering.Final : Rendering all → Prop) B F G p q s

/-- What `p` gives it gives elsewhere too, and there are no bodies in it. -/
abbrev Restates {α : Type} [Renderable α] (all : List Token) (B : List Span) (F : Follow)
    (G : Front)
    (p : Parse α) (s : State) : Prop :=
  EchoesFinal all B F G p (fun _ => p) s

/-! ## Type expressions -/

/-- Two tokens that are an empty pair of square brackets elsewhere are one here, unless the first
opens a body. -/
theorem Rendering.Sees.emptyPair {w : Rendering all} {ahead : List (Taken all)} {t : State}
    (h : w.Sees ahead s t) (hs : s.Fits all) (hunopened : Follow.unopened.Holds ahead)
    (hpair : t.kind = .lbracket ∧ t.secondKind = .rbracket) :
    s.kind = .lbracket ∧ s.secondKind = .rbracket := by
  obtain ⟨hfirst, hsecond⟩ := hpair
  have hs' : s.kind = .lbracket := by
    rcases h.kind_cases with hsame | ⟨_, _, _, _, _, hopens, _⟩ | ⟨_, _, _, _, _, _, _, _, hclose⟩ |
      ⟨_, _, hends⟩
    · exact hsame.symm.trans hfirst
    · exact absurd hopens (hunopened _ _ _ _ _)
    · rw [hfirst] at hclose
      cases hclose
    · rw [hfirst] at hends
      cases hends
  refine ⟨hs', ?_⟩
  have hkind : s.kind ≠ .eof := by simp [hs']
  have hrest := State.rest_of_kind hkind
  have hnext : t.next.kind = .rbracket := State.next_kind_of_second (by simp [hfirst]) hsecond
  obtain ⟨x, rest, rfl⟩ : ∃ x rest, ahead = x :: rest := List.exists_cons_of_ne_nil fun hnil => by
    rw [hnil] at h
    exact absurd (State.kind_of_nil h.rest) hkind
  rw [State.secondKind_eq (by simp [hrest])]
  rcases h.next.kind_cases with hsame | ⟨_, _, _, _, _, _, _, _, hopen⟩ |
    ⟨token, body, _, _, _, hcloses, hsquare, hbrace, _⟩ | ⟨_, _, hends⟩
  · exact hsame.symm.trans hnext
  · rw [hnext] at hopen
    cases hopen
  · -- A body that closes here directly behind a square bracket is not in square brackets.
    have hinfix : [s.peek, s.next.peek] <:+: all := by
      have hrest' := State.rest_of_kind (s := s.next) (by simp [hbrace])
      obtain ⟨before, hbefore⟩ := hs.rest
      refine ⟨before, s.next.next.rest, ?_⟩
      rw [← hbefore, hrest, hrest', List.append_assoc]
      rfl
    exact absurd hbrace (w.apart body hsquare _ _ hinfix hs')
  · rw [hnext] at hends
    cases hends

instance : Renderable TypeExpr := { reread := fun w => Remap.typeExpr w.span }

instance : AllWhole TypeExpr := ⟨fun _ => trivial⟩

theorem renders_typeExprAtom {inner : Parse TypeExpr}
    (hinner : ∀ {s : State} {B : List Span} {G : Front}, s.previous ≠ none →
      Restates all B .unopened G inner s) :
    Restates all B .any G (typeExprAtom inner) s := by
  unfold typeExprAtom
  apply renders_peek_bind
  dsimp only [Rendering.moved]
  split
  case h_1 hkind | h_2 hkind =>
    have hnext := State.previous_next_ne (s.kind_ne_eof hkind rfl)
    refine renders_advance_bind (s.kind_ne_eof hkind rfl) ?_
    by_cases harray : (s.peek.lexeme == "Array") = true
    · simp only [if_pos harray]
      refine renders_eat_if rfl ?_ ?_
      · intro hlt
        apply renders_bind_solid (hinner (State.previous_next_ne (by simp [hlt])))
        intro element s' _ _
        refine renders_expect_bind rfl fun hgt => ?_
        refine renders_spanFrom_bind (State.previous_next_ne (by simp [hgt])) ?_
        exact renders_pure (a := TypeExpr.array _ element) (List.forall_mem_nil _) fun _ => trivial
      · intro _
        exact renders_pure (a := TypeExpr.named _ _) (List.forall_mem_nil _) fun _ => trivial
    · simp only [if_neg harray]
      exact renders_pure (a := TypeExpr.named _ _) (List.forall_mem_nil _) fun _ => trivial
  case h_3 hkind =>
    have hnext := State.previous_next_ne (s.kind_ne_eof hkind rfl)
    refine renders_advance_bind (s.kind_ne_eof hkind rfl) ?_
    apply renders_bind_solid (hinner hnext)
    intro inside s' _ _
    refine renders_expect_bind rfl fun _ => ?_
    exact renders_pure (List.forall_mem_nil _) fun _ => trivial
  case h_4 => exact renders_unexpected

theorem renders_typeExprSuffix {start : Span} {a : TypeExpr} :
    EchoesFinal all B .unopened .clear (typeExprSuffix start a)
      (fun w => typeExprSuffix (w.span start) (reread w a)) s := by
  refine renders_of_fits fun hfits => ?_
  unfold typeExprSuffix
  by_cases hquestion : s.kind = .question
  · have hkind : s.kind ≠ .eof := by simp [hquestion]
    refine renders_get_bind_solid ?_ ?_
    · simp only [hquestion, Rendering.kind_view, if_true]
      refine renders_advance_bind hkind ?_
      refine renders_spanFrom_bind (State.previous_next_ne hkind) ?_
      exact echoes_again (b := TypeExpr.optional _ a) fun _ => trivial
    · intro w t hkind' _ _
      simp only [hkind', hquestion, Rendering.kind_view, if_true]
  by_cases hbrackets : s.kind = .lbracket ∧ s.secondKind = .rbracket
  · have hkind : s.kind ≠ .eof := by simp [hbrackets.1]
    have hkind' : s.next.kind ≠ .eof := by
      rw [State.next_kind_of_second hkind hbrackets.2]
      simp
    refine renders_get_advance_bind
      (do
        let _ ← advance
        return .again (.array (← spanFrom start) a))
      (fun w => do
        let _ ← advance
        return .again (.array (← spanFrom (w.span start)) (reread w a))) hkind ?_ ?_ ?_
    · simp only [hbrackets]
      rfl
    · intro w t hpeek hsecond
      have hfirst : t.kind = .lbracket := (congrArg Token.kind hpeek).trans hbrackets.1
      simp only [hfirst, hsecond, hbrackets]
      rfl
    · refine renders_advance_bind hkind' ?_
      refine renders_spanFrom_bind (State.previous_next_ne hkind') ?_
      exact echoes_again (b := TypeExpr.array _ a) fun _ => trivial
  have hdone : ∀ {start : Span} {a : TypeExpr} {s : State}, s.kind ≠ .question →
      ¬ (s.kind = .lbracket ∧ s.secondKind = .rbracket) →
      typeExprSuffix start a s = (pure (.done a) : Parse (Turn TypeExpr TypeExpr)) s := by
    intro start a s hquestion hbrackets
    unfold typeExprSuffix
    rw [get_bind, if_neg hquestion, if_neg (by simpa using hbrackets)]
  refine Renders.of_eq (echoes_done (a := a) fun _ => trivial) (hdone hquestion hbrackets) ?_
  intro w taken ahead t _ hclear hunopened hsees
  exact hdone (hsees.kind_ne rfl hquestion) fun hpair => hbrackets
    (hsees.emptyPair hfits (Follow.unopened.holds_clear hclear hunopened) hpair)

section TypeExpr

variable {inner : Parse TypeExpr}
  (hinner : ∀ {s : State} {B : List Span} {G : Front}, s.previous ≠ none →
    Restates all B .unopened G inner s)

include hinner

theorem renders_suffixedTypeExpr : Restates all B .unopened G (suffixedTypeExpr inner) s := by
  unfold suffixedTypeExpr
  apply renders_here_bind
  apply renders_bind (renders_typeExprAtom hinner).follow
  intro a s' _ _
  exact echoes_iterate (fun _ _ _ _ => renders_typeExprSuffix) trivial

theorem renders_unionMember {members : List TypeExpr} :
    EchoesFinal all B .unopened .clear (unionMember inner members)
      (fun w => unionMember inner (reread w members)) s := by
  unfold unionMember
  refine renders_eat_if rfl ?_ ?_
  · intro _
    apply Renders.anyFront (G := .clear)
    apply renders_bind (renders_suffixedTypeExpr hinner)
    intro member s' _ _
    simp only [Renderable.render_concat]
    exact echoes_again fun _ => trivial
  · intro _
    exact echoes_done fun _ => trivial

theorem renders_typeExprRule (hs : s.previous ≠ none) :
    Restates all B .unopened G (typeExprRule inner) s := by
  unfold typeExprRule
  apply renders_bind (renders_suffixedTypeExpr hinner)
  intro first s' hs' _
  have hprevious := hs'.previous_ne hs
  refine renders_kind_if rfl ?_ ?_
  · intro _
    apply renders_bind
      (echoes_iterate (b := [first]) (fun _ _ _ _ => renders_unionMember hinner) trivial)
    intro members u hu _
    have hspan : ∀ w : Rendering all, (reread w first).span = w.span first.span :=
      fun w => Remap.span_typeExpr _ _
    simp only [hspan]
    refine renders_spanFrom_bind (hu.previous_ne hprevious) ?_
    have hunion : ∀ (w : Rendering all) (span : Span), TypeExpr.union (w.span span)
        (reread w members) = reread w (TypeExpr.union span members) := fun w span =>
      congrArg (TypeExpr.union _) (Remap.typeExprs_eq_map _ members).symm
    simp only [hunion]
    exact renders_pure (List.forall_mem_nil _) fun _ => trivial
  · intro _
    exact renders_pure (List.forall_mem_nil _) fun _ => trivial

end TypeExpr

theorem renders_typeExprAt (depth : Nat) (hs : s.previous ≠ none) :
    Restates all B .unopened G (typeExprAt depth) s := by
  induction depth generalizing s B G with
  | zero => exact renders_fail
  | succ depth ih => exact renders_typeExprRule ih hs

theorem renders_typeExpr (hs : s.previous ≠ none) : Restates all B .unopened G typeExpr s := by
  refine Renders.of_eq (renders_typeExprAt (s.rest.length + 1) hs) rfl ?_
  intro w taken ahead t hw _ _ hsees
  show typeExprAt (t.rest.length + 1) t = _
  rw [hsees.length_eq hw]

theorem renders_typeExpr? : Restates all B .unopened .clear typeExpr? s := by
  unfold typeExpr?
  refine renders_eat_if rfl ?_ ?_
  · intro hcolon
    apply Renders.anyFront (G := .clear)
    apply renders_bind (renders_typeExpr (State.previous_next_ne (by simp [hcolon])))
    intro typeExpr s' _ _
    exact renders_pure (a := some typeExpr) (List.forall_mem_nil _) fun _ => trivial
  · intro _
    exact renders_pure (a := none) (List.forall_mem_nil _) fun _ => trivial

/-! ## Imports and the heads of declarations -/

instance : Renderable Import := { reread := fun w => Remap.importDecl w.span }

instance : AllWhole Import := ⟨fun _ => trivial⟩

theorem renders_expectIdentifier {expected : Expected} :
    Restates all B F G (expectIdentifier expected) s := by
  have hname : Restates all B F G (expectIdentifier expected >>= pure) s :=
    renders_expectIdentifier_bind fun _ => renders_pure (List.forall_mem_nil _) fun _ => trivial
  simpa using hname

theorem renders_expect (kind : TokenKind) (expected : Expected)
    (hkind : (kind != .eof) = true) : Restates all B F G (expect kind expected) s := by
  have htoken : Restates all B F G (expect kind expected >>= pure) s :=
    renders_expect_bind hkind fun _ => renders_pure (List.forall_mem_nil _) fun _ => trivial
  simpa using htoken

theorem renders_importedNames : Restates all B .any .clear importedNames s := by
  unfold importedNames
  apply renders_bind_solid
  · exact renders_commaSeparated (m := fun _ => []) (F := .any) fun _ _ => renders_expectIdentifier
  intro names s' _ _
  refine renders_expect_bind rfl fun _ => ?_
  exact renders_pure (List.forall_mem_nil _) fun _ => trivial

theorem renders_importDecl (hkind : s.kind ≠ .eof) : Restates all B .any G importDecl s := by
  have hend : ∀ (names : List String × Option String) {u : State}, u.previous ≠ none →
      EchoesFinal all B .any .clear (do
        if ← eat (.keyword .fromKw) then
          let source ← expect .string .modulePath
          return Import.mk names.1 names.2 source.lexeme (← spanFrom s.peek.span)
        else unexpected .fromWord) (fun w => do
        if ← eat (.keyword .fromKw) then
          let source ← expect .string .modulePath
          return Import.mk names.1 names.2 source.lexeme (← spanFrom (w.span s.peek.span))
        else unexpected .fromWord) u := by
    intro names u hu
    refine renders_eat_if rfl ?_ ?_
    · intro _
      refine renders_expect_bind rfl fun hstring => ?_
      refine renders_spanFrom_bind (State.previous_next_ne (by simp [hstring])) ?_
      exact renders_pure (a := Import.mk names.1 names.2 _ _) (List.forall_mem_nil _) fun _ => trivial
    · intro _
      exact renders_unexpected
  unfold importDecl
  refine renders_advance_bind hkind ?_
  have hnext := State.previous_next_ne hkind
  refine renders_eat_if rfl ?_ ?_
  · intro hbrace
    apply Renders.anyFront (G := .clear)
    apply renders_bind renders_importedNames
    intro names s' hs' _
    simp only [Renderable.render_strings]
    exact hend (names, none) (hs'.previous_ne (State.previous_next_ne (by simp [hbrace])))
  · intro _
    refine renders_expectIdentifier_bind fun hname => ?_
    exact (hend ([], some _) (State.previous_next_ne (by simp [hname]))).anyFront

theorem renders_modifiers : Restates all B .any .clear modifiers s := by
  unfold modifiers
  refine echoes_iterate (b := []) (fun names s' _ _ => ?_) trivial
  have hnames : ∀ w : Rendering all, reread w names ++ [(w.moved s'.peek).lexeme] =
      reread w (names ++ [s'.peek.lexeme]) := fun w => Renderable.render_concat w names _
  unfold modifierStep
  refine renders_kind_if rfl ?_ ?_
  · intro hmodifier
    refine renders_advance_bind (by simp [hmodifier]) ?_
    simp only [hnames]
    exact echoes_again fun _ => trivial
  · intro _
    exact echoes_done fun _ => trivial

instance : Renderable Param := { reread := fun w => Remap.param w.span }

instance : AllWhole Param := ⟨fun _ => trivial⟩

theorem renders_param : Restates all B .unopened G param s := by
  unfold param
  apply renders_here_bind
  refine renders_expectIdentifier_bind fun hname => ?_
  apply Renders.anyFront (G := .clear)
  apply renders_bind renders_typeExpr?
  intro typeExpr s' hs' _
  refine renders_spanFrom_bind (hs'.previous_ne (State.previous_next_ne (by simp [hname]))) ?_
  exact renders_pure (a := Param.mk _ typeExpr _) (List.forall_mem_nil _) fun _ => trivial

theorem renders_functionWord : Restates all B .any .solid functionWord s := by
  unfold functionWord
  refine renders_eat_if rfl ?_ ?_
  · intro _
    exact renders_pure (a := ()) (List.forall_mem_nil _) fun _ => trivial
  · intro _
    refine renders_eat_if rfl ?_ ?_
    · intro _
      exact renders_pure (a := ()) (List.forall_mem_nil _) fun _ => trivial
    · intro _
      exact renders_unexpected

/-! ## Markup of components -/

theorem renders_markupItem (hstarts : startsMarkup s.kind = true) :
    Restates all B .any G markupItem s := by
  have hkind : s.kind ≠ .eof := by
    intro heof
    rw [heof] at hstarts
    cases hstarts
  unfold markupItem
  apply renders_peek_bind
  dsimp only [Rendering.moved]
  split
  case h_1 => exact echoes_map renders_tag (fun _ _ => rfl) (fun _ _ => trivial) fun _ _ => trivial
  case h_2 =>
    refine renders_advance_bind hkind ?_
    apply renders_bind_solid renders_expression_unopened
    intro value s' _ _
    refine renders_expect_bind rfl fun _ => ?_
    exact renders_pure (a := Markup.expr value) (List.forall_mem_nil _) fun _ => trivial
  case h_3 =>
    refine renders_advance_bind hkind ?_
    exact renders_pure (a := Markup.text _ _) (List.forall_mem_nil _) fun _ => trivial

/-- Markup up to a problem is not all that was to be read. -/
instance : Renderable MarkupRun where
  reread w run := { run with items := reread w run.items }
  whole run := run.problem = none

theorem renders_markupRun : Restates all B .any .clear markupRun s := by
  unfold markupRun
  refine echoes_iterate (b := []) (fun items s' _ _ => ?_) trivial
  unfold markupStep
  by_cases hstarts : startsMarkup s'.kind = true
  · apply renders_kind_bind
    simp only [if_pos hstarts]
    apply renders_attempt_bind (renders_markupItem hstarts)
    · exact fun _ _ _ _ _ _ _ => trivial
    · intro item u _ _
      simp only [Renderable.render_concat]
      exact echoes_again fun _ => trivial
    · exact fun e u _ _ => ⟨.refl u, trivial, fun _ hwhole => nomatch hwhole⟩
  · refine renders_kind_bind_of ?_ ?_
    · simp only [if_neg hstarts]
      exact echoes_done (a := MarkupRun.mk items none) fun _ => trivial
    · intro w taken ahead t _ _ _ hsees
      have hstarts' : ¬ startsMarkup t.kind = true := by
        intro hstarts'
        have hsteady : isSteady t.kind = true := by
          revert hstarts'
          cases t.kind <;> simp [startsMarkup, isSteady]
        exact hsees.kind_ne hsteady (fun hsame => hstarts (hsame ▸ hstarts')) rfl
      rw [if_neg hstarts, if_neg hstarts']

theorem renders_renderSection (hkind : s.kind ≠ .eof) :
    Restates all B .any G renderSection s := by
  unfold renderSection
  refine renders_advance_bind hkind ?_
  refine renders_eat_if rfl ?_ ?_
  · intro _
    exact renders_markupRun.anyFront
  · intro _
    refine renders_eat_if rfl ?_ ?_
    · intro _
      refine renders_bind_of .any renders_markupRun ?_ ?_ (fun _ _ _ _ => trivial)
        fun _ _ _ _ => trivial
      · intro run s' c u _ hrun _ hc
        cases hproblem : run.problem with
        | none => exact hproblem
        | some problem =>
          have hsome : run.problem.isSome = true := by rw [hproblem]; rfl
          simp only [if_pos hsome] at hrun
          cases hrun
          exact hc
      · intro run s' _ _
        have hsame : ∀ w : Rendering all, (reread w run).problem = run.problem := fun _ => rfl
        simp only [hsame]
        by_cases hsome : run.problem.isSome = true
        · simp only [if_pos hsome]
          refine Spoils.renders fun _ => ⟨.refl s', trivial, fun _ hwhole => ?_⟩
          have hnone : run.problem = none := hwhole
          rw [hnone] at hsome
          cases hsome
        · simp only [if_neg hsome]
          apply Renders.anyFront (G := .clear)
          apply renders_attempt_bind (renders_expect .rbrace .renderEnd rfl)
          · exact fun _ _ _ _ _ _ _ => trivial
          · intro _ u _ _
            exact renders_pure (a := run) (List.forall_mem_nil _) fun _ => trivial
          · exact fun e u _ _ => ⟨.refl u, trivial, fun _ hwhole => nomatch hwhole⟩
    · intro _
      exact renders_unexpected

/-! ## Simple statements -/

instance : Renderable Stmt where
  reread w := Remap.stmt (· + w.offset) w.span

instance : Renderable VariableDecl where
  reread w := Remap.variableDecl (· + w.offset) w.span

instance : AllWhole Stmt := ⟨fun _ => trivial⟩

/-- The places of the bodies in a statement. -/
abbrev stmtBodies (s : Stmt) : List Span := (TreePart.stmt s).bodies

theorem renders_stmtFrom [G.Idle] {m : Stmt → List Span} {start : Span} {build : Span → Stmt}
    {build' : Rendering all → Span → Stmt} (hs : s.previous ≠ none)
    (hbuild : ∀ w span, build' w (w.span span) = reread w (build span))
    (hbodies : ∀ span, ∀ body ∈ m (build span), body ∈ B) :
    Renders Rendering.Final m B F G (stmtFrom start build)
      (fun w => stmtFrom (w.span start) (build' w)) s := by
  unfold stmtFrom
  refine renders_spanFrom_bind hs ?_
  simp only [hbuild]
  exact renders_pure (hbodies _) fun _ => trivial

theorem Rendering.Sees.assignOp?_eq {w : Rendering all} {ahead : List (Taken all)} {t : State}
    (h : w.Sees ahead s t) : assignOp? t.kind = assignOp? s.kind :=
  h.apply_eq rfl rfl fun kind hends => by
    cases kind <;> simp_all [endsOperand, assignOp?]

theorem renders_simpleStmt (hs : s.previous ≠ none) :
    RendersFinal all stmtBodies B .unopened G simpleStmt (fun _ => simpleStmt) s := by
  unfold simpleStmt
  apply renders_here_bind
  apply renders_bind renders_expression_unopened
  intro target s' hs' htarget
  refine renders_kind_bind_of ?_ fun w taken ahead t _ _ _ hsees => by rw [hsees.assignOp?_eq]
  split
  next =>
    refine renders_stmtFrom (hs'.previous_ne hs) (fun _ _ => rfl) fun span => ?_
    simp [TreePart.bodies_stmt, Stmt.bodies, Stmt.children]
  next op hop =>
    have hassignable : ∀ w : Rendering all, (reread w target).isAssignable = target.isAssignable :=
      fun w => Remap.isAssignable_expr _ _ target
    simp only [hassignable]
    by_cases h : target.isAssignable = true
    · have hkind : s'.kind ≠ .eof := by
        intro heof
        rw [heof] at hop
        cases hop
      simp only [if_pos h]
      refine renders_advance_bind hkind ?_
      apply Renders.anyFront (G := .clear)
      apply renders_bind renders_expression_unopened
      intro value u hu _
      refine renders_stmtFrom (hu.previous_ne (State.previous_next_ne hkind)) (fun _ _ => rfl)
        fun span => ?_
      simp [TreePart.bodies_stmt, Stmt.bodies, Stmt.children]
    · simp only [if_neg h]
      exact renders_throw

theorem renders_variableStmt (hkind : s.kind ≠ .eof) :
    RendersFinal all stmtBodies B .unopened G variableStmt
      (fun _ => variableStmt) s := by
  unfold variableStmt
  refine renders_advance_bind hkind ?_
  refine renders_expectIdentifier_bind fun hname => ?_
  apply Renders.anyFront (G := .clear)
  apply renders_bind renders_typeExpr?
  intro typeExpr s' hs' _
  have hprevious := hs'.previous_ne (State.previous_next_ne (by simp [hname]))
  refine renders_eat_ite_bind rfl (m := fun _ => []) ?_ ?_ ?_
  · intro _
    exact echoes_some renders_expression_unopened
  · intro _
    exact renders_pure (a := (none : Option Expr)) (List.forall_mem_nil _) fun _ => trivial
  intro init u hu _
  refine renders_stmtFrom (hu.previous_ne hprevious) ?_ ?_
  · intro w span
    cases init <;> rfl
  · intro span
    simp [TreePart.bodies_stmt, Stmt.bodies, Stmt.children]

theorem Rendering.Sees.startsExpression_eq {w : Rendering all} {ahead : List (Taken all)}
    {t : State} (h : w.Sees ahead s t) : startsExpression t.kind = startsExpression s.kind :=
  h.apply_eq rfl rfl fun kind hends => by
    cases kind <;> simp_all [endsOperand, startsExpression]

theorem renders_returnStmt (hkind : s.kind ≠ .eof) :
    RendersFinal all stmtBodies B .unopened G returnStmt
      (fun _ => returnStmt) s := by
  have hstmt : ∀ (value : Option Expr) {u : State} {B : List Span}, u.previous ≠ none →
      RendersFinal all stmtBodies B .unopened .clear
        (stmtFrom s.peek.span (.returnStmt · value))
        (fun w => stmtFrom (w.span s.peek.span) (.returnStmt · (reread w value))) u := by
    intro value u B hu
    refine renders_stmtFrom hu ?_ ?_
    · intro w span
      cases value <;> rfl
    · intro span
      simp [TreePart.bodies_stmt, Stmt.bodies, Stmt.children]
  have hnext := State.previous_next_ne hkind
  unfold returnStmt
  refine renders_advance_bind hkind ?_
  apply Renders.anyFront (G := .clear)
  refine renders_kind_bind_of ?_ fun w taken ahead t _ _ _ hsees => by
    rw [hsees.startsExpression_eq]
  by_cases hstarts : startsExpression s.next.kind = true
  · simp only [if_pos hstarts]
    apply renders_bind (echoes_some renders_expression_unopened)
    intro value u hu _
    exact hstmt value (hu.previous_ne hnext)
  · simp only [if_neg hstarts, pure_bind]
    exact hstmt none hnext

theorem renders_throwStmt (hkind : s.kind ≠ .eof) :
    RendersFinal all stmtBodies B .unopened G throwStmt
      (fun _ => throwStmt) s := by
  unfold throwStmt
  refine renders_advance_bind hkind ?_
  apply Renders.anyFront (G := .clear)
  apply renders_bind renders_expression_unopened
  intro value s' hs' _
  refine renders_stmtFrom (hs'.previous_ne (State.previous_next_ne hkind)) (fun _ _ => rfl) ?_
  intro span
  simp [TreePart.bodies_stmt, Stmt.bodies, Stmt.children]

/-! ## The heads of loops -/

theorem renders_impliedNumber_bind {α : Type} [Renderable α] {m : α → List Span} {text : String}
    {span : Span}
    {f : Expr → Parse α} {g : Rendering all → Expr → Parse α}
    (h : ∀ number s', s.Proceeds s' → number.span = span →
      Renders Rendering.Final m B F G (f number) (fun w => g w (reread w number)) s') :
    Renders Rendering.Final m B F G (impliedNumber text span >>= f)
      (fun w => impliedNumber text (w.span span) >>= g w) s := by
  unfold impliedNumber
  simp only [bind_assoc, pure_bind]
  refine renders_node_bind ?_
  exact h _ _ ⟨List.suffix_refl _, .inl rfl, rfl, id⟩ rfl

theorem renders_loopBounds {span : Span} (hspan : StopsIn all span) :
    EchoesFinal all B .any G (loopBounds span)
      (fun w => loopBounds (w.span span)) s := by
  unfold loopBounds
  apply renders_bind_solid renders_expression_unopened
  intro first s' _ hfirst
  refine renders_eat_bind_solid rfl ?_ ?_
  · intro _
    simp only [if_true, pure_bind]
    apply renders_bind_solid renders_expression_unopened
    intro last u _ hlast
    refine renders_expect_bind rfl fun _ => ?_
    exact renders_pure (a := (first, last)) (List.forall_mem_nil _) fun _ => ⟨hfirst, hlast⟩
  · intro _
    simp only [Bool.false_eq_true, if_false, pure_bind]
    refine renders_impliedNumber_bind fun zero u _ hzero => ?_
    refine renders_expect_bind rfl fun _ => ?_
    refine renders_pure (a := (zero, first)) (List.forall_mem_nil _) fun _ => ⟨?_, hfirst⟩
    show StopsIn all zero.span
    rwa [hzero]

instance : Renderable Block where
  reread w := Remap.block (· + w.offset) w.span

instance : AllWhole Block := ⟨fun _ => trivial⟩

/-- The places of a body and of the bodies in it. -/
abbrev bodyBodies (b : Block) : List Span := b.span :: (TreePart.block b).bodies

theorem renders_countingLoop {start span : Span} {name : String} {bounds : Expr × Expr}
    {body : Block} (hs : s.previous ≠ none) (hbody : ∀ place ∈ bodyBodies body, place ∈ B) :
    RendersFinal all stmtBodies B F .clear
      (countingLoop start span name bounds body)
      (fun w => countingLoop (w.span start) (w.span span) name (reread w bounds) (reread w body))
      s := by
  unfold countingLoop
  refine renders_node_bind ?_
  refine renders_node_bind ?_
  refine renders_node_bind ?_
  refine renders_impliedNumber_bind fun one u hu _ => ?_
  refine renders_stmtFrom (hu.previous_ne hs) (fun _ _ => rfl) fun span => ?_
  simpa [TreePart.bodies_stmt, Stmt.bodies, Stmt.children] using hbody

theorem renders_loopInit (hs : s.previous ≠ none) :
    RendersFinal all (fun init => init.elim [] stmtBodies) B .solid .clear
      loopInit (fun _ => loopInit) s := by
  unfold loopInit
  refine renders_kind_bind_of ?_ fun w taken ahead t _ hclear hsolid hsees => by
    rw [hsees.kind (Follow.solid.holds_clear hclear hsolid)]
  by_cases hsemicolon : s.kind = .semicolon
  · simp only [if_pos hsemicolon]
    exact renders_none
  simp only [if_neg hsemicolon]
  by_cases hstarts : startsVariable s.kind = true
  · have hkind : s.kind ≠ .eof := by
      intro heof
      rw [heof] at hstarts
      cases hstarts
    simp only [if_pos hstarts]
    exact renders_some (renders_variableStmt hkind).solid
  · simp only [if_neg hstarts]
    exact renders_some (renders_simpleStmt hs).solid

end ComponentLang.Grammar
