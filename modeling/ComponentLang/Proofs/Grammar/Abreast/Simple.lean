import ComponentLang.Proofs.Grammar.Abreast.Expression
import ComponentLang.Proofs.Grammar.Starts

/-!
# Types, imports, markup and simple statements, abreast

None of these readers reports anything. A run of markup that ends at a problem is not followed,
because the problem is reported later.
-/
namespace ComponentLang.Grammar

open Parse
open State (Abreast Open)

variable {word : String → Prop} {more : Beyond} {s t : State}

/-! ## Type expressions -/

section Types

variable {inner inner' : Parse TypeExpr}
  (hinner : ∀ {s t}, Open word more s t → Mirrors word more (TypeExpr.Agrees word) inner inner' s t)

include hinner

theorem mirrors_typeExprAtom (hst : Open word more s t) :
    Mirrors word more (TypeExpr.Agrees word) (typeExprAtom inner) (typeExprAtom inner') s t := by
  unfold typeExprAtom
  apply tracks_peek_bind hst
  intro token htoken
  rw [htoken.kind, htoken.array, htoken.span]
  split
  case h_1 hkind | h_2 hkind =>
    apply tracks_advance_bind hst (State.ne_of_kind hkind (by simp))
    intro _ _ hnext
    split
    · apply tracks_eat_if hnext (by simp)
      · intro _ hnext'
        apply tracks_bind (hinner hnext')
        intro element element' s' t' helement hst'
        apply tracks_expect_bind hst' (by simp)
        intro _ _ _ hnext''
        apply tracks_spanFrom_bind hnext''.toAbreast
        exact tracks_pure hnext'' (.array _ helement)
      · intro _
        exact tracks_pure hnext (.named _ htoken.name_eq)
    · exact tracks_pure hnext (.named _ htoken.name_eq)
  case h_3 hkind =>
    apply tracks_advance_bind hst (State.ne_of_kind hkind (by simp))
    intro _ _ hnext
    apply tracks_bind (hinner hnext)
    intro inside inside' s' t' hinside hst'
    apply tracks_expect_bind hst' (by simp)
    intro _ _ _ hnext'
    exact tracks_pure hnext' hinside
  case h_4 => exact tracks_unexpected

omit hinner in
theorem mirrors_typeExprSuffix {start : Span} {a a' : TypeExpr} (ha : a.Agrees word a')
    (hst : Open word more s t) :
    Tracks (Turn.Last Whatever) (Open word more)
      (Turn.Rel (TypeExpr.Agrees word) (TypeExpr.Agrees word)) (typeExprSuffix start a)
      (typeExprSuffix start a') s t := by
  unfold typeExprSuffix
  apply tracks_get_bind
  rw [hst.bracketed, hst.kind]
  split
  next hkind =>
    apply tracks_advance_bind hst (State.ne_of_kind hkind (by simp))
    intro _ _ hnext
    apply tracks_spanFrom_bind hnext.toAbreast
    exact tracks_again hnext (.optional _ ha)
  next =>
    split
    next hbrackets =>
      rw [Bool.and_eq_true, decide_eq_true_iff, decide_eq_true_iff] at hbrackets
      obtain ⟨hbracket, hclose⟩ := hbrackets
      have hsecond := State.next_kind_of_second (by simp [hbracket]) hclose
      apply tracks_advance_bind hst (State.ne_of_kind hbracket (by simp))
      intro _ _ hnext
      apply tracks_advance_bind hnext (State.ne_of_kind hsecond (by simp))
      intro _ _ hnext'
      apply tracks_spanFrom_bind hnext'.toAbreast
      exact tracks_again hnext' (.array _ ha)
    next => exact tracks_done hst ha

theorem mirrors_suffixedTypeExpr (hst : Open word more s t) :
    Mirrors word more (TypeExpr.Agrees word) (suffixedTypeExpr inner) (suffixedTypeExpr inner')
      s t := by
  unfold suffixedTypeExpr
  apply tracks_here_bind hst
  apply tracks_bind (mirrors_typeExprAtom hinner hst)
  intro a a' s' t' ha hst'
  exact tracks_iterate hst' (fun ha hst' => mirrors_typeExprSuffix ha hst') ha

theorem mirrors_unionMember {members members' : List TypeExpr}
    (hmembers : List.Forall₂ (TypeExpr.Agrees word) members members') (hst : Open word more s t) :
    Tracks (Turn.Last Whatever) (Open word more)
      (Turn.Rel (List.Forall₂ (TypeExpr.Agrees word)) (List.Forall₂ (TypeExpr.Agrees word)))
      (unionMember inner members) (unionMember inner' members') s t := by
  unfold unionMember
  apply tracks_eat_if hst (by simp)
  · intro _ hnext
    apply tracks_bind (mirrors_suffixedTypeExpr hinner hnext)
    intro member member' s' t' hmember hst'
    exact tracks_again hst' (forall₂_concat hmembers hmember)
  · intro _
    exact tracks_done hst hmembers

theorem mirrors_typeExprRule (hst : Open word more s t) :
    Mirrors word more (TypeExpr.Agrees word) (typeExprRule inner) (typeExprRule inner') s t := by
  unfold typeExprRule
  apply tracks_bind (mirrors_suffixedTypeExpr hinner hst)
  intro first first' s' t' hfirst hst'
  apply tracks_kind_bind hst'
  split
  · apply tracks_bind (tracks_iterate hst'
      (fun hmembers hst' => mirrors_unionMember hinner hmembers hst') (.cons hfirst .nil))
    intro members members' u v hmembers huv
    rw [hfirst.span]
    apply tracks_spanFrom_bind huv.toAbreast
    exact tracks_pure huv (.union _ hmembers)
  · exact tracks_pure hst' hfirst

end Types

theorem mirrors_typeExprAt {depth depth' : Nat} (hle : depth ≤ depth') (hst : Open word more s t) :
    Mirrors word more (TypeExpr.Agrees word) (typeExprAt depth) (typeExprAt depth') s t := by
  induction depth generalizing depth' s t with
  | zero => exact tracks_fail
  | succ depth ih =>
      obtain ⟨depth', rfl⟩ : ∃ n, depth' = n + 1 := ⟨depth' - 1, by omega⟩
      exact mirrors_typeExprRule (fun hst' => ih (by omega) hst') hst

theorem mirrors_typeExpr (hst : Open word more s t) :
    Mirrors word more (TypeExpr.Agrees word) typeExpr typeExpr s t :=
  (mirrors_typeExprAt hst.length_le hst).of_eq rfl rfl

theorem mirrors_typeExpr? (hst : Open word more s t) :
    Mirrors word more (Option.Rel (TypeExpr.Agrees word)) typeExpr? typeExpr? s t := by
  unfold typeExpr?
  apply tracks_eat_if hst (by simp)
  · intro _ hnext
    apply tracks_bind (mirrors_typeExpr hnext)
    intro typeExpr typeExpr' s' t' htype hst'
    exact tracks_pure hst' (.some htype)
  · intro _
    exact tracks_pure hst .none

/-! ## Imports and the heads of declarations -/

theorem mirrors_expectIdentifier {expected : Expected} (hst : Open word more s t) :
    Mirrors word more Eq (expectIdentifier expected) (expectIdentifier expected) s t := by
  rw [← bind_pure (expectIdentifier expected)]
  exact tracks_expectIdentifier_bind hst fun _ hnext => tracks_pure hnext rfl

theorem mirrors_importedNames (hst : Open word more s t) :
    Mirrors word more Eq importedNames importedNames s t := by
  unfold importedNames
  apply tracks_bind (mirrors_commaSeparated hst fun hst' => mirrors_expectIdentifier hst')
  intro names names' s' t' hnames hst'
  rw [List.forall₂_eq_eq_eq] at hnames
  subst hnames
  apply tracks_expect_bind hst' (by simp)
  intro _ _ _ hnext
  exact tracks_pure hnext rfl

theorem mirrors_importDecl (hst : Open word more s t) (hkind : s.kind ≠ .semicolon) :
    Mirrors word more Eq importDecl importDecl s t := by
  have hend : ∀ (names : List String × Option String) {start : Span} {s t : State},
      Open word more s t → Mirrors word more Eq (do
        if ← eat (.keyword .fromKw) then
          let source ← expect .string .modulePath
          return Import.mk names.1 names.2 source.lexeme (← spanFrom start)
        else unexpected .fromWord) (do
        if ← eat (.keyword .fromKw) then
          let source ← expect .string .modulePath
          return Import.mk names.1 names.2 source.lexeme (← spanFrom start)
        else unexpected .fromWord) s t := by
    intro names start s t hst
    apply tracks_eat_if hst (by simp)
    · intro _ hnext
      apply tracks_expect_bind hnext (by simp)
      intro source hsource hsource' hnext'
      have hplain : s.next.peek.kind.isWord = false := by
        rw [show s.next.peek.kind = .string from hsource]
        rfl
      rw [hsource'.lexeme_eq hplain]
      apply tracks_spanFrom_bind hnext'.toAbreast
      exact tracks_pure hnext' rfl
    · intro _
      exact tracks_unexpected
  unfold importDecl
  apply tracks_advance_bind hst hkind
  intro word hword hnext
  rw [hword.span]
  apply tracks_eat_if hnext (by simp)
  · intro _ hnext'
    apply tracks_bind (mirrors_importedNames hnext')
    rintro names _ s' t' rfl hst'
    exact hend (names, none) hst'
  · intro _
    apply tracks_expectIdentifier_bind hnext
    intro _ hnext'
    exact hend ([], some _) hnext'

theorem mirrors_modifiers (hst : Open word more s t) :
    Mirrors word more Eq modifiers modifiers s t := by
  unfold modifiers
  apply tracks_iterate (R := Eq) hst _ rfl
  rintro names _ s t rfl hst
  unfold modifierStep
  apply tracks_kind_bind hst
  split
  next hkind =>
    apply tracks_advance_bind hst (State.ne_of_kind hkind (by simp))
    intro name hname hnext
    have hplain : s.peek.kind.isWord = false := by
      rw [show s.peek.kind = .atModifier from hkind]
      rfl
    rw [hname.lexeme_eq hplain]
    exact tracks_again hnext rfl
  next => exact tracks_done hst rfl

theorem mirrors_param (hst : Open word more s t) :
    Mirrors word more (Param.Agrees word) param param s t := by
  unfold param
  apply tracks_here_bind hst
  apply tracks_expectIdentifier_bind hst
  intro _ hnext
  apply tracks_bind (mirrors_typeExpr? hnext)
  intro typeExpr typeExpr' s' t' htype hst'
  apply tracks_spanFrom_bind hst'.toAbreast
  exact tracks_pure hst' ⟨rfl, rfl, htype⟩

theorem mirrors_functionWord (hst : Open word more s t) :
    Mirrors word more Eq functionWord functionWord s t := by
  unfold functionWord
  apply tracks_eat_if hst (by simp)
  · intro _ hnext
    exact tracks_pure hnext rfl
  · intro _
    apply tracks_eat_if hst (by simp)
    · intro _ hnext
      exact tracks_pure hnext rfl
    · intro _
      exact tracks_unexpected

/-! ## Markup in a component -/

theorem ne_semicolon_of_startsMarkup {kind : TokenKind} (h : startsMarkup kind = true) :
    kind ≠ .semicolon := by
  rintro rfl
  cases h

theorem isWord_of_startsMarkup {kind : TokenKind} (h : startsMarkup kind = true) :
    kind.isWord = false := by
  cases kind <;> first | rfl | cases h

theorem mirrors_markupItem (hst : Open word more s t) (hstarts : startsMarkup s.kind = true) :
    Mirrors word more (Agrees word .markup) markupItem markupItem s t := by
  unfold markupItem
  apply tracks_peek_bind hst
  intro token htoken
  rw [htoken.kind]
  split
  next => exact tracks_map (mirrors_tag hst) Tag.Agrees.markup
  next hkind =>
    apply tracks_advance_bind hst (State.ne_of_kind hkind (by simp))
    intro _ _ hnext
    apply tracks_bind (mirrors_expression hnext)
    intro value value' s' t' hvalue hst'
    apply tracks_expect_bind hst' (by simp)
    intro _ _ _ hnext'
    exact tracks_pure hnext' hvalue.markup
  next =>
    rw [htoken.span, htoken.lexeme_eq (isWord_of_startsMarkup hstarts)]
    apply tracks_advance_bind hst (ne_semicolon_of_startsMarkup hstarts)
    intro _ _ hnext
    exact tracks_pure hnext fun _ => rfl

/-- Neither run of markup ended at a problem, and their items agree. -/
structure MarkupRun.Agrees (word : String → Prop) (run run' : MarkupRun) : Prop where
  problem : run.problem = none
  problem' : run'.problem = none
  items : AgreesAll word .markup run.items run'.items

/-- The run of markup did not end at a problem. -/
abbrev MarkupRun.Sound (run : MarkupRun) (_ : State) : Prop := run.problem = none

theorem tracks_markupRun (hst : Open word more s t) :
    Tracks MarkupRun.Sound (Open word more) (MarkupRun.Agrees word) markupRun markupRun s t := by
  unfold markupRun
  apply tracks_iterate (R := AgreesAll word .markup) hst _ fun _ => rfl
  intro items items' s t hitems hst
  unfold markupStep
  apply tracks_kind_bind hst
  split
  next hstarts =>
    apply tracks_attempt_bind (mirrors_markupItem hst hstarts)
    · intro _ _ _ _ _ _
      trivial
    · intro item item' s' t' hitem hst'
      exact tracks_again hst' (hitems.concat hitem)
    · rintro e s' _ _ hrun hend
      cases hrun
      cases hend
  next => exact tracks_done hst ⟨rfl, rfl, hitems⟩

theorem tracks_renderSection (hst : Open word more s t) (hkind : s.kind ≠ .semicolon) :
    Tracks MarkupRun.Sound (Open word more) (MarkupRun.Agrees word) renderSection renderSection
      s t := by
  have hclose : ∀ {s t : State}, Open word more s t → Mirrors word more (fun _ _ => True)
      (expect .rbrace .renderEnd) (expect .rbrace .renderEnd) s t := by
    intro s t hst
    rw [← bind_pure (expect .rbrace .renderEnd)]
    exact tracks_expect_bind hst (by simp) fun _ _ hnext => tracks_pure hnext trivial
  unfold renderSection
  apply tracks_advance_bind hst hkind
  intro _ _ hnext
  apply tracks_eat_if hnext (by simp)
  · intro _ hnext'
    exact tracks_markupRun hnext'
  · intro _
    apply tracks_eat_if hnext (by simp)
    · intro _ hnext'
      apply tracks_bind_if (tracks_markupRun hnext')
      · intro run s' run' u hrun hend
        split at hrun
        next =>
          cases hrun
          exact hend
        next hsound => simpa using hsound
      · intro run run' s' t' hrun hst'
        rw [hrun.problem, hrun.problem']
        apply tracks_attempt_bind (hclose hst')
        · intro _ _ _ _ _ _
          trivial
        · intro _ _ u v _ huv
          exact tracks_pure huv hrun
        · rintro e u _ _ hends hend
          cases hends
          cases hend
    · intro _
      exact tracks_unexpected

/-! ## Simple statements -/

theorem tracks_stmtFrom {E : Stmt → State → Prop} {start : Span} {build build' : Span → Stmt}
    (hst : Open word more s t) (hbuild : ∀ span, Agrees word .stmt (build span) (build' span)) :
    Tracks E (Open word more) (Agrees word .stmt) (stmtFrom start build) (stmtFrom start build')
      s t := by
  unfold stmtFrom
  apply tracks_spanFrom_bind hst.toAbreast
  exact tracks_pure hst (hbuild _)

theorem mirrors_simpleStmt (hst : Open word more s t) :
    Mirrors word more (Agrees word .stmt) simpleStmt simpleStmt s t := by
  unfold simpleStmt
  apply tracks_here_bind hst
  apply tracks_bind (mirrors_expression hst)
  intro target target' s' t' htarget hst'
  apply tracks_kind_bind hst'
  split
  next => exact tracks_stmtFrom hst' fun _ => agrees_expression htarget
  next op hop =>
    have hkind : s'.kind ≠ .semicolon := by
      intro hkind
      rw [hkind] at hop
      cases hop
    rw [htarget.isAssignable]
    split
    · apply tracks_advance_bind hst' hkind
      intro _ _ hnext
      apply tracks_bind (mirrors_expression hnext)
      intro value value' u v hvalue huv
      exact tracks_stmtFrom huv fun _ => agrees_assignment htarget hvalue
    · exact tracks_throw

theorem mirrors_variableStmt (hst : Open word more s t) (hkind : s.kind ≠ .semicolon) :
    Mirrors word more (Agrees word .stmt) variableStmt variableStmt s t := by
  unfold variableStmt
  apply tracks_advance_bind hst hkind
  intro word' hword hnext
  rw [hword.span, hword.kind]
  apply tracks_expectIdentifier_bind hnext
  intro _ hnext'
  apply tracks_bind (mirrors_typeExpr? hnext')
  intro typeExpr typeExpr' s' t' htype hst'
  apply tracks_eat_ite_bind (Q := Option.Rel (Expr.Agrees word)) (D := Open word more) hst'
    (by simp)
  · intro _ hnext''
    exact tracks_map (mirrors_expression hnext'') .some
  · exact tracks_pure hst' .none
  · intro init init' u v hinit huv
    exact tracks_stmtFrom huv fun _ => agrees_variableDecl htype hinit

theorem mirrors_returnStmt (hst : Open word more s t) (hkind : s.kind ≠ .semicolon) :
    Mirrors word more (Agrees word .stmt) returnStmt returnStmt s t := by
  unfold returnStmt
  apply tracks_advance_bind hst hkind
  intro word' hword hnext
  rw [hword.span]
  apply tracks_kind_bind hnext
  apply tracks_ite_bind (Q := Option.Rel (Expr.Agrees word)) (C := Open word more)
  · exact tracks_map (mirrors_expression hnext) .some
  · exact tracks_pure hnext .none
  · intro value value' s' t' hvalue hst'
    exact tracks_stmtFrom hst' fun _ => agrees_returnStmt hvalue

theorem mirrors_throwStmt (hst : Open word more s t) (hkind : s.kind ≠ .semicolon) :
    Mirrors word more (Agrees word .stmt) throwStmt throwStmt s t := by
  unfold throwStmt
  apply tracks_advance_bind hst hkind
  intro word' hword hnext
  rw [hword.span]
  apply tracks_bind (mirrors_expression hnext)
  intro value value' s' t' hvalue hst'
  exact tracks_stmtFrom hst' fun _ => agrees_throwStmt hvalue

/-! ## The heads of loops -/

theorem mirrors_impliedNumber {text : String} {span : Span} (hst : Open word more s t) :
    Mirrors word more (Expr.Agrees word) (impliedNumber text span) (impliedNumber text span)
      s t := by
  unfold impliedNumber
  apply tracks_node_bind hst
  intro node s' t' hst'
  exact tracks_pure hst' (.refl _)

theorem mirrors_loopBounds {span : Span} (hst : Open word more s t) :
    Mirrors word more (fun bounds bounds' => bounds.1.Agrees word bounds'.1 ∧
      bounds.2.Agrees word bounds'.2) (loopBounds span) (loopBounds span) s t := by
  unfold loopBounds
  apply tracks_bind (mirrors_expression hst)
  intro first first' s' t' hfirst hst'
  apply tracks_eat_if hst' (by simp)
  · intro _ hnext
    apply tracks_bind (mirrors_expression hnext)
    intro last last' u v hlast huv
    apply tracks_expect_bind huv (by simp)
    intro _ _ _ hnext'
    exact tracks_pure hnext' ⟨hfirst, hlast⟩
  · intro _
    apply tracks_bind (mirrors_impliedNumber hst')
    intro zero zero' u v hzero huv
    apply tracks_expect_bind huv (by simp)
    intro _ _ _ hnext
    exact tracks_pure hnext ⟨hzero, hfirst⟩

theorem tracks_countingLoop {E : Stmt → State → Prop} {start span : Span} {name : String}
    {bounds bounds' : Expr × Expr} {body body' : Block}
    (hfirst : bounds.1.Agrees word bounds'.1) (hlast : bounds.2.Agrees word bounds'.2)
    (hbody : Agrees word .block body body') (hst : Open word more s t) :
    Tracks E (Open word more) (Agrees word .stmt) (countingLoop start span name bounds body)
      (countingLoop start span name bounds' body') s t := by
  unfold countingLoop
  apply tracks_node_bind hst
  intro counter s₁ t₁ hst₁
  apply tracks_node_bind hst₁
  intro test s₂ t₂ hst₂
  apply tracks_node_bind hst₂
  intro target s₃ t₃ hst₃
  apply tracks_bind (mirrors_impliedNumber hst₃)
  intro one one' s₄ t₄ hone hst₄
  refine tracks_stmtFrom hst₄ fun _ => agrees_forLoop (.some ?_) (.some ?_) (.some ?_) hbody
  · exact agrees_variableDecl .none (.some hfirst)
  · exact .binary (.refl _) hlast
  · exact agrees_assignment (.refl _) hone

theorem mirrors_loopInit (hst : Open word more s t) :
    Mirrors word more (Option.Rel (Agrees word .stmt)) loopInit loopInit s t := by
  unfold loopInit
  apply tracks_kind_bind hst
  split
  next => exact tracks_pure hst .none
  next hkind =>
    split
    · exact tracks_map (mirrors_variableStmt hst hkind) .some
    · exact tracks_map (mirrors_simpleStmt hst) .some

end ComponentLang.Grammar
