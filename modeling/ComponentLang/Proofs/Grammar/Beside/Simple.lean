import ComponentLang.Grammar.Statement
import ComponentLang.Proofs.Grammar.Beside.Expression

/-!
# Types, imports, markup and simple statements, side by side

What these readers give has no nodes, or its nodes are those of the expressions in it.
-/
namespace ComponentLang.Grammar

open Parse

variable {B : State → State → Prop} {ν : Node → Node} [Pairing B ν] {s t : State}

include ν

/-! ## Type expressions -/

theorem beside_typeExprAtom {inner : Parse TypeExpr} (hst : B s t)
    (hinner : ∀ {s t}, B s t → Beside B id inner inner s t) :
    Beside B id (typeExprAtom inner) (typeExprAtom inner) s t := by
  unfold typeExprAtom
  apply beside_peek_bind hst
  split
  case h_1 | h_2 =>
    apply beside_advance_bind hst
    intro hnext
    split
    · apply beside_eat_if hnext
      · intro _ hnext'
        apply beside_bind (hinner hnext')
        intro element s' t' hst' _
        apply beside_expect_bind hst'
        intro _ hnext''
        apply beside_spanFrom_bind hnext''
        exact beside_pure hnext'' _
      · intro _
        exact beside_pure hnext _
    · exact beside_pure hnext _
  case h_3 =>
    apply beside_advance_bind hst
    intro hnext
    apply beside_bind (hinner hnext)
    intro inside s' t' hst' _
    apply beside_expect_bind hst'
    intro _ hnext'
    exact beside_pure hnext' _
  case h_4 => exact beside_unexpected hst _

theorem beside_typeExprSuffix {start : Span} {a : TypeExpr} (hst : B s t) :
    Beside B (Turn.map id id) (typeExprSuffix start a) (typeExprSuffix start a) s t := by
  unfold typeExprSuffix
  apply beside_get_bind
  rw [Pairing.twoKinds hst .lbracket .rbracket nofun, Pairing.kind hst]
  split
  · apply beside_advance_bind hst
    intro hnext
    apply beside_spanFrom_bind hnext
    exact beside_again hnext _
  · split
    · apply beside_advance_bind hst
      intro hnext
      apply beside_advance_bind hnext
      intro hnext'
      apply beside_spanFrom_bind hnext'
      exact beside_again hnext' _
    · exact beside_done hst _

theorem beside_suffixedTypeExpr {inner : Parse TypeExpr} (hst : B s t)
    (hinner : ∀ {s t}, B s t → Beside B id inner inner s t) :
    Beside B id (suffixedTypeExpr inner) (suffixedTypeExpr inner) s t := by
  unfold suffixedTypeExpr
  apply beside_here_bind hst
  apply beside_bind (beside_typeExprAtom hst hinner)
  intro a s' t' hst' _
  apply beside_iterate (k := id) hst'
  intro b u v huv _
  exact beside_typeExprSuffix huv

theorem beside_unionMember {inner : Parse TypeExpr} {members : List TypeExpr} (hst : B s t)
    (hinner : ∀ {s t}, B s t → Beside B id inner inner s t) :
    Beside B (Turn.map id id) (unionMember inner members) (unionMember inner members) s t := by
  unfold unionMember
  apply beside_eat_if hst
  · intro _ hnext
    apply beside_bind (beside_suffixedTypeExpr hnext hinner)
    intro member s' t' hst' _
    exact beside_again hst' _
  · intro _
    exact beside_done hst _

theorem beside_typeExprRule {inner : Parse TypeExpr} (hst : B s t)
    (hinner : ∀ {s t}, B s t → Beside B id inner inner s t) :
    Beside B id (typeExprRule inner) (typeExprRule inner) s t := by
  unfold typeExprRule
  apply beside_bind (beside_suffixedTypeExpr hst hinner)
  intro first s' t' hst' _
  apply beside_kind_bind hst'
  split
  · refine beside_bind (beside_iterate (k := id) (m := id) hst' ?_ [first]) ?_
    · intro members u v huv _
      exact beside_unionMember huv hinner
    · intro members u v huv _
      apply beside_spanFrom_bind huv
      exact beside_pure huv _
  · exact beside_pure hst' _

theorem beside_typeExprAt (depth : Nat) (hst : B s t) :
    Beside B id (typeExprAt depth) (typeExprAt depth) s t := by
  induction depth generalizing s t with
  | zero => exact beside_fail hst _
  | succ depth ih => exact beside_typeExprRule hst fun hst' => ih hst'

theorem beside_typeExpr (hst : B s t) : Beside B id typeExpr typeExpr s t := by
  have hrest := Pairing.rest hst
  exact (beside_typeExprAt (s.rest.length + 1) hst).of_eq rfl (by rw [typeExpr, hrest])

theorem beside_typeExpr? (hst : B s t) : Beside B id typeExpr? typeExpr? s t := by
  unfold typeExpr?
  apply beside_eat_if hst
  · intro _ hnext
    apply beside_bind (beside_typeExpr hnext)
    intro typeExpr s' t' hst' _
    exact beside_pure hst' _
  · intro _
    exact beside_pure hst _

/-! ## Imports and the heads of declarations -/

theorem beside_importedNames (hst : B s t) :
    Beside B id importedNames importedNames s t := by
  have hnames : Beside B (List.map id) (commaSeparated .rbrace (expectIdentifier .importedName))
      (commaSeparated .rbrace (expectIdentifier .importedName)) s t := by
    apply beside_commaSeparated hst
    intro s' t' hst' _
    unfold expectIdentifier
    apply beside_expect_bind hst'
    intro _ hnext
    exact beside_pure hnext _
  unfold importedNames
  apply beside_bind hnames
  intro names s' t' hst' _
  apply beside_expect_bind hst'
  intro _ hnext
  rw [List.map_id]
  exact beside_pure hnext names

theorem beside_importDecl (hst : B s t) : Beside B id importDecl importDecl s t := by
  have hend : ∀ (names : List String × Option String) {start : Span} {s t : State}, B s t →
      Beside B id (do
        if ← eat (.keyword .fromKw) then
          let source ← expect .string .modulePath
          return Import.mk names.1 names.2 source.lexeme (← spanFrom start)
        else unexpected .fromWord) (do
        if ← eat (.keyword .fromKw) then
          let source ← expect .string .modulePath
          return Import.mk names.1 names.2 source.lexeme (← spanFrom start)
        else unexpected .fromWord) s t := by
    intro names start s t hst
    apply beside_eat_if hst
    · intro _ hnext
      apply beside_expect_bind hnext
      intro _ hnext'
      apply beside_spanFrom_bind hnext'
      exact beside_pure hnext' _
    · intro _
      exact beside_unexpected hst _
  unfold importDecl
  apply beside_advance_bind hst
  intro hnext
  apply beside_eat_if hnext
  · intro _ hnext'
    apply beside_bind (beside_importedNames hnext')
    intro names s' t' hst' _
    exact hend (names, none) hst'
  · intro _
    apply beside_expectIdentifier_bind hnext
    intro _ hnext'
    exact hend ([], some _) hnext'

theorem beside_modifiers (hst : B s t) : Beside B id modifiers modifiers s t := by
  unfold modifiers
  apply beside_iterate (k := id) hst
  intro names s' t' hst' _
  unfold modifierStep
  apply beside_kind_bind hst'
  split
  · apply beside_advance_bind hst'
    intro hnext
    exact beside_again hnext _
  · exact beside_done hst' _

theorem beside_param (hst : B s t) : Beside B id param param s t := by
  unfold param
  apply beside_here_bind hst
  apply beside_expectIdentifier_bind hst
  intro _ hnext
  apply beside_bind (beside_typeExpr? hnext)
  intro typeExpr s' t' hst' _
  apply beside_spanFrom_bind hst'
  exact beside_pure hst' _

theorem beside_functionWord (hst : B s t) : Beside B id functionWord functionWord s t := by
  unfold functionWord
  apply beside_eat_if hst
  · intro _ hnext
    exact beside_pure hnext _
  · intro _
    apply beside_eat_if hst
    · intro _ hnext
      exact beside_pure hnext _
    · intro _
      exact beside_unexpected hst _

/-! ## Markup in a component -/

theorem beside_markupItem (hst : B s t) :
    Beside B (Relabel.markup ν) markupItem markupItem s t := by
  unfold markupItem
  apply beside_peek_bind hst
  split
  · exact beside_map (beside_tag hst) fun _ => rfl
  · apply beside_advance_bind hst
    intro hnext
    apply beside_bind (beside_expression hnext)
    intro value s' t' hst' _
    apply beside_expect_bind hst'
    intro _ hnext'
    exact beside_pure hnext' (Markup.expr value)
  · apply beside_advance_bind hst
    intro hnext
    exact beside_pure hnext (Markup.text _ _)

/-- A run of markup with other nodes; its problem is the same. -/
def MarkupRun.relabel (ν : Node → Node) (run : MarkupRun) : MarkupRun :=
  { run with items := Relabel.markups ν run.items }

theorem beside_markupRun (hst : B s t) :
    Beside B (MarkupRun.relabel ν) markupRun markupRun s t := by
  unfold markupRun
  apply beside_iterate (k := Relabel.markups ν) hst
  intro items s' t' hst' _
  unfold markupStep
  apply beside_kind_bind hst'
  split
  · apply beside_attempt_bind (beside_markupItem hst')
    · intro item u v huv _
      have hconcat : Relabel.markups ν items ++ [Relabel.markup ν item] =
          Relabel.markups ν (items ++ [item]) := by
        simp [Relabel.markups_eq_map]
      dsimp only
      rw [hconcat]
      exact beside_again huv _
    · intro problem u v huv _
      exact beside_done huv (MarkupRun.mk items (some problem))
  · exact beside_done hst' (MarkupRun.mk items none)

theorem beside_renderSection (hst : B s t) :
    Beside B (MarkupRun.relabel ν) renderSection renderSection s t := by
  unfold renderSection
  apply beside_advance_bind hst
  intro hnext
  apply beside_eat_if hnext
  · intro _ hnext'
    exact beside_markupRun hnext'
  · intro _
    apply beside_eat_if hnext
    · intro _ hnext'
      apply beside_bind (beside_markupRun hnext')
      intro run s' t' hst' _
      dsimp only [MarkupRun.relabel]
      split
      · exact beside_pure hst' run
      · have hclose : Beside B id (expect .rbrace .renderEnd) (expect .rbrace .renderEnd) s' t' := by
          rw [← bind_pure (expect .rbrace .renderEnd)]
          exact beside_expect_bind hst' fun _ hnext'' => beside_pure hnext'' _
        apply beside_attempt_bind hclose
        · intro _ u v huv _
          exact beside_pure huv run
        · intro problem u v huv _
          exact beside_pure huv { run with problem := some problem }
    · intro _
      exact beside_unexpected hnext _

/-! ## Simple statements -/

theorem beside_stmtFrom {start : Span} {build build' : Span → Stmt} (hst : B s t)
    (hbuild : ∀ span, build' span = Relabel.stmt ν (build span)) :
    Beside B (Relabel.stmt ν) (stmtFrom start build) (stmtFrom start build') s t := by
  unfold stmtFrom
  apply beside_spanFrom_bind hst
  rw [hbuild]
  exact beside_pure hst _

theorem beside_simpleStmt (hst : B s t) :
    Beside B (Relabel.stmt ν) simpleStmt simpleStmt s t := by
  unfold simpleStmt
  apply beside_here_bind hst
  apply beside_bind (beside_expression hst)
  intro target s' t' hst' _
  apply beside_kind_bind hst'
  split
  · exact beside_stmtFrom hst' fun _ => rfl
  · rw [Relabel.isAssignable_expr, span_relabel B]
    split
    · apply beside_advance_bind hst'
      intro hnext
      apply beside_bind (beside_expression hnext)
      intro value u v huv _
      exact beside_stmtFrom huv fun _ => rfl
    · exact beside_throw hst' _

theorem beside_variableStmt (hst : B s t) :
    Beside B (Relabel.stmt ν) variableStmt variableStmt s t := by
  unfold variableStmt
  apply beside_advance_bind hst
  intro hnext
  apply beside_expectIdentifier_bind hnext
  intro _ hnext'
  apply beside_bind (beside_typeExpr? hnext')
  intro typeExpr s' t' hst' _
  apply beside_eat_ite_bind (m := Relabel.expr? ν) hst'
  · intro _ hnext''
    exact beside_map (beside_expression hnext'') fun _ => rfl
  · exact beside_pure hst' none
  · intro init u v huv _
    exact beside_stmtFrom huv fun _ => rfl

theorem beside_returnStmt (hst : B s t) :
    Beside B (Relabel.stmt ν) returnStmt returnStmt s t := by
  unfold returnStmt
  apply beside_advance_bind hst
  intro hnext
  apply beside_kind_bind hnext
  apply beside_ite_bind (m := Relabel.expr? ν)
  · exact beside_map (beside_expression hnext) fun _ => rfl
  · exact beside_pure hnext none
  · intro value s' t' hst' _
    exact beside_stmtFrom hst' fun _ => rfl

theorem beside_throwStmt (hst : B s t) :
    Beside B (Relabel.stmt ν) throwStmt throwStmt s t := by
  unfold throwStmt
  apply beside_advance_bind hst
  intro hnext
  apply beside_bind (beside_expression hnext)
  intro value s' t' hst' _
  exact beside_stmtFrom hst' fun _ => rfl

/-! ## The heads of loops -/

theorem beside_impliedNumber {text : String} {span : Span} (hst : B s t) :
    Beside B (Relabel.expr ν) (impliedNumber text span) (impliedNumber text span) s t := by
  unfold impliedNumber
  apply beside_node_bind hst
  intro node s' t' hst' _
  exact beside_pure hst' (Expr.literal node _)

/-- The bounds of a counting loop with other nodes. -/
def relabelBounds (ν : Node → Node) (bounds : Expr × Expr) : Expr × Expr :=
  (Relabel.expr ν bounds.1, Relabel.expr ν bounds.2)

theorem beside_loopBounds {span : Span} (hst : B s t) :
    Beside B (relabelBounds ν) (loopBounds span) (loopBounds span) s t := by
  unfold loopBounds
  apply beside_bind (beside_expression hst)
  intro first s' t' hst' _
  apply beside_eat_if hst'
  · intro _ hnext
    apply beside_bind (beside_expression hnext)
    intro last u v huv _
    apply beside_expect_bind huv
    intro _ hnext'
    exact beside_pure hnext' (first, last)
  · intro _
    apply beside_bind (beside_impliedNumber hst')
    intro zero u v huv _
    apply beside_expect_bind huv
    intro _ hnext
    exact beside_pure hnext (zero, first)

theorem beside_countingLoop {start span : Span} {name : String} {bounds : Expr × Expr}
    {body : Block} (hst : B s t) :
    Beside B (Relabel.stmt ν) (countingLoop start span name bounds body)
      (countingLoop start span name (relabelBounds ν bounds) (Relabel.block ν body)) s t := by
  unfold countingLoop
  apply beside_node_bind hst
  intro counter s₁ t₁ hst₁ _
  apply beside_node_bind hst₁
  intro test s₂ t₂ hst₂ _
  apply beside_node_bind hst₂
  intro target s₃ t₃ hst₃ _
  apply beside_bind (beside_impliedNumber hst₃)
  intro one s₄ t₄ hst₄ _
  exact beside_stmtFrom hst₄ fun _ => rfl

theorem beside_loopInit (hst : B s t) :
    Beside B (Relabel.stmt? ν) loopInit loopInit s t := by
  unfold loopInit
  apply beside_kind_bind hst
  split
  · exact beside_pure hst none
  · split
    · exact beside_map (beside_variableStmt hst) fun _ => rfl
    · exact beside_map (beside_simpleStmt hst) fun _ => rfl

end ComponentLang.Grammar
