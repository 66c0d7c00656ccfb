import ComponentLang.Proofs.Grammar.Beside.Statement
import ComponentLang.Proofs.Grammar.Program

/-!
# Programs, with other numbers and after other items
-/
namespace ComponentLang.Grammar

open Parse
open State (Shifted Level)

variable {k n n' : Nat} {old : List Diagnostic} {s t : State} {before program : Program}

/-- The items of `program`, with numbers that are `k` higher, behind those of `before`. -/
def joined (before : Program) (k : Nat) (program : Program) : Program where
  imports := before.imports ++ program.imports
  exports := before.exports ++ program.exports.map (Relabel.exportDecl (shift k))
  functions := before.functions ++ program.functions.map (Relabel.function (shift k))
  components := before.components ++ program.components.map (Relabel.component (shift k))
  statements := before.statements ++ program.statements.map (Relabel.stmt (shift k))

theorem joined_empty (before : Program) (k : Nat) : joined before k .empty = before := by
  simp [joined, Program.empty]

/-- Both readers end with what they have read, the second with the items of `before` in front. -/
theorem beside_read {B : State → State → Prop} {read wider : Program} (hst : B s t)
    (hread : joined before k read = wider) :
    Beside B (joined before k) (pure read) (pure wider) s t :=
  hread ▸ beside_pure hst read

theorem joined_statement (before program : Program) (k : Nat) (stmt : Stmt) :
    joined before k { program with statements := program.statements ++ [stmt] } =
      { joined before k program with
        statements := (joined before k program).statements ++ [Relabel.stmt (shift k) stmt] } := by
  simp [joined]

theorem beside_item (hst : Level k old n n' s t) :
    Beside (Level k old n n') (joined before k) (item program)
      (item (joined before k program)) s t := by
  have hstatement : Shifts k old n n' (s.rest.length + 1) statement statement :=
    shifts_statement _
  have hle := State.length_rest_next s
  unfold item
  apply beside_kind_bind hst
  split
  · apply beside_bind (beside_importDecl hst)
    intro import_ s' t' hst' _
    exact beside_read hst' (by simp [joined])
  · apply beside_bind (beside_exportDecl hstatement hst (by omega))
    intro export_ s' t' hst' _
    exact beside_read hst' (by simp [joined])
  · split
    · apply beside_bind (beside_declaration hstatement hst (Nat.le_succ _))
      intro declared s' t' hst' _
      cases declared with
      | inl function => exact beside_read hst' (by simp [joined])
      | inr component => exact beside_read hst' (by simp [joined])
    · apply beside_bind (hstatement.beside hst (Nat.lt_succ_self _))
      intro stmt s' t' hst' _
      exact beside_read hst' (joined_statement before program k stmt)

theorem beside_recoveringItem (hst : Level k old n n' s t) :
    Beside (Shifted k old) (joined before k) (recoveringItem program)
      (recoveringItem (joined before k program)) s t := by
  unfold recoveringItem
  apply beside_attempt_bind (beside_item hst)
  · intro program s' t' hst' _
    exact beside_pure hst'.toShifted program
  · intro problem s' t' hst' _
    apply beside_bind (beside_recover hst'.toShifted)
    intro placeholder u v huv _
    have hjoined := joined_statement before program k placeholder
    apply beside_kind_bind huv
    split
    · apply beside_advance_bind huv
      intro hnext
      exact beside_read hnext hjoined
    · exact beside_read huv hjoined

theorem beside_programStep (hst : Level k old n n' s t) :
    Beside (Level k old n n') (Turn.map (joined before k) (joined before k))
      (programStep program) (programStep (joined before k program)) s t := by
  have hlength : t.rest.length = s.rest.length := congrArg List.length hst.rest
  unfold programStep
  apply beside_get_bind
  rw [Pairing.atEnd hst, hlength]
  split
  · exact beside_done hst program
  next hend =>
    have hpos := State.length_pos_of_not_atEnd hend
    apply beside_eat_if hst
    · intro _ hnext
      exact beside_again hnext program
    · intro _
      exact beside_turn hst hpos (beside_recoveringItem hst) gives_recoveringItem
        gives_recoveringItem fun _ => rfl

/-- The rest of a program is read alike wherever numbers begin and whatever was read before it. -/
theorem beside_iterate_programStep (before program : Program) (hst : Level k old n n' s t) :
    Beside (Level k old n n') (joined before k) (iterate programStep program)
      (iterate programStep (joined before k program)) s t := by
  apply beside_iterate (k := joined before k) hst
  intro program s' t' hst' _
  exact beside_programStep hst'

end ComponentLang.Grammar
