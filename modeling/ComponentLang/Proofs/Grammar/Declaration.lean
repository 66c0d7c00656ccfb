import ComponentLang.Grammar.Declaration
import ComponentLang.Proofs.Grammar.Expression
import ComponentLang.Proofs.Grammar.Recovery

/-!
# What declarations take

What the markup of a component could not be read for is reported by the member that it belongs to.
The problem is a value of the readers in between, and they are followed with it.
-/
namespace ComponentLang.Grammar

open Parse

section Words

variable {R : State → State → Prop} [Travel R] {s : State}

/-! ## Imports -/

theorem skims_importedNames : Skims R importedNames s := by
  unfold importedNames
  refine takes_bind (skims_commaSeparated ?_) ?_
  · intro t _
    simp
  · intro names t _ _
    apply takes_expect_bind
    simp

theorem skims_importDecl : Skims R importDecl s := by
  unfold importDecl
  apply takes_advance_bind
  apply takes_eat_if
  · intro _
    apply takes_bind skims_importedNames
    intro names t _ _
    simp only [takes_pure_bind]
    apply takes_eat_if
    · intro _
      apply takes_expect_bind
      simp
    · simp
  · intro _
    apply takes_expectIdentifier_bind
    intro _
    simp only [takes_pure_bind]
    apply takes_eat_if
    · intro _
      apply takes_expect_bind
      simp
    · simp

/-! ## Functions -/

theorem skims_modifiers : Skims R modifiers s := by
  unfold modifiers
  apply skims_iterate
  intro names t _
  unfold modifierStep
  simp only [takes_kind_bind]
  split
  next hkind =>
    have hless := State.length_next_lt (s := t) (by simp [hkind])
    apply takes_advance_bind
    simpa using hless
  next => simp

theorem skims_param : Skims R param s := by
  unfold param
  simp only [takes_here_bind]
  apply takes_expectIdentifier_bind
  intro _
  apply takes_bind skims_typeExpr?
  intro typeExpr t _ _
  simp

theorem skims_functionWord : Skims R functionWord s := by
  unfold functionWord
  apply takes_eat_if
  · simp
  · intro _
    apply takes_eat_if
    · simp
    · simp

/-! ## Markup in a component -/

theorem reads_markupItem (hstarts : startsMarkup s.kind) : Reads R markupItem s := by
  have hkind : s.kind ≠ .eof := by
    intro heof
    simp [heof, startsMarkup] at hstarts
  have hless := State.length_next_lt hkind
  unfold markupItem
  simp only [takes_peek_bind]
  split
  · exact takes_map.2 reads_tag
  · apply takes_advance_bind
    apply takes_bind skims_expression
    intro value t hst _
    have hle := Travel.shrinks hst
    apply takes_expect_bind
    intro _
    simp
    omega
  · apply takes_advance_bind
    simpa using hless

/-- The problem at which a run of markup ended is not the limit. -/
def MarkupRun.Reportable (run : MarkupRun) : Prop :=
  ∀ problem, run.problem = some problem → problem.cause ≠ .iterationLimit

theorem takes_markupRun : Takes R (fun run _ => run.Reportable) markupRun s := by
  unfold markupRun
  apply takes_iterate
  intro items t _
  unfold markupStep
  simp only [takes_kind_bind]
  split
  next hstarts =>
    apply takes_attempt_bind (reads_markupItem hstarts)
    · intro item u _ hless
      simpa using hless
    · intro problem u _ hcause
      simpa [MarkupRun.Reportable] using hcause
  next => simp [MarkupRun.Reportable]

theorem takes_renderSection : Takes R (fun run _ => run.Reportable) renderSection s := by
  unfold renderSection
  apply takes_advance_bind
  apply takes_eat_if
  · intro _
    exact takes_markupRun
  · intro _
    apply takes_eat_if
    · intro _
      apply takes_bind takes_markupRun
      intro run t _ hrun
      split
      · simpa using hrun
      · have hclose : Skims R (expect .rbrace .renderEnd) t := by simp
        apply takes_attempt_bind hclose
        · intro token u _ _
          simpa using hrun
        · intro problem u _ hcause
          simpa [MarkupRun.Reportable] using hcause
    · simp

end Words

section Bodies

variable {n m : Nat} {s : State} {statement : Parse Stmt}
  (hstatement : SkimsBelow (State.Moves n 0) m statement)
include hstatement

/-! ## Bodies of functions and components -/

theorem skims_function {modifiers : List String}
    (hm : s.rest.length ≤ m) : Skims (State.Moves n 0) (function statement modifiers) s := by
  unfold function
  simp only [takes_here_bind]
  apply takes_bind skims_eat
  intro async t hst _
  apply takes_bind skims_functionWord
  intro _ u htu _
  apply takes_expectIdentifier_bind
  intro _
  apply takes_expect_bind
  intro _
  apply takes_bind (skims_commaSeparated fun _ _ => skims_param)
  intro params v huv _
  apply takes_expect_bind
  intro _
  apply takes_bind skims_typeExpr?
  intro returnType w hvw _
  have hle : w.rest.length ≤ s.rest.length := by
    have ht := Travel.shrinks hst
    have hu := Travel.shrinks htu
    have hu' := State.length_rest_next u
    have hu'' := State.length_rest_next u.next
    have hv := Travel.shrinks huv
    have hv' := State.length_rest_next v
    have hw := Travel.shrinks hvw
    omega
  apply takes_bind (skims_block (hstatement.mono (by omega)))
  intro body x _ _
  simp

theorem skims_method
    (hm : s.rest.length ≤ m) : Skims (State.Moves n 0) (method statement) s := by
  unfold method
  simp only [takes_here_bind]
  apply takes_expectIdentifier_bind
  intro _
  have hle := State.length_rest_next s
  apply takes_bind (skims_block (hstatement.mono (by omega)))
  intro body t _ _
  simp

theorem takes_member {members : Members}
    (hm : s.rest.length < m) :
    Takes (State.Moves n 0)
      (fun read _ => ∀ problem, read.2 = some problem → problem.cause ≠ .iterationLimit)
      (member statement members) s := by
  unfold member
  simp only [takes_get_bind]
  split
  · apply takes_bind takes_renderSection
    intro run t _ hrun
    rw [takes_pure]
    exact hrun
  · apply takes_bind reads_tag
    intro tag t _ _
    simp
  · split
    · apply takes_bind (skims_method hstatement (by omega))
      intro stmt t _ _
      simp
    · apply takes_bind (hstatement s hm)
      intro stmt t _ _
      simp
  · apply takes_bind (hstatement s hm)
    intro stmt t _ _
    simp

theorem gives_recoveringMember {members : Members}
    (hm : s.rest.length < m) :
    Gives (fun _ t => s.Attempts n t) (recoveringMember statement members) s := by
  have hplaceholder : ∀ {members : Members} {problem : Problem} {t : State}, s.Moves n 0 t →
      problem.cause ≠ .iterationLimit →
      Gives (fun _ t => s.Attempts n t) (do
        let placeholder ← recover problem
        return { members with statements := members.statements ++ [placeholder] }) t := by
    intro members problem t hst hcause
    unfold Gives
    rw [ends_bind]
    exact gives_recover_attempts hst hcause
  unfold recoveringMember
  apply ends_attempt_bind (takes_member hstatement hm)
  · intro read t ⟨hst, hproblem⟩
    obtain ⟨members, problem⟩ := read
    cases problem with
    | none => exact ⟨t, hst, (Travel.refl (R := State.Drops) t).settles⟩
    | some problem => exact hplaceholder hst (hproblem problem rfl)
  · intro problem t ⟨hst, hcause⟩
    exact hplaceholder hst hcause

theorem turns_memberStep {members : Members}
    (hm : s.rest.length < m) :
    Turns (State.Moves n 1) (memberStep statement members) s := by
  unfold memberStep
  simp only [takes_get_bind]
  split
  next => simp
  next hend =>
    have hpos : 0 < s.rest.length := by
      apply State.length_pos_of_not_atEnd
      intro hatEnd
      exact hend (by rw [hatEnd, Bool.or_true])
    apply takes_eat_if
    · intro hkind
      have hless := State.length_next_lt (s := s) (by simp [hkind])
      simpa using hless
    · intro _
      exact turns_item hpos (gives_recoveringMember hstatement hm)

theorem skims_component {modifiers : List String}
    (hm : s.rest.length ≤ m) : Skims (State.Moves n 0) (component statement modifiers) s := by
  unfold component
  apply takes_advance_bind
  apply takes_expectIdentifier_bind
  intro _
  have hle := State.length_rest_next s
  have hle' := State.length_rest_next s.next
  apply takes_bind_loop
  rw [takes_expect]
  intro hkind
  have hless := State.length_next_lt (s := s.next.next) (by simp [hkind])
  right
  refine ⟨hless, ?_⟩
  refine takes_bind (skims_iterate ?_ _) ?_
  · intro members t hst
    have hle'' := Travel.shrinks hst
    exact turns_memberStep hstatement (by omega)
  · intro members t _ _
    apply takes_expect_bind
    simp

theorem skims_declaration
    (hm : s.rest.length ≤ m) : Skims (State.Moves n 0) (declaration statement) s := by
  unfold declaration
  apply takes_bind skims_modifiers
  intro modifiers t hst _
  have hle := Travel.shrinks hst
  simp only [takes_kind_bind]
  split
  · exact skims_map (skims_component hstatement (by omega))
  case h_2 | h_3 | h_4 => exact skims_map (skims_function hstatement (by omega))
  · simp

theorem skims_exportItem
    (hm : s.rest.length < m) : Skims (State.Moves n 0) (exportItem statement) s := by
  unfold exportItem
  simp only [takes_kind_bind]
  split
  · apply takes_bind (skims_declaration hstatement (by omega))
    intro declared t _ _
    cases declared with
    | inl function => simp
    | inr component => simp
  · exact skims_map (hstatement s hm)

theorem skims_exportDecl
    (hm : s.next.rest.length < m) : Skims (State.Moves n 0) (exportDecl statement) s := by
  unfold exportDecl
  apply takes_advance_bind
  apply takes_bind skims_eat
  intro isDefault t hst _
  have hle := Travel.shrinks hst
  apply takes_bind (skims_exportItem hstatement (by omega))
  intro item u _ _
  simp

end Bodies

end ComponentLang.Grammar
