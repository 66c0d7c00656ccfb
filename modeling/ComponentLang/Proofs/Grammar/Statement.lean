import ComponentLang.Grammar.Statement
import ComponentLang.Proofs.Grammar.Declaration

/-!
# What statements take

The rules of statements are followed like those of expressions, by induction on the depth.
-/
namespace ComponentLang.Grammar

open Parse

section Simple

variable {R : State → State → Prop} [Travel R] {s : State}

@[simp] theorem skims_stmtFrom {start : Span} {build : Span → Stmt} :
    Skims R (stmtFrom start build) s := by
  unfold stmtFrom
  simp

theorem skims_simpleStmt : Skims R simpleStmt s := by
  unfold simpleStmt
  simp only [takes_here_bind]
  apply takes_bind skims_expression
  intro target t _ _
  simp only [takes_kind_bind]
  split
  · simp
  · split
    · apply takes_advance_bind
      apply takes_bind skims_expression
      intro value u _ _
      simp
    · simp [Problem.ofSpan]

theorem skims_variableStmt : Skims R variableStmt s := by
  unfold variableStmt
  apply takes_advance_bind
  apply takes_expectIdentifier_bind
  intro _
  apply takes_bind skims_typeExpr?
  intro typeExpr t _ _
  apply takes_eat_ite_bind (fun _ => skims_map skims_expression) (by simp)
  intro init u _ _
  simp

theorem skims_returnStmt : Skims R returnStmt s := by
  unfold returnStmt
  apply takes_advance_bind
  simp only [takes_kind_bind]
  apply takes_ite_bind (skims_map skims_expression) (by simp)
  intro value t _ _
  simp

theorem skims_throwStmt : Skims R throwStmt s := by
  unfold throwStmt
  apply takes_advance_bind
  apply takes_bind skims_expression
  intro value t _ _
  simp

theorem skims_impliedNumber {text : String} {span : Span} :
    Skims R (impliedNumber text span) s := by
  unfold impliedNumber
  simp

theorem skims_loopBounds {span : Span} : Skims R (loopBounds span) s := by
  unfold loopBounds
  apply takes_bind skims_expression
  intro first t _ _
  apply takes_eat_if
  · intro _
    apply takes_bind skims_expression
    intro last u _ _
    simp only [takes_pure_bind]
    apply takes_expect_bind
    simp
  · intro _
    apply takes_bind skims_impliedNumber
    intro zero u _ _
    simp only [takes_pure_bind]
    apply takes_expect_bind
    simp

theorem skims_countingLoop {start span : Span} {name : String} {bounds : Expr × Expr}
    {body : Block} : Skims R (countingLoop start span name bounds body) s := by
  unfold countingLoop
  apply takes_node_bind
  apply takes_node_bind
  apply takes_node_bind
  apply takes_bind skims_impliedNumber
  intro one t _ _
  simp

theorem skims_loopInit : Skims R loopInit s := by
  unfold loopInit
  simp only [takes_kind_bind]
  split
  · simp
  · split
    · exact skims_map skims_variableStmt
    · exact skims_map skims_simpleStmt

end Simple

/-! ## Branches and loops -/

section Compound

variable {n m : Nat} {s : State} {statement : Parse Stmt}
  (hstatement : SkimsBelow (State.Moves n 0) m statement)
include hstatement

theorem skims_whileStmt
    (hm : s.rest.length ≤ m) : Skims (State.Moves n 0) (whileStmt statement) s := by
  unfold whileStmt
  apply takes_advance_bind
  have hle := State.length_rest_next s
  apply takes_bind skims_headExpression
  intro test t hst _
  have hle' := Travel.shrinks hst
  apply takes_bind (skims_body (hstatement.mono (by omega)))
  intro body u _ _
  simp

theorem skims_clauseLoop {start : Span}
    (hm : s.rest.length ≤ m) : Skims (State.Moves n 0) (clauseLoop statement start) s := by
  unfold clauseLoop
  apply takes_expect_bind
  intro _
  apply takes_bind skims_loopInit
  intro init t hst _
  apply takes_expect_bind
  intro _
  simp only [takes_kind_bind]
  apply takes_ite_bind (P := fun _ _ => True) (by simp) (skims_map skims_expression)
  intro test u htu _
  apply takes_expect_bind
  intro _
  simp only [takes_kind_bind]
  apply takes_ite_bind (P := fun _ _ => True) (by simp) (skims_map skims_simpleStmt)
  intro update v huv _
  apply takes_expect_bind
  intro _
  have hle : v.next.rest.length ≤ s.rest.length := by
    have hs := State.length_rest_next s
    have ht := Travel.shrinks hst
    have ht' := State.length_rest_next t
    have hu := Travel.shrinks htu
    have hu' := State.length_rest_next u
    have hv := Travel.shrinks huv
    have hv' := State.length_rest_next v
    omega
  apply takes_bind (skims_body (hstatement.mono (by omega)))
  intro body w _ _
  simp

theorem skims_forStmt
    (hm : s.rest.length ≤ m) : Skims (State.Moves n 0) (forStmt statement) s := by
  have hle := State.length_rest_next s
  have hle' := State.length_rest_next s.next
  have hle'' := State.length_rest_next s.next.next
  unfold forStmt
  apply takes_advance_bind
  simp only [takes_kind_bind]
  split
  · exact skims_clauseLoop hstatement (by omega)
  · simp only [takes_here_bind]
    apply takes_expectIdentifier_bind
    intro _
    apply takes_eat_if
    · intro _
      apply takes_bind skims_headExpression
      intro iterable t hst _
      have ht := Travel.shrinks hst
      apply takes_bind (skims_body (hstatement.mono (by omega)))
      intro body u _ _
      simp
    · intro _
      apply takes_eat_if
      · intro _
        apply takes_bind skims_loopBounds
        intro bounds t hst _
        have ht := Travel.shrinks hst
        apply takes_bind (skims_body (hstatement.mono (by omega)))
        intro body u _ _
        exact skims_countingLoop
      · simp

/-! ## Failure and asynchrony -/

theorem skims_catchClause
    (hm : s.rest.length ≤ m) : Skims (State.Moves n 0) (catchClause statement) s := by
  unfold catchClause
  apply takes_eat_if
  · intro _
    have hle := State.length_rest_next s
    have hle' := State.length_rest_next s.next
    have hle'' := State.length_rest_next s.next.next
    apply takes_expectIdentifier_bind
    intro _
    apply takes_expect_bind
    intro _
    simp only [takes_pure_bind]
    apply takes_bind (skims_body (hstatement.mono (by omega)))
    intro body t _ _
    simp
  · intro _
    simp only [takes_pure_bind]
    apply takes_bind (skims_body (hstatement.mono (by omega)))
    intro body t _ _
    simp

theorem skims_tryStmt
    (hm : s.rest.length ≤ m) : Skims (State.Moves n 0) (tryStmt statement) s := by
  have hle := State.length_rest_next s
  unfold tryStmt
  apply takes_advance_bind
  apply takes_bind (skims_body (hstatement.mono (by omega)))
  intro block t hst _
  have ht := Travel.shrinks hst
  have ht' := State.length_rest_next t
  have hcatch : Skims (State.Moves n 0) (catchClause statement) t.next :=
    skims_catchClause hstatement (by omega)
  apply takes_eat_ite_bind (fun _ => skims_map hcatch) (by simp)
  intro handler u htu _
  have hu := Travel.shrinks htu
  have hu' := State.length_rest_next u
  have hfinally : Skims (State.Moves n 0) (body statement) u.next :=
    skims_body (hstatement.mono (by omega))
  apply takes_eat_ite_bind (fun _ => skims_map hfinally) (by simp)
  intro cleanup v _ _
  dsimp only
  split
  · simp
  · simp

omit hstatement in
theorem skims_asyncSegment {α : Type} {word : Keyword} {content : Parse α}
    {expected : Expected}
    (hcontent : ∀ t, t.rest.length ≤ s.rest.length → Skims (State.Moves n 0) content t) :
    Skims (State.Moves n 0) (asyncSegment word content expected) s := by
  have hle := State.length_rest_next s
  have hle' := State.length_rest_next s.next
  unfold asyncSegment
  simp only [takes_get_bind]
  split
  · apply takes_advance_bind
    apply takes_advance_bind
    apply takes_bind (hcontent _ (by omega))
    intro value t _ _
    apply takes_expect_bind
    simp
  · simp

theorem skims_asyncStmt
    (hm : s.rest.length ≤ m) : Skims (State.Moves n 0) (asyncStmt statement) s := by
  have hle := State.length_rest_next s
  have hle' := State.length_rest_next s.next
  unfold asyncStmt
  apply takes_advance_bind
  apply takes_expect_bind
  intro _
  simp only [takes_kind_bind]
  split
  · apply takes_bind (skims_block (hstatement.mono (by omega)))
    intro block t hst _
    have ht := Travel.shrinks hst
    refine takes_bind (skims_asyncSegment ?_) ?_
    · intro u hu
      exact skims_catchClause hstatement (by omega)
    intro handler u htu _
    have hu := Travel.shrinks htu
    refine takes_bind (skims_asyncSegment ?_) ?_
    · intro v hv
      exact skims_body (hstatement.mono (by omega))
    intro cleanup v _ _
    apply takes_expect_bind
    simp
  · simp

end Compound

/-! ## All statements -/

section Rules

variable {n m : Nat} {s : State} {rules : StmtRules}

/-- The rules keep to the account wherever fewer than `m` tokens are to come. -/
structure StmtRules.Keep (n m : Nat) (rules : StmtRules) : Prop where
  statement : SkimsBelow (State.Moves n 0) m rules.statement
  ifStmt : SkimsBelow (State.Moves n 0) m rules.ifStmt

theorem skims_ifRule (hrules : rules.Keep n m) (hm : s.rest.length ≤ m) :
    Skims (State.Moves n 0) (ifRule rules) s := by
  have hle := State.length_rest_next s
  unfold ifRule
  apply takes_advance_bind
  apply takes_bind skims_headExpression
  intro test t hst _
  have ht := Travel.shrinks hst
  apply takes_bind (skims_body (hrules.statement.mono (by omega)))
  intro consequent u htu _
  have hu := Travel.shrinks htu
  apply takes_eat_if
  · intro helse
    have hless := State.length_next_lt (s := u) (by simp [helse])
    simp only [takes_kind_bind]
    have hbody : Skims (State.Moves n 0) (body rules.statement) u.next :=
      skims_body (hrules.statement.mono (by omega))
    apply takes_ite_bind (P := fun _ _ => True)
    · exact skims_map (hrules.ifStmt _ (by omega))
    · exact skims_map hbody
    · intro alternate v _ _
      simp
  · simp

theorem skims_bareStatement (hrules : rules.Keep n m)
    (hm : s.rest.length ≤ m) : Skims (State.Moves n 0) (bareStatement rules) s := by
  unfold bareStatement
  simp only [takes_here_bind, takes_kind_bind]
  split
  case h_1 | h_2 | h_3 => exact skims_variableStmt
  case h_4 => exact skims_ifRule hrules hm
  case h_5 => exact skims_whileStmt hrules.statement hm
  case h_6 => exact skims_forStmt hrules.statement hm
  case h_7 => exact skims_returnStmt
  case h_8 | h_9 =>
    apply takes_advance_bind
    simp
  case h_10 => exact skims_throwStmt
  case h_11 => exact skims_tryStmt hrules.statement hm
  case h_12 => exact skims_asyncStmt hrules.statement hm
  case h_13 | h_14 | h_15 | h_16 =>
    apply takes_bind skims_modifiers
    intro modifiers t hst _
    have hle := Travel.shrinks hst
    apply takes_bind (skims_function hrules.statement (by omega))
    intro function u _ _
    simp
  case h_17 =>
    apply takes_bind skims_importDecl
    intro item t _ _
    simp
  case h_18 hkind =>
    have hless := State.length_next_lt (s := s) (by simp [hkind])
    apply takes_bind (skims_exportDecl hrules.statement (by omega))
    intro item t _ _
    simp
  case h_19 =>
    have hblock : Skims (State.Moves n 0) (block rules.statement .brace) s :=
      skims_block (hrules.statement.mono (by omega))
    exact skims_map hblock
  case h_20 => exact skims_simpleStmt

theorem skims_statementRule (hrules : rules.Keep n m)
    (hm : s.rest.length ≤ m) : Skims (State.Moves n 0) (statementRule rules) s := by
  unfold statementRule
  apply takes_bind (skims_bareStatement hrules hm)
  intro stmt t _ _
  apply takes_bind skims_eat
  intro taken u _ _
  simp

theorem keep_stmtRules (depth : Nat) : (stmtRules depth).Keep n depth := by
  induction depth with
  | zero =>
      constructor
      · intro t ht
        exact absurd ht (Nat.not_lt_zero _)
      · intro t ht
        exact absurd ht (Nat.not_lt_zero _)
  | succ depth ih =>
      constructor
      · intro t ht
        exact (skims_statementRule ih (by omega)).of_eq rfl
      · intro t ht
        exact (skims_ifRule ih (by omega)).of_eq rfl

end Rules

theorem skims_statement {n : Nat} {s : State} : Skims (State.Moves n 0) statement s :=
  ((keep_stmtRules _).statement s (Nat.lt_succ_self _)).of_eq rfl

end ComponentLang.Grammar
