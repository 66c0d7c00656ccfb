import ComponentLang.Grammar.Statement
import ComponentLang.Proofs.Grammar.Ledger.Expression

/-!
# What declarations and statements account for

A block or a component goes on after a problem. What it had is kept, what was being read is dropped,
and the placeholder stands for the problem. When the block or the component fails later, its
placeholders are dropped with it and the account is no longer whole, until an outer placeholder is
left.
-/
namespace ComponentLang.Grammar

open Parse

/-! ## Blocks -/

section Bodies

variable {statement : Parse Stmt} (hstatement : Builds 0 heldStmt statement)

include hstatement

theorem builds_blockStep {close : TokenKind} {stmts : List Stmt} :
    Builds (heldStmts stmts) (turnHolding heldStmts heldStmts)
      (blockStep statement close stmts) := by
  unfold blockStep
  apply builds_get_bind
  intro s
  split
  · exact builds_pure rfl
  · apply builds_eat_if
    · exact builds_pure rfl
    · apply builds_then (builds_recovering hstatement)
      intro stmt
      apply builds_idle_bind idle_ensureProgress
      intro _
      exact builds_pure (heldStmts_concat stmts stmt).symm

theorem builds_block {bracket : Bracket} : Builds 0 heldBlock (block statement bracket) := by
  unfold block
  apply builds_here_bind
  intro start
  apply builds_eat_if
  · apply builds_bind (builds_iterate (fun _ => builds_blockStep hstatement) [])
    intro stmts
    apply builds_expect_bind
    intro _
    apply builds_spanFrom_bind
    intro span
    exact builds_pure (by simp [heldBlock, heldStmts, Walk.block, partHolding])
  · exact builds_unexpected

theorem builds_body : Builds 0 heldBlock (body statement) := by
  unfold body
  apply builds_kind_bind
  intro kind
  split
  · exact builds_block hstatement
  · exact builds_block hstatement
  · exact builds_unexpected

end Bodies

/-! ## Imports and the heads of functions -/

theorem idle_importedNames : Idle importedNames := by
  unfold importedNames
  have hname : Idle (expectIdentifier .importedName) :=
    builds_expect_bind fun _ => builds_pure rfl
  apply builds_idle_bind (builds_commaSeparated hname rfl fun _ _ => (add_zero _).symm)
  intro names
  exact builds_expect_bind fun _ => builds_pure rfl

theorem idle_importDecl : Idle importDecl := by
  unfold importDecl
  have hsource : ∀ {start : Span} {names : List String} {default : Option String},
      Idle (do
        if ← eat (.keyword .fromKw) then
          let source ← expect .string .modulePath
          return (⟨names, default, source.lexeme, ← spanFrom start⟩ : Import)
        else unexpected .fromWord) := by
    intro start names default
    apply builds_eat_if
    · apply builds_expect_bind
      intro source
      exact builds_spanFrom_bind fun _ => builds_pure rfl
    · exact builds_unexpected
  apply builds_advance_bind
  intro word
  apply builds_eat_if
  · apply builds_idle_bind idle_importedNames
    intro names
    exact hsource
  · apply builds_expectIdentifier_bind
    intro name
    exact hsource

theorem idle_modifiers : Idle modifiers := by
  unfold modifiers
  apply builds_iterate (n := fun _ => 0)
  intro names
  unfold modifierStep
  apply builds_kind_bind
  intro kind
  split
  · exact builds_advance_bind fun _ => builds_pure rfl
  · exact builds_pure rfl

theorem idle_param : Idle param := by
  unfold param
  apply builds_here_bind
  intro start
  apply builds_expectIdentifier_bind
  intro name
  apply builds_idle_bind idle_typeExpr?
  intro typeExpr
  exact builds_spanFrom_bind fun _ => builds_pure rfl

theorem idle_params : Idle (commaSeparated .rparen param) :=
  builds_commaSeparated idle_param rfl fun _ _ => (add_zero _).symm

theorem idle_functionWord : Idle functionWord := by
  unfold functionWord
  apply builds_eat_if
  · exact builds_pure rfl
  · apply builds_eat_if
    · exact builds_pure rfl
    · exact builds_unexpected

/-! ## Markup of components -/

/-- Markup in which a problem is pending may leave out what was read after it. -/
def pending (problem : Option Problem) (g : Holding) : Holding :=
  match problem with
  | none => g
  | some _ => g.torn

theorem torn_pending (problem : Option Problem) (g : Holding) :
    (pending problem g).torn = g.torn := by
  cases problem <;> rfl

theorem add_pending (problem : Option Problem) (g h : Holding) :
    g + pending problem h = pending problem (g + h) := by
  cases problem with
  | none => rfl
  | some p => exact Holding.ext rfl (Bool.and_false _)

def heldRun (run : MarkupRun) : Holding := pending run.problem (heldMarkups run.items)

def heldMembers (members : Members) : Holding :=
  heldStmts members.statements + heldMarkups members.body

theorem builds_markupItem : Builds 0 (fun item => heldMarkups [item]) markupItem := by
  unfold markupItem
  apply builds_peek_bind
  intro token
  split
  · exact builds_map (builds_tag.mono fun t => (heldMarkups_tag t).symm)
  · apply builds_advance_bind
    intro _
    apply builds_then builds_expression
    intro value
    apply builds_expect_bind
    intro _
    exact builds_pure (by rw [heldMarkups_expr, zero_add])
  · apply builds_advance_bind
    intro _
    exact builds_pure (heldMarkups_text _ _).symm

theorem builds_markupRun : Builds 0 heldRun markupRun := by
  unfold markupRun
  refine builds_iterate (n := heldMarkups) ?_ []
  intro items
  unfold markupStep
  apply builds_kind_bind
  intro kind
  split
  · apply builds_attempt_bind builds_markupItem.frame
    · intro item
      exact builds_pure (heldMarkups_append items [item]).symm
    · intro problem
      exact builds_pure rfl
  · exact builds_pure rfl

theorem builds_renderSection : Builds 0 heldRun renderSection := by
  unfold renderSection
  apply builds_advance_bind
  intro _
  apply builds_eat_if
  · exact builds_markupRun
  · apply builds_eat_if
    · apply builds_bind builds_markupRun
      intro run
      split
      · exact builds_pure rfl
      · apply builds_attempt_bind idle_expect.frame
        · intro _
          exact builds_pure (add_zero _)
        · intro problem
          exact builds_pure (torn_pending run.problem _)
    · exact builds_unexpected

/-! ## Functions and components -/

section Bodies

variable {statement : Parse Stmt} (hstatement : Builds 0 heldStmt statement)

include hstatement

theorem builds_function {modifiers : List String} :
    Builds 0 heldFunction (function statement modifiers) := by
  unfold function
  apply builds_here_bind
  intro start
  apply builds_eat_bind
  intro async
  apply builds_idle_bind idle_functionWord
  intro _
  apply builds_expectIdentifier_bind
  intro name
  apply builds_expect_bind
  intro _
  apply builds_idle_bind idle_params
  intro params
  apply builds_expect_bind
  intro _
  apply builds_idle_bind idle_typeExpr?
  intro returnType
  apply builds_then (builds_block hstatement)
  intro body
  apply builds_spanFrom_bind
  intro span
  exact builds_pure (by simp [heldFunction, heldBlock, Walk.function, partHolding])

theorem builds_method :
    Builds 0 heldStmt (method statement) := by
  unfold method
  apply builds_here_bind
  intro start
  apply builds_expectIdentifier_bind
  intro name
  apply builds_then (builds_block hstatement)
  intro body
  apply builds_spanFrom_bind
  intro span
  exact builds_pure (by simp [heldStmt, heldBlock, Walk.stmt, Walk.function, partHolding])

theorem builds_member {members : Members} :
    Builds (heldMembers members) (fun read => pending read.2 (heldMembers read.1))
      (member statement members) := by
  have hadd : ∀ stmt, heldMembers members + heldStmt stmt =
      heldMembers { members with statements := members.statements ++ [stmt] } := by
    intro stmt
    unfold heldMembers
    rw [heldStmts_concat, add_right_comm]
  unfold member
  apply builds_get_bind
  intro s
  split
  · apply builds_then builds_renderSection
    intro run
    refine builds_pure ?_
    unfold heldRun heldMembers
    rw [add_pending, heldMarkups_append, add_assoc]
  · apply builds_then builds_tag
    intro tag
    refine builds_pure ?_
    unfold heldMembers pending
    rw [heldMarkups_append, heldMarkups_tag, add_assoc]
  · apply builds_ite_bind (builds_method hstatement) hstatement
    intro stmt
    exact builds_pure (hadd stmt)
  · apply builds_then hstatement
    intro stmt
    exact builds_pure (hadd stmt)

theorem builds_recoveringMember {members : Members} :
    Builds (heldMembers members) heldMembers (recoveringMember statement members) := by
  have hplaceholder : ∀ {members : Members} {problem : Problem},
      Builds (heldMembers members).torn heldMembers (do
        let placeholder ← recover problem
        return { members with statements := members.statements ++ [placeholder] }) := by
    intro members problem
    apply builds_bind builds_recover
    intro placeholder
    refine builds_pure ?_
    unfold heldMembers
    rw [heldStmts_concat, add_right_comm]
  unfold recoveringMember
  apply builds_attempt_bind (builds_member hstatement)
  · rintro ⟨members, problem⟩
    cases problem with
    | none => exact builds_pure rfl
    | some problem => exact hplaceholder
  · intro problem
    exact hplaceholder

theorem builds_memberStep {members : Members} :
    Builds (heldMembers members) (turnHolding heldMembers heldMembers)
      (memberStep statement members) := by
  unfold memberStep
  apply builds_get_bind
  intro s
  split
  · exact builds_pure rfl
  · apply builds_eat_if
    · exact builds_pure rfl
    · apply builds_bind (builds_recoveringMember hstatement)
      intro members
      exact builds_idle_bind idle_ensureProgress fun _ => builds_pure rfl

theorem builds_component {modifiers : List String} :
    Builds 0 heldComponent (component statement modifiers) := by
  unfold component
  apply builds_advance_bind
  intro word
  apply builds_expectIdentifier_bind
  intro name
  apply builds_expect_bind
  intro _
  apply builds_bind (builds_iterate (fun _ => builds_memberStep hstatement) ⟨[], []⟩)
  intro members
  apply builds_expect_bind
  intro _
  apply builds_spanFrom_bind
  intro span
  exact builds_pure (by
    simp [heldComponent, heldMembers, heldStmts, heldMarkups, Walk.component, partHolding])

theorem builds_declaration :
    Builds 0 (Sum.elim heldFunction heldComponent) (declaration statement) := by
  unfold declaration
  apply builds_idle_bind idle_modifiers
  intro modifiers
  apply builds_kind_bind
  intro kind
  split
  case h_1 => exact builds_map (builds_component hstatement)
  case h_2 | h_3 | h_4 => exact builds_map (builds_function hstatement)
  case h_5 => exact builds_unexpected

/-! ## Exports -/

omit hstatement in
theorem heldExport_function (isDefault : Bool) (f : Function) (span : Span) :
    heldExport ⟨isDefault, .function f, span⟩ = heldFunction f := by
  simp [heldExport, heldFunction, Walk.exportDecl, partHolding]

omit hstatement in
theorem heldExport_component (isDefault : Bool) (c : Component) (span : Span) :
    heldExport ⟨isDefault, .component c, span⟩ = heldComponent c := by
  simp [heldExport, heldComponent, Walk.exportDecl, partHolding]

omit hstatement in
theorem heldExport_statement (isDefault : Bool) (stmt : Stmt) (span : Span) :
    heldExport ⟨isDefault, .statement stmt, span⟩ = heldStmt stmt := by
  simp [heldExport, heldStmt, Walk.exportDecl, partHolding]

theorem builds_exportItem (isDefault : Bool) (span : Span) :
    Builds 0 (fun item => heldExport ⟨isDefault, item, span⟩) (exportItem statement) := by
  unfold exportItem
  apply builds_kind_bind
  intro kind
  split
  · apply builds_bind (builds_declaration hstatement)
    intro declared
    cases declared with
    | inl function => exact builds_pure (heldExport_function isDefault function span).symm
    | inr component => exact builds_pure (heldExport_component isDefault component span).symm
  · exact builds_map (hstatement.mono fun stmt =>
      (heldExport_statement isDefault stmt span).symm)

theorem builds_exportDecl : Builds 0 heldExport (exportDecl statement) := by
  unfold exportDecl
  apply builds_advance_bind
  intro word
  apply builds_eat_bind
  intro isDefault
  apply builds_bind (builds_exportItem hstatement isDefault .zero)
  intro item
  apply builds_spanFrom_bind
  intro span
  exact builds_pure (by cases item <;> rfl)

end Bodies

/-! ## Simple statements -/

theorem builds_stmtFrom {g : Holding} {start : Span} {build : Span → Stmt}
    (h : ∀ span, g = heldStmt (build span)) : Builds g heldStmt (stmtFrom start build) :=
  builds_spanFrom_bind fun span => builds_pure (h span)

@[simp] theorem held_expr? (e : Option Expr) :
    held (Walk.expr? Walk.everywhere e) = someHolding heldExpr e := by
  cases e <;> rfl

@[simp] theorem held_stmt? (s : Option Stmt) :
    held (Walk.stmt? Walk.everywhere s) = someHolding heldStmt s := by
  cases s <;> rfl

@[simp] theorem held_block? (b : Option Block) :
    held (Walk.block? Walk.everywhere b) = someHolding heldBlock b := by
  cases b <;> rfl

@[simp] theorem held_handler? (handler : Option CatchClause) :
    held (Walk.handler? Walk.everywhere handler) = someHolding heldHandler handler := by
  obtain _ | ⟨param, body⟩ := handler
  · rfl
  · rfl

theorem builds_simpleStmt : Builds 0 heldStmt simpleStmt := by
  unfold simpleStmt
  apply builds_here_bind
  intro start
  apply builds_then builds_expression
  intro target
  apply builds_kind_bind
  intro kind
  split
  · exact builds_stmtFrom fun span => by simp [heldStmt, heldExpr, Walk.stmt, partHolding]
  · split
    · apply builds_advance_bind
      intro _
      apply builds_then builds_expression
      intro value
      exact builds_stmtFrom fun span => by simp [heldStmt, heldExpr, Walk.stmt, partHolding]
    · exact builds_throw

theorem builds_variableStmt : Builds 0 heldStmt variableStmt := by
  unfold variableStmt
  apply builds_advance_bind
  intro word
  apply builds_expectIdentifier_bind
  intro name
  apply builds_idle_bind idle_typeExpr?
  intro typeExpr
  apply builds_eat_bind
  intro taken
  apply builds_ite_bind (builds_some builds_expression) builds_none
  intro init
  exact builds_stmtFrom fun span => by simp [heldStmt, Walk.stmt, partHolding]

theorem builds_returnStmt : Builds 0 heldStmt returnStmt := by
  unfold returnStmt
  apply builds_advance_bind
  intro word
  apply builds_kind_bind
  intro kind
  apply builds_ite_bind (builds_some builds_expression) builds_none
  intro value
  exact builds_stmtFrom fun span => by simp [heldStmt, Walk.stmt, partHolding]

theorem builds_throwStmt : Builds 0 heldStmt throwStmt := by
  unfold throwStmt
  apply builds_advance_bind
  intro word
  apply builds_then builds_expression
  intro value
  exact builds_stmtFrom fun span => by simp [heldStmt, heldExpr, Walk.stmt, partHolding]

theorem builds_impliedNumber {text : String} {span : Span} :
    Builds 0 heldExpr (impliedNumber text span) := by
  unfold impliedNumber
  apply builds_node_bind
  intro node
  exact builds_pure (by simp [heldExpr, Walk.expr, partHolding, Expr.node])

theorem builds_loopBounds {span : Span} :
    Builds 0 (fun bounds => heldExpr bounds.1 + heldExpr bounds.2) (loopBounds span) := by
  unfold loopBounds
  apply builds_then builds_expression
  intro first
  apply builds_eat_if
  · apply builds_then builds_expression
    intro last
    exact builds_expect_bind fun _ => builds_pure (by rw [zero_add])
  · apply builds_then builds_impliedNumber
    intro zero
    exact builds_expect_bind fun _ => builds_pure (by rw [zero_add, add_comm])

/-- The nodes that are not written down are accounted for too. -/
theorem builds_countingLoop {start span : Span} {name : String} {bounds : Expr × Expr}
    {body : Block} :
    Builds (heldExpr bounds.1 + heldExpr bounds.2 + heldBlock body) heldStmt
      (countingLoop start span name bounds body) := by
  unfold countingLoop
  apply builds_node_bind
  intro counter
  apply builds_node_bind
  intro test
  apply builds_node_bind
  intro target
  apply builds_then builds_impliedNumber
  intro one
  refine builds_stmtFrom fun span => ?_
  simp [heldStmt, heldExpr, heldBlock, Walk.stmt, Walk.stmt?, Walk.expr?, Walk.expr, partHolding,
    Expr.node]
  abel

theorem builds_loopInit : Builds 0 (someHolding heldStmt) loopInit := by
  unfold loopInit
  apply builds_kind_bind
  intro kind
  split
  · exact builds_none
  · split
    · exact builds_some builds_variableStmt
    · exact builds_some builds_simpleStmt

/-! ## Compound statements -/

section Compound

variable {statement : Parse Stmt} (hstatement : Builds 0 heldStmt statement)

include hstatement

theorem builds_whileStmt : Builds 0 heldStmt (whileStmt statement) := by
  unfold whileStmt
  apply builds_advance_bind
  intro word
  apply builds_then builds_headExpression
  intro test
  apply builds_then (builds_body hstatement)
  intro body
  exact builds_stmtFrom fun span => by
    simp [heldStmt, heldExpr, heldBlock, Walk.stmt, partHolding]

theorem builds_clauseLoop {start : Span} : Builds 0 heldStmt (clauseLoop statement start) := by
  unfold clauseLoop
  apply builds_expect_bind
  intro _
  apply builds_then builds_loopInit
  intro init
  apply builds_expect_bind
  intro _
  apply builds_kind_bind
  intro kind
  apply builds_ite_bind builds_none (builds_some builds_expression)
  intro test
  apply builds_expect_bind
  intro _
  apply builds_kind_bind
  intro kind
  apply builds_ite_bind builds_none (builds_some builds_simpleStmt)
  intro update
  apply builds_expect_bind
  intro _
  apply builds_then (builds_body hstatement)
  intro body
  exact builds_stmtFrom fun span => by
    simp [heldStmt, heldBlock, Walk.stmt, partHolding, add_assoc]

theorem builds_forStmt : Builds 0 heldStmt (forStmt statement) := by
  unfold forStmt
  apply builds_advance_bind
  intro word
  apply builds_kind_bind
  intro kind
  split
  · exact builds_clauseLoop hstatement
  · apply builds_here_bind
    intro span
    apply builds_expectIdentifier_bind
    intro name
    apply builds_eat_if
    · apply builds_then builds_headExpression
      intro iterable
      apply builds_then (builds_body hstatement)
      intro body
      exact builds_stmtFrom fun span => by
        simp [heldStmt, heldExpr, heldBlock, Walk.stmt, partHolding]
    · apply builds_eat_if
      · apply builds_bind builds_loopBounds
        intro bounds
        apply builds_then (builds_body hstatement)
        intro body
        exact builds_countingLoop
      · exact builds_unexpected

theorem builds_catchClause : Builds 0 heldHandler (catchClause statement) := by
  have hbody : ∀ {param : Option String},
      Builds 0 heldHandler (do return ⟨param, ← body statement⟩) := by
    intro param
    apply builds_bind (builds_body hstatement)
    intro body
    exact builds_pure rfl
  unfold catchClause
  apply builds_eat_if
  · apply builds_expectIdentifier_bind
    intro name
    apply builds_expect_bind
    intro _
    exact hbody
  · exact hbody

theorem builds_tryStmt : Builds 0 heldStmt (tryStmt statement) := by
  unfold tryStmt
  apply builds_advance_bind
  intro word
  apply builds_then (builds_body hstatement)
  intro block
  apply builds_eat_bind
  intro taken
  apply builds_ite_bind (builds_some (builds_catchClause hstatement)) builds_none
  intro handler
  apply builds_eat_bind
  intro taken
  apply builds_ite_bind (builds_some (builds_body hstatement)) builds_none
  intro cleanup
  dsimp only
  split
  · exact builds_unexpected
  · exact builds_stmtFrom fun span => by
      simp [heldStmt, heldBlock, Walk.stmt, partHolding, add_assoc]

omit hstatement in
theorem builds_asyncSegment {α : Type} {m : α → Holding} {word : Keyword} {content : Parse α}
    {expected : Expected} (hcontent : Builds 0 m content) :
    Builds 0 (someHolding m) (asyncSegment word content expected) := by
  unfold asyncSegment
  apply builds_get_bind
  intro s
  split
  · apply builds_advance_bind
    intro _
    apply builds_advance_bind
    intro _
    apply builds_then hcontent
    intro value
    exact builds_expect_bind fun _ => builds_pure (zero_add _)
  · exact builds_none

theorem builds_asyncStmt : Builds 0 heldStmt (asyncStmt statement) := by
  unfold asyncStmt
  apply builds_advance_bind
  intro word
  apply builds_expect_bind
  intro _
  apply builds_kind_bind
  intro kind
  split
  · apply builds_then (builds_block hstatement)
    intro block
    apply builds_then (builds_asyncSegment (builds_catchClause hstatement))
    intro handler
    apply builds_then (builds_asyncSegment (builds_body hstatement))
    intro cleanup
    apply builds_expect_bind
    intro _
    exact builds_stmtFrom fun span => by
      simp [heldStmt, heldBlock, Walk.stmt, partHolding, add_assoc]
  · exact builds_unexpected

end Compound

/-! ## All statements -/

/-- Both rules account for what they read. -/
structure StmtRules.Account (rules : StmtRules) : Prop where
  statement : Builds 0 heldStmt rules.statement
  ifStmt : Builds 0 heldStmt rules.ifStmt

variable {rules : StmtRules}

theorem builds_ifRule (hrules : rules.Account) : Builds 0 heldStmt (ifRule rules) := by
  have hbody := builds_body hrules.statement
  unfold ifRule
  apply builds_advance_bind
  intro word
  apply builds_then builds_headExpression
  intro test
  apply builds_then hbody
  intro consequent
  have hstmt : ∀ {start : Span} {alternate : Option Stmt},
      Builds (0 + heldExpr test + heldBlock consequent + someHolding heldStmt alternate) heldStmt
        (stmtFrom start (.ifElse · test consequent alternate)) :=
    builds_stmtFrom fun span => by
      simp [heldStmt, heldExpr, heldBlock, Walk.stmt, partHolding, add_assoc]
  have hblock : Builds 0 (someHolding heldStmt)
      ((fun b => some (.block b)) <$> body rules.statement) :=
    builds_map (hbody.mono fun b => by
      simp [someHolding, heldStmt, heldBlock, Walk.stmt, partHolding])
  apply builds_eat_if
  · apply builds_kind_bind
    intro kind
    exact builds_ite_bind (builds_some hrules.ifStmt) hblock fun _ => hstmt
  · exact builds_then builds_none fun _ => hstmt

theorem builds_bareStatement (hrules : rules.Account) :
    Builds 0 heldStmt (bareStatement rules) := by
  unfold bareStatement
  apply builds_here_bind
  intro start
  apply builds_kind_bind
  intro kind
  split
  case h_1 | h_2 | h_3 => exact builds_variableStmt
  case h_4 => exact builds_ifRule hrules
  case h_5 => exact builds_whileStmt hrules.statement
  case h_6 => exact builds_forStmt hrules.statement
  case h_7 => exact builds_returnStmt
  case h_8 | h_9 =>
    apply builds_advance_bind
    intro _
    exact builds_stmtFrom fun span => by simp [heldStmt, Walk.stmt, partHolding]
  case h_10 => exact builds_throwStmt
  case h_11 => exact builds_tryStmt hrules.statement
  case h_12 => exact builds_asyncStmt hrules.statement
  case h_13 | h_14 | h_15 | h_16 =>
    apply builds_idle_bind idle_modifiers
    intro modifiers
    apply builds_then (builds_function hrules.statement)
    intro function
    exact builds_stmtFrom fun span => by simp [heldStmt, heldFunction, Walk.stmt, partHolding]
  case h_17 =>
    apply builds_idle_bind idle_importDecl
    intro item
    exact builds_stmtFrom fun span => by simp [heldStmt, Walk.stmt, partHolding]
  case h_18 =>
    apply builds_then (builds_exportDecl hrules.statement)
    intro item
    exact builds_stmtFrom fun span => by simp [heldStmt, heldExport, Walk.stmt, partHolding]
  case h_19 =>
    exact builds_map ((builds_block hrules.statement).mono fun b => by
      simp [heldStmt, heldBlock, Walk.stmt, partHolding])
  case h_20 => exact builds_simpleStmt

theorem builds_statementRule (hrules : rules.Account) :
    Builds 0 heldStmt (statementRule rules) := by
  unfold statementRule
  apply builds_bind (builds_bareStatement hrules)
  intro stmt
  exact builds_eat_bind fun _ => builds_pure rfl

theorem account_stmtRules (depth : Nat) : (stmtRules depth).Account := by
  induction depth with
  | zero => exact ⟨builds_fail, builds_fail⟩
  | succ depth ih => exact ⟨builds_statementRule ih, builds_ifRule ih⟩

theorem builds_statement : Builds 0 heldStmt statement :=
  builds_of_eq (fun s => (account_stmtRules (s.rest.length + 1)).statement) fun _ => rfl

end ComponentLang.Grammar
