import ComponentLang.Grammar.Program
import ComponentLang.Proofs.Grammar.Head.Statement

/-!
# No statement in a head

Where a reader calls another one is not seen from what it gives. So the grammar is written once
more with a `Watch` on three of its calls, which may do something else there: the calls that read a
statement, a member of a component and an expression in a tag. If the watch only does so where the
head restriction is set, it makes no difference for any program, whatever it does there. None of the
calls is therefore made while the restriction is set, not even behind the problems of a broken head.
-/
namespace ComponentLang.Grammar

open Parse

/-! ## Markup with another reader of tags -/

def markupItemWith (tag : Parse Tag) : Parse Markup := do
  if (← kind) = .tagOpen then .tag <$> tag else markupItem

def markupStepWith (tag : Parse Tag) (items : List Markup) :
    Parse (Turn (List Markup) MarkupRun) := do
  if startsMarkup (← kind) then
    match ← attempt (markupItemWith tag) with
    | .ok item => return .again (items ++ [item])
    | .error problem => return .done ⟨items, some problem⟩
  else return .done ⟨items, none⟩

def markupRunWith (tag : Parse Tag) : Parse MarkupRun := iterate (markupStepWith tag) []

def renderSectionWith (tag : Parse Tag) : Parse MarkupRun := do
  let _ ← advance
  if ← eat .colon then markupRunWith tag
  else if ← eat .lbrace then
    let run ← markupRunWith tag
    if run.problem.isSome then return run
    else
      match ← attempt (expect .rbrace .renderEnd) with
      | .ok _ => return run
      | .error problem => return { run with problem := some problem }
  else unexpected .renderStart

section Markup

variable {b : Bool} {tag : Parse Tag}

theorem sameAt_markupItem : SameAt b markupItem markupItem := by
  unfold markupItem
  apply sameAt_bind sameAt_peek
  intro token
  split
  · exact sameAt_map sameAt_tag
  · apply sameAt_bind sameAt_advance
    intro _
    apply sameAt_bind sameAt_expression
    intro value
    exact sameAt_bind sameAt_expect fun _ => sameAt_pure _
  · exact sameAt_bind sameAt_advance fun _ => sameAt_pure _

variable (htag : SameAt b Grammar.tag tag)

include htag

theorem sameAt_markupItemWith : SameAt b markupItem (markupItemWith tag) := by
  refine sameAt_kind_if (fun s hkind => ?_) (sameAt_map htag) fun s hs _ => sameAt_markupItem s hs
  unfold markupItem run
  rw [peek_bind, show s.peek.kind = .tagOpen from hkind]

theorem sameAt_markupStepWith (items : List Markup) :
    SameAt b (markupStep items) (markupStepWith tag items) := by
  unfold markupStep markupStepWith
  apply sameAt_bind sameAt_kind
  intro kind
  split
  · apply sameAt_bind (sameAt_attempt (sameAt_markupItemWith htag))
    intro result
    cases result with
    | ok item => exact sameAt_pure _
    | error problem => exact sameAt_pure _
  · exact sameAt_pure _

theorem sameAt_markupRunWith : SameAt b markupRun (markupRunWith tag) :=
  sameAt_iterate (sameAt_markupStepWith htag) []

theorem sameAt_renderSectionWith : SameAt b renderSection (renderSectionWith tag) := by
  unfold renderSection renderSectionWith
  apply sameAt_bind sameAt_advance
  intro _
  apply sameAt_eat_if
  · exact sameAt_markupRunWith htag
  · apply sameAt_eat_if
    · apply sameAt_bind (sameAt_markupRunWith htag)
      intro run
      split
      · exact sameAt_pure run
      · apply sameAt_bind (sameAt_attempt sameAt_expect)
        intro result
        cases result with
        | ok _ => exact sameAt_pure run
        | error problem => exact sameAt_pure _
    · exact sameAt_unexpected

end Markup

/-! ## The grammar under watch -/

/-- What is done instead of the readers of a statement, of a member of a component and of an
expression in a tag. -/
structure Watch where
  onStatement : Parse Stmt → Parse Stmt
  onMember : Parse (Members × Option Problem) → Parse (Members × Option Problem)
  onEmbedded : Parse Expr → Parse Expr

/-- `alarm` where the head restriction is set, and `p` where it is not. -/
def Parse.unlessHead {α : Type} (alarm p : Parse α) : Parse α :=
  fun s => if s.inHead then alarm s else p s

namespace Watch

variable (w : Watch)

/-- The watch that goes off where the head restriction is set. -/
def ofAlarms (statement : Parse Stmt) (member : Parse (Members × Option Problem))
    (embedded : Parse Expr) : Watch :=
  ⟨unlessHead statement, unlessHead member, unlessHead embedded⟩

def exprRules : Nat → ExprRules
  | 0 => Grammar.exprRules 0
  | depth + 1 =>
    let rules := exprRules depth
    let tag := tagRule { rules with conditional := w.onEmbedded rules.conditional }
    let unary := unaryRule rules tag
    let binary := binaryRule rules unary
    { conditional := conditionalRule rules binary
      binary
      unary
      tag }

def expression : Parse Expr := fun s => (w.exprRules (s.rest.length + 1)).conditional s

def tag : Parse Tag := fun s => (w.exprRules (s.rest.length + 1)).tag s

def member (statement : Parse Stmt) (members : Members) : Parse (Members × Option Problem) :=
  w.onMember do
    if (← kind) = .keyword .renderKw then
      let run ← renderSectionWith w.tag
      return ({ members with body := members.body ++ run.items }, run.problem)
    else if (← kind) = .tagOpen then
      return ({ members with body := members.body ++ [.tag (← w.tag)] }, none)
    else Grammar.member statement members

def recoveringMember (statement : Parse Stmt) (members : Members) : Parse Members := do
  let (members, problem) ← match ← attempt (w.member statement members) with
    | .ok (members, problem) => pure (members, problem)
    | .error problem => pure (members, some problem)
  match problem with
  | none => return members
  | some problem =>
    let placeholder ← recover problem
    return { members with statements := members.statements ++ [placeholder] }

def memberStep (statement : Parse Stmt) (members : Members) :
    Parse (Turn Members Members) := do
  let s ← get
  if s.kind = .rbrace || s.atEnd then return .done members
  else if ← eat .semicolon then return .again members
  else
    let members ← w.recoveringMember statement members
    ensureProgress s.rest.length
    return .again members

def component (statement : Parse Stmt) (modifiers : List String) : Parse Component := do
  let start := (← advance).span
  let name ← expectIdentifier .componentName
  let _ ← expect .lbrace .componentStart
  let members ← iterate (w.memberStep statement) ⟨[], []⟩
  let _ ← expect .rbrace .componentEnd
  return ⟨name, modifiers, members.statements, members.body, ← spanFrom start⟩

def declaration (statement : Parse Stmt) : Parse (Function ⊕ Component) := do
  let modifiers ← modifiers
  let next ← kind
  if next = .keyword .componentKw then .inr <$> w.component statement modifiers
  else if next ∈ [.keyword .functionKw, .keyword .fnKw, .keyword .asyncKw] then
    .inl <$> function statement modifiers
  else unexpected .declaration

def exportItem (statement : Parse Stmt) : Parse ExportItem := do
  if startsDeclaration (← kind) then
    match ← w.declaration statement with
    | .inl function => return .function function
    | .inr component => return .component component
  else .statement <$> statement

def exportDecl (statement : Parse Stmt) : Parse Export := do
  let start := (← advance).span
  let isDefault ← eat (.keyword .defaultKw)
  let item ← w.exportItem statement
  return ⟨isDefault, item, ← spanFrom start⟩

def bareStatement (rules : StmtRules) : Parse Stmt := do
  if (← kind) = .keyword .exportKw then
    let start ← here
    let item ← w.exportDecl rules.statement
    stmtFrom start (.exportDecl · item)
  else Grammar.bareStatement rules

def statementRule (rules : StmtRules) : Parse Stmt := do
  let stmt ← w.bareStatement rules
  let _ ← eat .semicolon
  return stmt

def stmtRules : Nat → StmtRules
  | 0 => Grammar.stmtRules 0
  | depth + 1 =>
    { statement := w.onStatement (w.statementRule (stmtRules depth))
      ifStmt := ifRule (stmtRules depth) }

def statement : Parse Stmt := fun s => (w.stmtRules (s.rest.length + 1)).statement s

def item (program : Program) : Parse Program := do
  let next ← kind
  if next = .keyword .importKw then
    return { program with imports := program.imports ++ [← importDecl] }
  else if next = .keyword .exportKw then
    return { program with exports := program.exports ++ [← w.exportDecl w.statement] }
  else if startsDeclaration next then
    match ← w.declaration w.statement with
    | .inl function => return { program with functions := program.functions ++ [function] }
    | .inr component => return { program with components := program.components ++ [component] }
  else return { program with statements := program.statements ++ [← w.statement] }

def recoveringItem (program : Program) : Parse Program := do
  match ← attempt (w.item program) with
  | .ok program => return program
  | .error problem =>
    let placeholder ← recover problem
    if isClosing (← kind) then
      let _ ← advance
    return { program with statements := program.statements ++ [placeholder] }

def programStep (program : Program) : Parse (Turn Program Program) := do
  let s ← get
  if s.atEnd then return .done program
  else if ← eat .semicolon then return .again program
  else
    let program ← w.recoveringItem program
    ensureProgress s.rest.length
    return .again program

def program : Parse Program := iterate w.programStep .empty

/-! ## A watch that only goes off in heads -/

/-- Where the head restriction is lifted, the watch does what the readers do. -/
structure Quiet : Prop where
  statement {p q : Parse Stmt} : SameAt false p q → SameAt false p (w.onStatement q)
  member {p q : Parse (Members × Option Problem)} :
    SameAt false p q → SameAt false p (w.onMember q)
  embedded {p q : Parse Expr} : SameAt false p q → SameAt false p (w.onEmbedded q)

theorem sameAt_unlessHead {α : Type} {alarm p q : Parse α} (h : SameAt false p q) :
    SameAt false p (unlessHead alarm q) := by
  intro s hs
  have hrun : (unlessHead alarm q).run s = q.run s := by
    show (if s.inHead then alarm s else q s) = q s
    rw [hs]
    rfl
  rw [hrun]
  exact h s hs

theorem quiet_ofAlarms {statement : Parse Stmt} {member : Parse (Members × Option Problem)}
    {embedded : Parse Expr} : (ofAlarms statement member embedded).Quiet :=
  ⟨sameAt_unlessHead, sameAt_unlessHead, sameAt_unlessHead⟩

variable {w} {b : Bool}

/-! ### Expressions -/

theorem same_exprRules (hw : w.Quiet) (depth : Nat) :
    (Grammar.exprRules depth).Same (w.exprRules depth) := by
  induction depth with
  | zero => exact same_exprRules_zero
  | succ depth ih => exact ih.next (sameAt_tagRule (hw.embedded (ih.conditional false)) ih.tag)

/-- An expression is read in the same way in any state, also in a head: the tags in it stand where
the restriction is lifted. -/
theorem expression_eq (hw : w.Quiet) : w.expression = Grammar.expression :=
  eq_of_sameAt fun b => sameAt_of_eq
    (fun s => (same_exprRules hw (s.rest.length + 1)).conditional b) (fun _ => rfl) fun _ => rfl

theorem sameAt_tag (hw : w.Quiet) : SameAt false Grammar.tag w.tag :=
  sameAt_of_eq (fun s => (same_exprRules hw (s.rest.length + 1)).tag) (fun _ => rfl) fun _ => rfl

/-! ### Components and exports -/

section Bodies

variable (hw : w.Quiet) {statement statement' : Parse Stmt}
  (hstatement : SameAt false statement statement')

include hw hstatement

omit hw in
/-- Only statements are read with the given reader. -/
theorem sameAt_member_of_statement {members : Members} :
    SameAt false (Grammar.member statement members) (Grammar.member statement' members) := by
  have htag : SameAt false Grammar.tag Grammar.tag := Grammar.sameAt_tag
  unfold Grammar.member
  apply sameAt_bind sameAt_get
  intro s
  split
  · exact sameAt_bind (sameAt_self (sameAt_renderSectionWith htag)) fun run => sameAt_pure _
  · exact sameAt_bind htag fun tag => sameAt_pure _
  · exact sameAt_ite_bind (sameAt_method hstatement) hstatement fun stmt => sameAt_pure _
  · exact sameAt_bind hstatement fun stmt => sameAt_pure _

theorem sameAt_member {members : Members} :
    SameAt false (Grammar.member statement members) (w.member statement' members) := by
  have htag := sameAt_tag hw
  apply hw.member
  refine sameAt_kind_if (fun s hkind => ?_)
    (sameAt_bind (sameAt_renderSectionWith htag) fun run => sameAt_pure _) fun s hs _ => ?_
  · unfold Grammar.member run
    rw [get_bind, hkind]
  · refine sameAt_kind_if (fun s hkind => ?_) (sameAt_bind htag fun tag => sameAt_pure _)
      (fun s hs _ => sameAt_member_of_statement hstatement s hs) s hs
    unfold Grammar.member run
    rw [get_bind, hkind]

theorem sameAt_recoveringMember {members : Members} :
    SameAt false (Grammar.recoveringMember statement members)
      (w.recoveringMember statement' members) := by
  have hplaceholder (members : Members) (problem : Problem) :
      SameAt false
        (do
          let placeholder ← recover problem
          return { members with statements := members.statements ++ [placeholder] : Members })
        (do
          let placeholder ← recover problem
          return { members with statements := members.statements ++ [placeholder] }) :=
    sameAt_bind sameAt_recover fun placeholder => sameAt_pure _
  unfold Grammar.recoveringMember Watch.recoveringMember
  apply sameAt_bind (sameAt_attempt (sameAt_member hw hstatement))
  intro result
  rcases result with problem | ⟨members, _ | problem⟩
  · exact hplaceholder members problem
  · exact sameAt_pure members
  · exact hplaceholder members problem

theorem sameAt_memberStep {members : Members} :
    SameAt false (Grammar.memberStep statement members) (w.memberStep statement' members) := by
  unfold Grammar.memberStep Watch.memberStep
  apply sameAt_bind sameAt_get
  intro s
  split
  · exact sameAt_pure _
  · apply sameAt_eat_if
    · exact sameAt_pure _
    · apply sameAt_bind (sameAt_recoveringMember hw hstatement)
      intro members
      exact sameAt_bind sameAt_ensureProgress fun _ => sameAt_pure _

theorem sameAt_component {modifiers : List String} :
    SameAt false (Grammar.component statement modifiers) (w.component statement' modifiers) := by
  unfold Grammar.component Watch.component
  apply sameAt_bind sameAt_advance
  intro word
  apply sameAt_bind sameAt_expectIdentifier
  intro name
  apply sameAt_bind sameAt_expect
  intro _
  apply sameAt_bind (sameAt_iterate (fun _ => sameAt_memberStep hw hstatement) _)
  intro members
  apply sameAt_bind sameAt_expect
  intro _
  exact sameAt_bind sameAt_spanFrom fun span => sameAt_pure _

theorem sameAt_declaration :
    SameAt false (Grammar.declaration statement) (w.declaration statement') := by
  unfold Grammar.declaration Watch.declaration
  apply sameAt_bind sameAt_modifiers
  intro modifiers
  apply sameAt_bind sameAt_kind
  intro kind
  split
  · rw [if_pos rfl]
    exact sameAt_map (sameAt_component hw hstatement)
  case h_2 | h_3 | h_4 =>
    rw [if_neg (by decide), if_pos (by decide)]
    exact sameAt_map (sameAt_function hstatement)
  next hcomponent hfunction hfn hasync =>
    rw [if_neg hcomponent, if_neg (by simpa using ⟨hfunction, hfn, hasync⟩)]
    exact sameAt_unexpected

theorem sameAt_exportItem :
    SameAt false (Grammar.exportItem statement) (w.exportItem statement') := by
  unfold Grammar.exportItem Watch.exportItem
  apply sameAt_bind sameAt_kind
  intro kind
  split
  · apply sameAt_bind (sameAt_declaration hw hstatement)
    intro declared
    cases declared with
    | inl function => exact sameAt_pure _
    | inr component => exact sameAt_pure _
  · exact sameAt_map hstatement

theorem sameAt_exportDecl :
    SameAt false (Grammar.exportDecl statement) (w.exportDecl statement') := by
  unfold Grammar.exportDecl Watch.exportDecl
  apply sameAt_bind sameAt_advance
  intro word
  apply sameAt_bind sameAt_eat
  intro isDefault
  apply sameAt_bind (sameAt_exportItem hw hstatement)
  intro item
  exact sameAt_bind sameAt_spanFrom fun span => sameAt_pure _

end Bodies

/-! ### Statements -/

/-- Only an export holds what may be under watch and is not a statement. -/
theorem same_bareStatement {rules rules' : StmtRules} (hrules : rules.Same false rules') {s : State}
    (hs : s.inHead = false) (hkind : s.kind ≠ .keyword .exportKw) :
    (Grammar.bareStatement rules').run s = (Grammar.bareStatement rules).run s ∧
      ((Grammar.bareStatement rules).run s).2.inHead = false := by
  unfold Grammar.bareStatement run
  rw [here_bind, here_bind, kind_bind, kind_bind]
  generalize s.kind = kind at hkind
  split
  case h_1 | h_2 | h_3 => exact sameAt_variableStmt s hs
  case h_4 => exact sameAt_ifRule hrules s hs
  case h_5 => exact sameAt_whileStmt hrules.statement s hs
  case h_6 => exact sameAt_forStmt hrules.statement s hs
  case h_7 => exact sameAt_returnStmt s hs
  case h_8 | h_9 => exact sameAt_bind sameAt_advance (fun _ => sameAt_stmtFrom) s hs
  case h_10 => exact sameAt_throwStmt s hs
  case h_11 => exact sameAt_tryStmt hrules.statement s hs
  case h_12 => exact sameAt_asyncStmt hrules.statement s hs
  case h_13 | h_14 | h_15 | h_16 =>
    refine sameAt_bind sameAt_modifiers (fun modifiers => ?_) s hs
    exact sameAt_bind (sameAt_function hrules.statement) fun function => sameAt_stmtFrom
  case h_17 => exact sameAt_bind sameAt_importDecl (fun item => sameAt_stmtFrom) s hs
  case h_18 => exact absurd rfl hkind
  case h_19 => exact sameAt_map (sameAt_block hrules.statement) s hs
  case h_20 => exact sameAt_simpleStmt s hs

theorem sameAt_bareStatement (hw : w.Quiet) {rules rules' : StmtRules}
    (hrules : rules.Same false rules') :
    SameAt false (Grammar.bareStatement rules) (w.bareStatement rules') := by
  refine sameAt_kind_if (fun s hkind => ?_)
    (sameAt_bind sameAt_here fun start =>
      sameAt_bind (sameAt_exportDecl hw hrules.statement) fun item => sameAt_stmtFrom)
    fun s hs hkind => same_bareStatement hrules hs hkind
  unfold Grammar.bareStatement run
  rw [here_bind, kind_bind, hkind]
  rfl

theorem sameAt_statementRule (hw : w.Quiet) {rules rules' : StmtRules}
    (hrules : rules.Same false rules') :
    SameAt false (Grammar.statementRule rules) (w.statementRule rules') := by
  unfold Grammar.statementRule Watch.statementRule
  apply sameAt_bind (sameAt_bareStatement hw hrules)
  intro stmt
  exact sameAt_bind sameAt_eat fun _ => sameAt_pure stmt

theorem same_stmtRules (hw : w.Quiet) (depth : Nat) :
    (Grammar.stmtRules depth).Same false (w.stmtRules depth) := by
  induction depth with
  | zero => exact ⟨sameAt_fail, sameAt_fail⟩
  | succ depth ih => exact ⟨hw.statement (sameAt_statementRule hw ih), sameAt_ifRule ih⟩

theorem sameAt_statement (hw : w.Quiet) : SameAt false Grammar.statement w.statement :=
  sameAt_of_eq (fun s => (same_stmtRules hw (s.rest.length + 1)).statement) (fun _ => rfl)
    fun _ => rfl

/-! ### Programs -/

theorem sameAt_item (hw : w.Quiet) (program : Program) :
    SameAt false (Grammar.item program) (w.item program) := by
  have hstatement := sameAt_statement hw
  unfold Grammar.item Watch.item
  apply sameAt_bind sameAt_kind
  intro kind
  split
  · rw [if_pos rfl]
    exact sameAt_bind sameAt_importDecl fun decl => sameAt_pure _
  · rw [if_neg (by decide), if_pos rfl]
    exact sameAt_bind (sameAt_exportDecl hw hstatement) fun decl => sameAt_pure _
  next himport hexport =>
    rw [if_neg himport, if_neg hexport]
    split
    · apply sameAt_bind (sameAt_declaration hw hstatement)
      intro declared
      cases declared with
      | inl function => exact sameAt_pure _
      | inr component => exact sameAt_pure _
    · exact sameAt_bind hstatement fun stmt => sameAt_pure _

/-- Behind an item that cannot be read the restriction is lifted as before it. -/
theorem sameAt_recoveringItem (hw : w.Quiet) (program : Program) :
    SameAt false (Grammar.recoveringItem program) (w.recoveringItem program) := by
  unfold Grammar.recoveringItem Watch.recoveringItem
  apply sameAt_bind (sameAt_attempt (sameAt_item hw program))
  intro result
  cases result with
  | ok program => exact sameAt_pure program
  | error problem =>
      apply sameAt_bind sameAt_recover
      intro placeholder
      apply sameAt_bind sameAt_kind
      intro kind
      split
      · exact sameAt_bind sameAt_advance fun _ => sameAt_pure _
      · exact sameAt_pure _

theorem sameAt_programStep (hw : w.Quiet) (program : Program) :
    SameAt false (Grammar.programStep program) (w.programStep program) := by
  unfold Grammar.programStep Watch.programStep
  apply sameAt_bind sameAt_get
  intro s
  split
  · exact sameAt_pure _
  · apply sameAt_eat_if
    · exact sameAt_pure _
    · apply sameAt_bind (sameAt_recoveringItem hw program)
      intro program
      exact sameAt_bind sameAt_ensureProgress fun _ => sameAt_pure _

theorem sameAt_program (hw : w.Quiet) : SameAt false Grammar.program w.program :=
  sameAt_iterate (sameAt_programStep hw) .empty

end Watch

/-! ## The restriction is kept -/

/-- All readers of expressions and of markup leave the head restriction as it was, in every state,
whether they succeed or fail. -/
structure MarkupKeepsHead : Prop where
  nested {α : Type} (p : Parse α) : KeepsHead (nested p)
  headExpression : KeepsHead headExpression
  expression : KeepsHead expression
  binaryExpr (least : Nat) : KeepsHead (binaryExpr least)
  unaryExpr : KeepsHead unaryExpr
  operand : KeepsHead (operand allRules tag)
  suffix (object : Expr) : KeepsHead (suffix allRules object)
  primary : KeepsHead (primary allRules tag)
  expressionsUpTo (close : TokenKind) (expected : Expected) :
    KeepsHead (expressionsUpTo allRules close expected)
  objectLiteral : KeepsHead (objectLiteral allRules)
  property : KeepsHead (property allRules)
  tag : KeepsHead tag
  tagHeadStep (name : String) (head : TagHead) : KeepsHead (tagHeadStep allRules name head)
  tagAttribute : KeepsHead (tagAttribute allRules)
  attributeValue : KeepsHead (attributeValue allRules)
  children (name : String) : KeepsHead (iterate (childStep allRules name) [])
  renderSection : KeepsHead renderSection
  markupRun : KeepsHead markupRun
  markupItem : KeepsHead markupItem

theorem markupKeepsHead : MarkupKeepsHead := by
  have hconditional (b : Bool) : SameAt b allRules.conditional allRules.conditional :=
    same_allRules.conditional b
  constructor
  case nested => exact fun p s => rfl
  case headExpression => exact fun s => rfl
  case expression => exact keepsHead_of_sameAt hconditional
  case binaryExpr => exact fun least => keepsHead_of_sameAt (same_allRules.binary · least)
  case unaryExpr => exact keepsHead_of_sameAt same_allRules.unary
  case operand =>
    exact keepsHead_of_sameAt fun _ => sameAt_operand (hconditional false) same_allRules.tag
  case suffix => exact fun object => keepsHead_of_sameAt fun _ => sameAt_suffix (hconditional false)
  case primary =>
    exact keepsHead_of_sameAt fun _ => sameAt_primary (hconditional false) same_allRules.tag
  case expressionsUpTo =>
    exact fun _ _ => keepsHead_of_sameAt fun b => sameAt_expressionsUpTo (hconditional b)
  case objectLiteral => exact keepsHead_of_sameAt fun b => sameAt_objectLiteral (hconditional b)
  case property => exact keepsHead_of_sameAt fun b => sameAt_property (hconditional b)
  case tag => exact keepsHead_of_sameAt fun _ => sameAt_tag
  case tagHeadStep =>
    exact fun _ _ => keepsHead_of_sameAt fun b => sameAt_tagHeadStep (hconditional b)
  case tagAttribute => exact keepsHead_of_sameAt fun b => sameAt_tagAttribute (hconditional b)
  case attributeValue => exact keepsHead_of_sameAt fun b => sameAt_attributeValue (hconditional b)
  case children =>
    exact fun _ => keepsHead_of_sameAt fun b =>
      sameAt_iterate (fun _ => sameAt_childStep (hconditional b) sameAt_tag) []
  case renderSection => exact keepsHead_of_sameAt fun _ => sameAt_renderSectionWith sameAt_tag
  case markupRun => exact keepsHead_of_sameAt fun _ => sameAt_markupRunWith sameAt_tag
  case markupItem => exact keepsHead_of_sameAt fun _ => sameAt_markupItem

/-- The head restriction does not get out of a head. The readers of expressions and of markup leave
it as it was, also where they fail. And whatever would be done instead of a statement, a member of a
component or an expression in a tag that is to be read while the restriction is set, every
expression is read as it is in any state, and every list of tokens as a program, with the same
result and to the same state: no such call is made. -/
theorem head_restriction_contained (statement : Parse Stmt)
    (member : Parse (Members × Option Problem)) (embedded : Parse Expr) (tokens : List Token) :
    MarkupKeepsHead ∧
      (Watch.ofAlarms statement member embedded).expression = expression ∧
      (Watch.ofAlarms statement member embedded).program.run (.start tokens) =
        program.run (.start tokens) :=
  ⟨markupKeepsHead, Watch.expression_eq Watch.quiet_ofAlarms,
    (Watch.sameAt_program Watch.quiet_ofAlarms (.start tokens) rfl).1⟩

/-- `component A { x <p>{y}</p> }` -/
def labelledComponent : List Token :=
  [.ofKind (.keyword .componentKw) "component" .zero, .ofKind .identifier "A" .zero,
    .ofKind .lbrace "\x7b" .zero, .ofKind .identifier "x" .zero, .ofKind .tagOpen "p" .zero,
    .ofKind .tagEnd ">" .zero, .ofKind .expressionStart "\x7b" .zero,
    .ofKind .identifier "y" .zero, .ofKind .expressionEnd "\x7d" .zero,
    .ofKind .tagClose "p" .zero, .ofKind .rbrace "\x7d" .zero]

/-- The calls under watch are made: a watch that goes off in any state is noticed at each. -/
example :
    (program.run (.start labelledComponent)).2.diagnostics = [] ∧
    ∀ w ∈ [Watch.mk (fun _ => unexpected .declaration) id id,
        Watch.mk id (fun _ => unexpected .declaration) id,
        Watch.mk id id fun _ => unexpected .declaration],
      (w.program.run (.start labelledComponent)).2.diagnostics ≠ [] := by
  decide +kernel

end ComponentLang.Grammar
