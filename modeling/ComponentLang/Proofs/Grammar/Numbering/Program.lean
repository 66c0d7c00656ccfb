import ComponentLang.Proofs.Grammar.Ledger.Statement
import ComponentLang.Proofs.Grammar.Numbering.Expression
import ComponentLang.Proofs.Grammar.Provenance.Program

/-!
# The numbers in statements and programs

Declarations and statements have no numbers of their own, so a statement is below a bound if the
expressions in it are. Only the counting loop makes nodes, those that are not written down.
-/
namespace ComponentLang.Grammar

open Parse ComponentLang.TreePart

/-! ## Blocks -/

section Bodies

variable {statement : Parse Stmt} (hstatement : Ranks [] (fun s => [.stmt s]) statement)

include hstatement

theorem ranks_blockStep {close : TokenKind} {stmts : List Stmt} :
    Ranks (stmts.map .stmt) (turnParts (fun ss => ss.map .stmt) fun ss => ss.map .stmt)
      (blockStep statement close stmts) := by
  unfold blockStep
  apply ranks_get_bind
  intro s
  split
  · exact ranks_pure fun _ h => h
  · apply ranks_eat_if
    · exact ranks_pure fun _ h => h
    · apply ranks_then (ranks_recovering hstatement)
      intro stmt
      apply ranks_idle_bind idle_ensureProgress
      intro _
      exact ranks_pure fun _ h => by simpa [turnParts] using h

theorem ranks_block {bracket : Bracket} :
    Ranks [] (fun b => [.block b]) (block statement bracket) := by
  unfold block
  apply ranks_here_bind
  intro start
  apply ranks_eat_if
  · apply ranks_bind (ranks_iterate (fun _ => ranks_blockStep hstatement) [])
    intro stmts
    apply ranks_expect_bind
    intro _
    apply ranks_spanFrom_bind
    intro span
    exact ranks_pure fun _ h => by simpa using h
  · exact ranks_unexpected

theorem ranks_body : Ranks [] (fun b => [.block b]) (body statement) := by
  unfold body
  apply ranks_kind_bind
  intro kind
  split
  · exact ranks_block hstatement
  · exact ranks_block hstatement
  · exact ranks_unexpected

end Bodies

/-! ## Markup of components -/

/-- The parts that have been read of a component. -/
def Members.parts (members : Members) : List TreePart :=
  members.statements.map .stmt ++ members.body.map .markup

theorem Members.allBelow_concat {members : Members} {stmt : Stmt} {bound : Nat}
    (h : AllBelow bound (members.parts ++ [.stmt stmt])) :
    AllBelow bound
      { members with statements := members.statements ++ [stmt] : Members }.parts := by
  simp only [Members.parts, List.map_append, allBelow_append] at h ⊢
  exact ⟨⟨h.1.1, h.2⟩, h.1.2⟩

theorem ranks_markupItem : Ranks [] (fun item => [.markup item]) markupItem := by
  unfold markupItem
  apply ranks_peek_bind
  intro token
  split
  · exact ranks_map ranks_tag fun _ _ h => by simpa [Markup.children] using h
  · apply ranks_advance_bind
    intro _
    apply ranks_then ranks_expression
    intro value
    apply ranks_expect_bind
    intro _
    exact ranks_pure fun _ h => by simpa [Markup.children] using h
  · apply ranks_advance_bind
    intro _
    exact ranks_pure fun _ _ => by simp [Markup.children]

/-- What was read before a problem is kept. -/
theorem ranks_markupRun : Ranks [] (fun run => run.items.map .markup) markupRun := by
  unfold markupRun
  refine ranks_iterate (n := fun items => items.map .markup) (fun items => ?_) []
  unfold markupStep
  apply ranks_kind_bind
  intro kind
  split
  · apply ranks_attempt_bind ranks_markupItem.frame
    · intro item
      exact ranks_pure fun _ h => by simpa [turnParts] using h
    · exact fun problem => ranks_pure fun _ h => h
  · exact ranks_pure fun _ h => h

theorem ranks_renderSection : Ranks [] (fun run => run.items.map .markup) renderSection := by
  unfold renderSection
  apply ranks_advance_bind
  intro _
  apply ranks_eat_if
  · exact ranks_markupRun
  · apply ranks_eat_if
    · apply ranks_bind ranks_markupRun
      intro run
      split
      · exact ranks_pure fun _ h => h
      · have hclosed : Ranks (run.items.map .markup) (fun _ => run.items.map .markup)
            (expect .rbrace .renderEnd) := by
          rw [← bind_pure (expect .rbrace .renderEnd)]
          exact ranks_expect_bind fun _ => ranks_pure fun _ h => h
        apply ranks_attempt_bind hclosed
        · exact fun _ => ranks_pure fun _ h => h
        · exact fun problem => ranks_pure fun _ h => h
    · exact ranks_unexpected

/-! ## Functions and components -/

section Bodies

variable {statement : Parse Stmt} (hstatement : Ranks [] (fun s => [.stmt s]) statement)

include hstatement

theorem ranks_function {modifiers : List String} :
    Ranks [] (fun f => [.function f]) (function statement modifiers) := by
  unfold function
  apply ranks_here_bind
  intro start
  apply ranks_eat_bind
  intro async
  apply ranks_idle_bind idle_functionWord
  intro _
  apply ranks_expectIdentifier_bind
  intro name
  apply ranks_expect_bind
  intro _
  apply ranks_idle_bind idle_params
  intro params
  apply ranks_expect_bind
  intro _
  apply ranks_idle_bind idle_typeExpr?
  intro returnType
  apply ranks_then (ranks_block hstatement)
  intro body
  apply ranks_spanFrom_bind
  intro span
  exact ranks_pure fun _ h => by simpa using h

theorem ranks_method : Ranks [] (fun s => [.stmt s]) (method statement) := by
  unfold method
  apply ranks_here_bind
  intro start
  apply ranks_expectIdentifier_bind
  intro name
  apply ranks_then (ranks_block hstatement)
  intro body
  apply ranks_spanFrom_bind
  intro span
  exact ranks_pure fun _ h => by simpa [Stmt.children] using h

theorem ranks_member {members : Members} :
    Ranks members.parts (fun read => read.1.parts) (member statement members) := by
  unfold member
  apply ranks_get_bind
  intro s
  split
  · apply ranks_then ranks_renderSection
    intro run
    exact ranks_pure fun _ h => by simpa [Members.parts, and_assoc] using h
  · apply ranks_then ranks_tag
    intro tag
    exact ranks_pure fun _ h => by simpa [Members.parts, Markup.children, and_assoc] using h
  · apply ranks_ite_bind (ranks_method hstatement) hstatement
    intro stmt
    exact ranks_pure fun _ h => Members.allBelow_concat h
  · apply ranks_then hstatement
    intro stmt
    exact ranks_pure fun _ h => Members.allBelow_concat h

theorem ranks_recoveringMember {members : Members} :
    Ranks members.parts Members.parts (recoveringMember statement members) := by
  have hplaceholder : ∀ {members : Members} {problem : Problem},
      Ranks members.parts Members.parts (do
        let placeholder ← recover problem
        return { members with statements := members.statements ++ [placeholder] }) := by
    intro members problem
    apply ranks_then ranks_recover
    intro placeholder
    exact ranks_pure fun _ h => Members.allBelow_concat h
  unfold recoveringMember
  apply ranks_attempt_bind (ranks_member hstatement)
  · rintro ⟨members, problem⟩
    cases problem with
    | none => exact ranks_pure fun _ h => h
    | some problem => exact hplaceholder
  · exact fun problem => hplaceholder

theorem ranks_memberStep {members : Members} :
    Ranks members.parts (turnParts Members.parts Members.parts) (memberStep statement members) := by
  unfold memberStep
  apply ranks_get_bind
  intro s
  split
  · exact ranks_pure fun _ h => h
  · apply ranks_eat_if
    · exact ranks_pure fun _ h => h
    · apply ranks_bind (ranks_recoveringMember hstatement)
      intro members
      exact ranks_idle_bind idle_ensureProgress fun _ => ranks_pure fun _ h => h

theorem ranks_component {modifiers : List String} :
    Ranks [] (fun c => [.component c]) (component statement modifiers) := by
  unfold component
  apply ranks_advance_bind
  intro word
  apply ranks_expectIdentifier_bind
  intro name
  apply ranks_expect_bind
  intro _
  apply ranks_bind (ranks_iterate (fun _ => ranks_memberStep hstatement) ⟨[], []⟩)
  intro members
  apply ranks_expect_bind
  intro _
  apply ranks_spanFrom_bind
  intro span
  exact ranks_pure fun _ h => by simpa [Members.parts] using h

theorem ranks_declaration :
    Ranks [] (fun declared => [Sum.elim .function .component declared])
      (declaration statement) := by
  unfold declaration
  apply ranks_idle_bind idle_modifiers
  intro modifiers
  apply ranks_kind_bind
  intro kind
  split
  case h_1 => exact ranks_map (ranks_component hstatement) fun _ _ h => h
  case h_2 | h_3 | h_4 => exact ranks_map (ranks_function hstatement) fun _ _ h => h
  case h_5 => exact ranks_unexpected

theorem ranks_exportItem : Ranks [] (fun item => [item.part]) (exportItem statement) := by
  unfold exportItem
  apply ranks_kind_bind
  intro kind
  split
  · apply ranks_bind (ranks_declaration hstatement)
    intro declared
    cases declared with
    | inl function => exact ranks_pure fun _ h => h
    | inr component => exact ranks_pure fun _ h => h
  · exact ranks_map hstatement fun _ _ h => h

theorem ranks_exportDecl : Ranks [] (fun e => [.exportDecl e]) (exportDecl statement) := by
  unfold exportDecl
  apply ranks_advance_bind
  intro word
  apply ranks_eat_bind
  intro isDefault
  apply ranks_bind (ranks_exportItem hstatement)
  intro item
  apply ranks_spanFrom_bind
  intro span
  exact ranks_pure fun _ h => by simpa using h

end Bodies

/-! ## Simple statements -/

/-- A statement is below a bound if what stands in it is. -/
theorem ranks_stmtFrom {g : List TreePart} {start : Span} {build : Span → Stmt}
    (h : ∀ span bound, AllBelow bound g → AllBelow bound (build span).children) :
    Ranks g (fun s => [.stmt s]) (stmtFrom start build) :=
  ranks_spanFrom_bind fun span => ranks_pure fun bound hg => by
    simpa using h span bound hg

theorem ranks_simpleStmt : Ranks [] (fun s => [.stmt s]) simpleStmt := by
  unfold simpleStmt
  apply ranks_here_bind
  intro start
  apply ranks_then ranks_expression
  intro target
  apply ranks_kind_bind
  intro kind
  split
  · exact ranks_stmtFrom fun _ _ h => h
  · split
    · apply ranks_advance_bind
      intro _
      apply ranks_then ranks_expression
      intro value
      exact ranks_stmtFrom fun _ _ h => h
    · exact ranks_throw

theorem ranks_variableStmt : Ranks [] (fun s => [.stmt s]) variableStmt := by
  unfold variableStmt
  apply ranks_advance_bind
  intro word
  apply ranks_expectIdentifier_bind
  intro name
  apply ranks_idle_bind idle_typeExpr?
  intro typeExpr
  apply ranks_eat_bind
  intro taken
  apply ranks_ite_bind (ranks_some ranks_expression) ranks_none
  intro init
  exact ranks_stmtFrom fun _ _ h => h

theorem ranks_returnStmt : Ranks [] (fun s => [.stmt s]) returnStmt := by
  unfold returnStmt
  apply ranks_advance_bind
  intro word
  apply ranks_kind_bind
  intro kind
  apply ranks_ite_bind (ranks_some ranks_expression) ranks_none
  intro value
  exact ranks_stmtFrom fun _ _ h => h

theorem ranks_throwStmt : Ranks [] (fun s => [.stmt s]) throwStmt := by
  unfold throwStmt
  apply ranks_advance_bind
  intro word
  apply ranks_then ranks_expression
  intro value
  exact ranks_stmtFrom fun _ _ h => h

theorem ranks_impliedNumber {text : String} {span : Span} :
    Ranks [] (fun e => [.expr e]) (impliedNumber text span) := by
  unfold impliedNumber
  exact ranks_node (fun _ => rfl) (fun _ => rfl) fun _ h => h

theorem ranks_loopBounds {span : Span} :
    Ranks [] (fun bounds => [.expr bounds.1, .expr bounds.2]) (loopBounds span) := by
  unfold loopBounds
  apply ranks_then ranks_expression
  intro first
  apply ranks_eat_if
  · apply ranks_then ranks_expression
    intro last
    exact ranks_expect_bind fun _ => ranks_pure fun _ h => h
  · apply ranks_then ranks_impliedNumber
    intro zero
    exact ranks_expect_bind fun _ => ranks_pure fun _ h => by simpa [and_comm] using h

/-- The nodes that are not written down come after the bounds and the body. -/
theorem ranks_countingLoop {start span : Span} {name : String} {bounds : Expr × Expr}
    {body : Block} :
    Ranks [.expr bounds.1, .expr bounds.2, .block body] (fun s => [.stmt s])
      (countingLoop start span name bounds body) := by
  unfold countingLoop
  refine ranks_node_bind (e := fun node => .identifier node name) (fun _ => rfl)
    (fun _ _ => by simp [Expr.children]) fun counter => ?_
  refine ranks_node_bind (e := fun node => .binary node (.identifier counter name) .lt bounds.2)
    (fun _ => rfl) (fun node h => ?_) fun test => ?_
  · simp only [allBelow_append, allBelow_cons, Expr.children] at h ⊢
    exact ⟨h.2.1, h.1.2.1, allBelow_nil⟩
  · refine ranks_node_bind (e := fun node => .identifier node name) (fun _ => rfl)
      (fun _ _ => by simp [Expr.children]) fun target => ?_
    apply ranks_then ranks_impliedNumber
    intro one
    refine ranks_stmtFrom fun _ bound h => ?_
    simp only [allBelow_append, allBelow_cons, allBelow_nil, and_true] at h
    obtain ⟨⟨⟨⟨⟨hfirst, -, hbody⟩, -⟩, htest⟩, htarget⟩, hone⟩ := h
    simp [Stmt.children, hfirst, htest, htarget, hone, hbody]

theorem ranks_loopInit : Ranks [] (fun s => s.toList.map .stmt) loopInit := by
  unfold loopInit
  apply ranks_kind_bind
  intro kind
  split
  · exact ranks_none
  · split
    · exact ranks_some ranks_variableStmt
    · exact ranks_some ranks_simpleStmt

/-! ## Compound statements -/

section Compound

variable {statement : Parse Stmt} (hstatement : Ranks [] (fun s => [.stmt s]) statement)

include hstatement

theorem ranks_whileStmt : Ranks [] (fun s => [.stmt s]) (whileStmt statement) := by
  unfold whileStmt
  apply ranks_advance_bind
  intro word
  apply ranks_then ranks_headExpression
  intro test
  apply ranks_then (ranks_body hstatement)
  intro body
  exact ranks_stmtFrom fun _ _ h => h

theorem ranks_clauseLoop {start : Span} :
    Ranks [] (fun s => [.stmt s]) (clauseLoop statement start) := by
  unfold clauseLoop
  apply ranks_expect_bind
  intro _
  apply ranks_then ranks_loopInit
  intro init
  apply ranks_expect_bind
  intro _
  apply ranks_kind_bind
  intro kind
  apply ranks_ite_bind ranks_none (ranks_some ranks_expression)
  intro test
  apply ranks_expect_bind
  intro _
  apply ranks_kind_bind
  intro kind
  apply ranks_ite_bind ranks_none (ranks_some ranks_simpleStmt)
  intro update
  apply ranks_expect_bind
  intro _
  apply ranks_then (ranks_body hstatement)
  intro body
  exact ranks_stmtFrom fun _ _ h => by simpa [Stmt.children, and_assoc] using h

theorem ranks_forStmt : Ranks [] (fun s => [.stmt s]) (forStmt statement) := by
  unfold forStmt
  apply ranks_advance_bind
  intro word
  apply ranks_kind_bind
  intro kind
  split
  · exact ranks_clauseLoop hstatement
  · apply ranks_here_bind
    intro span
    apply ranks_expectIdentifier_bind
    intro name
    apply ranks_eat_if
    · apply ranks_then ranks_headExpression
      intro iterable
      apply ranks_then (ranks_body hstatement)
      intro body
      exact ranks_stmtFrom fun _ _ h => h
    · apply ranks_eat_if
      · apply ranks_bind ranks_loopBounds
        intro bounds
        apply ranks_then (ranks_body hstatement)
        intro body
        exact ranks_countingLoop
      · exact ranks_unexpected

theorem ranks_catchClause : Ranks [] (fun c => [.block c.body]) (catchClause statement) := by
  have hbody : ∀ {param : Option String}, Ranks [] (fun c : CatchClause => [.block c.body])
      (do return ⟨param, ← body statement⟩) := by
    intro param
    apply ranks_bind (ranks_body hstatement)
    intro body
    exact ranks_pure fun _ h => h
  unfold catchClause
  apply ranks_eat_if
  · apply ranks_expectIdentifier_bind
    intro name
    apply ranks_expect_bind
    intro _
    exact hbody
  · exact hbody

theorem ranks_tryStmt : Ranks [] (fun s => [.stmt s]) (tryStmt statement) := by
  unfold tryStmt
  apply ranks_advance_bind
  intro word
  apply ranks_then (ranks_body hstatement)
  intro block
  apply ranks_eat_bind
  intro taken
  apply ranks_ite_bind (ranks_some (ranks_catchClause hstatement)) ranks_none
  intro handler
  apply ranks_eat_bind
  intro taken
  apply ranks_ite_bind (ranks_some (ranks_body hstatement)) ranks_none
  intro cleanup
  dsimp only
  split
  · exact ranks_unexpected
  · exact ranks_stmtFrom fun _ _ h => h

omit hstatement in
theorem ranks_asyncSegment {α : Type} {part : α → TreePart} {word : Keyword} {content : Parse α}
    {expected : Expected} (hcontent : Ranks [] (fun a => [part a]) content) :
    Ranks [] (fun a => a.toList.map part) (asyncSegment word content expected) := by
  unfold asyncSegment
  apply ranks_get_bind
  intro s
  split
  · apply ranks_advance_bind
    intro _
    apply ranks_advance_bind
    intro _
    apply ranks_then hcontent
    intro value
    exact ranks_expect_bind fun _ => ranks_pure fun _ h => h
  · exact ranks_none

theorem ranks_asyncStmt : Ranks [] (fun s => [.stmt s]) (asyncStmt statement) := by
  unfold asyncStmt
  apply ranks_advance_bind
  intro word
  apply ranks_expect_bind
  intro _
  apply ranks_kind_bind
  intro kind
  split
  · apply ranks_then (ranks_block hstatement)
    intro block
    apply ranks_then (ranks_asyncSegment (ranks_catchClause hstatement))
    intro handler
    apply ranks_then (ranks_asyncSegment (ranks_body hstatement))
    intro cleanup
    apply ranks_expect_bind
    intro _
    exact ranks_stmtFrom fun _ _ h => h
  · exact ranks_unexpected

end Compound

/-! ## All statements -/

/-- Both rules read a statement that is below the next number. -/
structure StmtRules.Rank (rules : StmtRules) : Prop where
  statement : Ranks [] (fun s => [.stmt s]) rules.statement
  ifStmt : Ranks [] (fun s => [.stmt s]) rules.ifStmt

variable {rules : StmtRules}

theorem ranks_ifRule (hrules : rules.Rank) : Ranks [] (fun s => [.stmt s]) (ifRule rules) := by
  have hbody := ranks_body hrules.statement
  unfold ifRule
  apply ranks_advance_bind
  intro word
  apply ranks_then ranks_headExpression
  intro test
  apply ranks_then hbody
  intro consequent
  have hstmt : ∀ {start : Span} {alternate : Option Stmt},
      Ranks ([] ++ [.expr test] ++ [.block consequent] ++ alternate.toList.map .stmt)
        (fun s => [.stmt s]) (stmtFrom start (.ifElse · test consequent alternate)) :=
    ranks_stmtFrom fun _ _ h => h
  have hblock : Ranks [] (fun s => s.toList.map .stmt)
      ((fun b => some (.block b)) <$> body rules.statement) :=
    ranks_map hbody fun _ _ h => by simpa [Stmt.children] using h
  apply ranks_eat_if
  · apply ranks_kind_bind
    intro kind
    exact ranks_ite_bind (ranks_some hrules.ifStmt) hblock fun _ => hstmt
  · exact ranks_then ranks_none fun _ => hstmt

theorem ranks_bareStatement (hrules : rules.Rank) :
    Ranks [] (fun s => [.stmt s]) (bareStatement rules) := by
  unfold bareStatement
  apply ranks_here_bind
  intro start
  apply ranks_kind_bind
  intro kind
  split
  case h_1 | h_2 | h_3 => exact ranks_variableStmt
  case h_4 => exact ranks_ifRule hrules
  case h_5 => exact ranks_whileStmt hrules.statement
  case h_6 => exact ranks_forStmt hrules.statement
  case h_7 => exact ranks_returnStmt
  case h_8 | h_9 =>
    apply ranks_advance_bind
    intro _
    exact ranks_stmtFrom fun _ _ h => h
  case h_10 => exact ranks_throwStmt
  case h_11 => exact ranks_tryStmt hrules.statement
  case h_12 => exact ranks_asyncStmt hrules.statement
  case h_13 | h_14 | h_15 | h_16 =>
    apply ranks_idle_bind idle_modifiers
    intro modifiers
    apply ranks_then (ranks_function hrules.statement)
    intro function
    exact ranks_stmtFrom fun _ _ h => h
  case h_17 =>
    apply ranks_idle_bind idle_importDecl
    intro item
    exact ranks_stmtFrom fun _ _ _ => by simp [Stmt.children]
  case h_18 =>
    apply ranks_then (ranks_exportDecl hrules.statement)
    intro item
    exact ranks_stmtFrom fun _ _ h => h
  case h_19 =>
    exact ranks_map (ranks_block hrules.statement) fun _ _ h => by simpa [Stmt.children] using h
  case h_20 => exact ranks_simpleStmt

theorem ranks_statementRule (hrules : rules.Rank) :
    Ranks [] (fun s => [.stmt s]) (statementRule rules) := by
  unfold statementRule
  apply ranks_bind (ranks_bareStatement hrules)
  intro stmt
  exact ranks_eat_bind fun _ => ranks_pure fun _ h => h

theorem rank_stmtRules (depth : Nat) : (stmtRules depth).Rank := by
  induction depth with
  | zero => exact ⟨ranks_fail, ranks_fail⟩
  | succ depth ih => exact ⟨ranks_statementRule ih, ranks_ifRule ih⟩

theorem ranks_statement : Ranks [] (fun s => [.stmt s]) statement :=
  ranks_of_eq (fun s => (rank_stmtRules (s.rest.length + 1)).statement) fun _ => rfl

end ComponentLang.Grammar

/-! ## The numbers of a program

The items of a program are read one after the other. In the end the numbers decrease on every way
down the program, and without a problem none of them has been dropped. -/

namespace ComponentLang

open TreePart

@[simp] theorem TreePart.below_program {p : Program} {bound : Nat} :
    (TreePart.program p).Below bound ↔
      AllBelow bound (p.exports.map .exportDecl) ∧ AllBelow bound (p.functions.map .function) ∧
        AllBelow bound (p.components.map .component) ∧ AllBelow bound (p.statements.map .stmt) := by
  have himports : AllBelow bound (p.imports.map .importDecl) :=
    List.forall_mem_map.2 fun _ _ => below_importDecl
  rw [below_of_number? rfl]
  simp only [children, allBelow_append, himports, true_and]

namespace Grammar

open Parse State

/-! ### Items -/

/-- One more statement of a program. -/
theorem below_concat {program : Program} {stmt : Stmt} {bound : Nat}
    (h : AllBelow bound ([.program program] ++ [.stmt stmt])) :
    AllBelow bound
      [.program { program with statements := program.statements ++ [stmt] }] := by
  simpa [and_assoc] using h

theorem ranks_item {program : Program} :
    Ranks [.program program] (fun p => [.program p]) (item program) := by
  unfold item
  apply ranks_kind_bind
  intro kind
  split
  · apply ranks_idle_bind idle_importDecl
    intro decl
    exact ranks_pure fun _ h => by simpa using h
  · apply ranks_then (ranks_exportDecl ranks_statement)
    intro decl
    refine ranks_pure fun _ h => ?_
    simp only [List.singleton_append, allBelow_cons, below_program, List.map_append,
      allBelow_append, List.map_cons, List.map_nil] at h ⊢
    exact ⟨⟨⟨h.1.1, h.2⟩, h.1.2⟩, allBelow_nil⟩
  · split
    · apply ranks_then (ranks_declaration ranks_statement)
      intro declared
      cases declared with
      | inl function =>
          refine ranks_pure fun _ h => ?_
          simp only [List.singleton_append, allBelow_cons, below_program, List.map_append,
            allBelow_append, List.map_cons, List.map_nil] at h ⊢
          obtain ⟨⟨hexports, hfunctions, hrest⟩, hfunction⟩ := h
          exact ⟨⟨hexports, ⟨hfunctions, hfunction⟩, hrest⟩, allBelow_nil⟩
      | inr component =>
          refine ranks_pure fun _ h => ?_
          simp only [List.singleton_append, allBelow_cons, below_program, List.map_append,
            allBelow_append, List.map_cons, List.map_nil] at h ⊢
          obtain ⟨⟨hexports, hfunctions, hcomponents, hstatements⟩, hcomponent⟩ := h
          exact ⟨⟨hexports, hfunctions, ⟨hcomponents, hcomponent⟩, hstatements⟩, allBelow_nil⟩
    · apply ranks_then ranks_statement
      intro stmt
      exact ranks_pure fun _ h => below_concat h

theorem ranks_recoveringItem {program : Program} :
    Ranks [.program program] (fun p => [.program p]) (recoveringItem program) := by
  unfold recoveringItem
  apply ranks_attempt_bind ranks_item
  · exact fun read => ranks_pure fun _ h => h
  · intro problem
    apply ranks_then ranks_recover
    intro placeholder
    apply ranks_kind_bind
    intro kind
    split
    · exact ranks_advance_bind fun _ => ranks_pure fun _ h => below_concat h
    · exact ranks_pure fun _ h => below_concat h

theorem ranks_program : Ranks [.program .empty] (fun p => [.program p]) program := by
  refine ranks_iterate (n := fun p => [.program p]) (fun read => ?_) .empty
  unfold programStep
  apply ranks_get_bind
  intro s
  split
  · exact ranks_pure fun _ h => h
  · apply ranks_eat_if
    · exact ranks_pure fun _ h => h
    · apply ranks_bind ranks_recoveringItem
      intro read
      exact ranks_idle_bind idle_ensureProgress fun _ => ranks_pure fun _ h => h

/-! ### A whole program -/

/-- The program is below the number that the next node would have had. -/
theorem below_parse (tokens : List Token) :
    (TreePart.program (parse tokens).program).Below (program.run (.start tokens)).2.nextId := by
  obtain ⟨read, hok, -⟩ := (gives_program (n := 0) (s := .start tokens)).exists_ok
  have hread : (parse tokens).program = read := by
    change (program.run (.start tokens)).1.toOption.getD .empty = read
    rw [hok]
    rfl
  have hempty : AllBelow (State.start tokens).nextId [.program .empty] := by
    simp [Program.empty]
  rw [hread]
  exact ((ranks_program (.start tokens) hempty).good_of_ok hok).1 _ (List.mem_singleton_self _)

/-- Without problems every number that was given out is in the program. -/
theorem visited_perm {tokens : List Token} (h : (parse tokens).diagnostics = []) :
    (parse tokens).program.visited.Perm
      (List.range (program.run (.start tokens)).2.nextId) := by
  have haccounts := accounts_parse tokens
  have hdiagnostics : (program.run (.start tokens)).2.diagnostics = [] :=
    List.reverse_eq_nil_iff.1 h
  have hunlimited : ¬ (program.run (.start tokens)).2.Limited := by
    rintro ⟨d, hd, -⟩
    rw [problem_mem_entries, hdiagnostics] at hd
    exact List.not_mem_nil hd
  have hexact := (haccounts.exact ((heldProgram_whole _).2 (placeholders_eq_nil h))).resolve_left
    hunlimited
  have hnumbers := congrArg (Multiset.filterMap Entry.number?) hexact
  rw [State.numbers_entries, State.entries_start, add_zero, heldProgram_entries, filterMap_number?]
    at hnumbers
  exact Multiset.coe_eq_coe.1 hnumbers.symm

/-- Every expression of a program has a number of its own, which is greater than those of all
expressions in it, however deep they are. If there were no problems, the numbers are those from zero
on, as many as there are expressions. -/
theorem parse_numbers (tokens : List Token) :
    let parsed := parse tokens
    parsed.program.visited.Nodup ∧
    (∀ e inner, parsed.program.Contains (.expr e) →
      (∃ child ∈ e.children, (TreePart.expr inner).Within child) → inner.id < e.id) ∧
    (parsed.diagnostics = [] →
      parsed.program.visited.Perm (List.range parsed.program.visited.length)) := by
  intro parsed
  refine ⟨nodup_visited tokens, ?_, fun h => ?_⟩
  · rintro e inner hcontains ⟨child, hchild, hinner⟩
    have he := below_expr.1 ((below_parse tokens).within hcontains)
    have hbelow := (he.2 child hchild).within hinner
    exact (below_expr.1 hbelow).1
  · have hperm := visited_perm h
    have hlength := hperm.length_eq
    rw [List.length_range] at hlength
    exact hlength ▸ hperm

/-- `for i (3) { f(!v) }`, of which five nodes are not written down. -/
def countedLoop : List Token :=
  [.ofKind (.keyword .forKw) "for" ⟨0, 3, 1, 1⟩, .ofKind .identifier "i" ⟨4, 5, 1, 5⟩,
    .ofKind .lparen "(" ⟨6, 7, 1, 7⟩, .ofKind (.number .int) "3" ⟨7, 8, 1, 8⟩,
    .ofKind .rparen ")" ⟨8, 9, 1, 9⟩, .ofKind .lbrace "\x7b" ⟨10, 11, 1, 11⟩,
    .ofKind .identifier "f" ⟨12, 13, 1, 13⟩, .ofKind .lparen "(" ⟨13, 14, 1, 14⟩,
    .ofKind .valueBinding "v" ⟨14, 16, 1, 15⟩, .ofKind .rparen ")" ⟨16, 17, 1, 17⟩,
    .ofKind .rbrace "\x7d" ⟨18, 19, 1, 19⟩]

theorem parse_numbers_countedLoop :
    (parse countedLoop).diagnostics = [] ∧
      (parse countedLoop).program.visited.Perm
        (List.range (parse countedLoop).program.visited.length) ∧
      (parse countedLoop).program.visited = [1, 6, 5, 0, 7, 8, 4, 2, 3] := by
  have hnone : (parse countedLoop).diagnostics = [] := by decide +kernel
  exact ⟨hnone, (parse_numbers countedLoop).2.2 hnone, by decide +kernel⟩

end Grammar

end ComponentLang
