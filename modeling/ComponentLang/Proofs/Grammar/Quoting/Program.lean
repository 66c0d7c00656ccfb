import ComponentLang.Grammar.Program
import ComponentLang.Grammar.Statement
import ComponentLang.Proofs.Grammar.Program
import ComponentLang.Proofs.Grammar.Quoting.Expression
import ComponentLang.Proofs.Grammar.Texts.Statement

/-!
# What problems in statements and programs quote

Outside tags a problem shows nothing but the token that is found. A render section gives its problem
away with what was read before it, and the problem is reported by the component.
-/
namespace ComponentLang.Grammar

open Parse ComponentLang.TreePart

variable {tokens : List Token}

abbrev NamedStmt (tokens : List Token) (s : Stmt) : Prop := Named tokens (.stmt s)

abbrev NamedBlock (tokens : List Token) (b : Block) : Prop := Named tokens (.block b)

/-! ## Blocks -/

section Bodies

variable {statement : Parse Stmt} (hstatement : Quotes tokens (NamedStmt tokens) statement)

include hstatement

theorem quotes_blockStep {close : TokenKind} {stmts : List Stmt}
    (hstmts : ∀ s ∈ stmts, NamedStmt tokens s) :
    Quotes tokens (TurnIs (fun ss => ∀ s ∈ ss, NamedStmt tokens s)
      fun ss => ∀ s ∈ ss, NamedStmt tokens s) (blockStep statement close stmts) := by
  unfold blockStep
  apply quotes_get_bind
  intro s
  split
  · exact quotes_pure hstmts
  · apply quotes_eat_if
    · exact quotes_pure hstmts
    · apply quotes_bind (quotes_recovering hstatement)
      intro stmt hstmt
      apply quotes_bind quotes_ensureProgress
      intro _ _
      exact quotes_pure (forall_mem_concat hstmts hstmt)

theorem quotes_block {bracket : Bracket} :
    Quotes tokens (NamedBlock tokens) (block statement bracket) := by
  unfold block
  apply quotes_here_bind
  intro start
  apply quotes_eat_if
  · apply quotes_bind (quotes_iterate (fun _ => quotes_blockStep hstatement)
      (List.forall_mem_nil _))
    intro stmts hstmts
    refine quotes_expect_bind (closing_ne_eof bracket) rfl fun _ => ?_
    apply quotes_spanFrom_bind
    intro span
    exact quotes_pure (spelled_block.2 hstmts)
  · exact quotes_unexpected rfl

theorem quotes_body : Quotes tokens (NamedBlock tokens) (body statement) := by
  unfold body
  apply quotes_kind_bind
  intro kind
  split
  · exact quotes_block hstatement
  · exact quotes_block hstatement
  · exact quotes_unexpected rfl

end Bodies

/-! ## Markup of components -/

/-- What has been read of a component has its names from the tokens. -/
structure Members.Named (tokens : List Token) (members : Members) : Prop where
  statements : ∀ s ∈ members.statements, NamedStmt tokens s
  body : NamedMarkup tokens members.body

theorem Members.Named.concat {members : Members} {stmt : Stmt} (h : members.Named tokens)
    (hstmt : NamedStmt tokens stmt) :
    Members.Named tokens { members with statements := members.statements ++ [stmt] } :=
  ⟨forall_mem_concat h.statements hstmt, h.body⟩

theorem Members.Named.append {members : Members} {items : List Markup} (h : members.Named tokens)
    (hitems : NamedMarkup tokens items) :
    Members.Named tokens { members with body := members.body ++ items } :=
  ⟨h.statements, List.forall_mem_append.2 ⟨h.body, hitems⟩⟩

/-- A run of markup whose problem, if it has one, quotes the tokens. -/
structure MarkupRun.Quotes (tokens : List Token) (run : MarkupRun) : Prop where
  items : NamedMarkup tokens run.items
  problem : ∀ p ∈ run.problem, p.Quotes tokens

theorem quotes_markupItem :
    Quotes tokens (fun item => Named tokens (.markup item)) markupItem := by
  unfold markupItem
  apply quotes_peek_bind
  intro token
  split
  · exact quotes_map quotes_tag fun _ ht => spelled_markupTag.2 ht
  · apply quotes_advance_bind
    intro _
    apply quotes_bind quotes_expression
    intro value hvalue
    exact quotes_expect_bind nofun rfl fun _ => quotes_pure (spelled_markupExpr.2 hvalue)
  · exact quotes_advance_bind fun _ => quotes_pure spelled_text

theorem quotes_markupRun : Quotes tokens (MarkupRun.Quotes tokens) markupRun := by
  unfold markupRun
  refine quotes_iterate (P := NamedMarkup tokens) (fun items hitems => ?_) (List.forall_mem_nil _)
  unfold markupStep
  apply quotes_kind_bind
  intro kind
  split
  · apply quotes_attempt_bind quotes_markupItem
    · exact fun item hitem => quotes_pure (forall_mem_concat hitems hitem)
    · exact fun problem hproblem => quotes_pure ⟨hitems, by simpa using hproblem⟩
  · exact quotes_pure ⟨hitems, nofun⟩

theorem quotes_renderSection : Quotes tokens (MarkupRun.Quotes tokens) renderSection := by
  have hend : Quotes tokens (fun t => t.kind = .rbrace ∧ t ∈ tokens) (expect .rbrace .renderEnd) :=
    quotes_expect nofun rfl
  unfold renderSection
  apply quotes_advance_bind
  intro _
  apply quotes_eat_if
  · exact quotes_markupRun
  · apply quotes_eat_if
    · apply quotes_bind quotes_markupRun
      intro run hrun
      split
      · exact quotes_pure hrun
      · apply quotes_attempt_bind hend
        · exact fun _ _ => quotes_pure hrun
        · exact fun problem hproblem => quotes_pure ⟨hrun.items, by simpa using hproblem⟩
    · exact quotes_unexpected rfl

/-! ## Imports and parameters -/

theorem quotes_importedNames : QuotesOnly tokens importedNames := by
  unfold importedNames
  apply quotes_bind (quotes_commaSeparated (quotes_expectIdentifier rfl))
  intro names _
  exact quotes_expect_bind nofun rfl fun _ => quotes_pure trivial

theorem quotes_importDecl : QuotesOnly tokens importDecl := by
  have hsource : ∀ {start : Span} (names : List String) (default : Option String),
      QuotesOnly tokens (do
        if ← eat (.keyword .fromKw) then
          let source ← expect .string .modulePath
          return (⟨names, default, source.lexeme, ← spanFrom start⟩ : Import)
        else unexpected .fromWord) := by
    intro start names default
    apply quotes_eat_if
    · refine quotes_expect_bind nofun rfl fun _ => ?_
      apply quotes_spanFrom_bind
      intro span
      exact quotes_pure trivial
    · exact quotes_unexpected rfl
  unfold importDecl
  apply quotes_advance_bind
  intro word
  apply quotes_eat_if
  · apply quotes_bind quotes_importedNames
    intro names _
    exact hsource names none
  · exact quotes_expectIdentifier_bind rfl fun name _ => hsource [] (some name)

theorem quotes_modifiers : QuotesOnly tokens modifiers := by
  unfold modifiers
  refine quotes_iterate (P := fun _ => True) (fun names _ => ?_) trivial
  unfold modifierStep
  apply quotes_kind_bind
  intro kind
  split
  · exact quotes_advance_bind fun _ => quotes_pure trivial
  · exact quotes_pure trivial

theorem quotes_param :
    Quotes tokens (fun p => ∀ a ∈ p.typeExpr, NamedType tokens a) param := by
  unfold param
  apply quotes_here_bind
  intro start
  refine quotes_expectIdentifier_bind rfl fun name _ => ?_
  apply quotes_bind quotes_typeExpr?
  intro typeExpr htypeExpr
  apply quotes_spanFrom_bind
  intro span
  exact quotes_pure htypeExpr

theorem quotes_functionWord : QuotesOnly tokens functionWord := by
  unfold functionWord
  apply quotes_eat_if (quotes_pure trivial)
  exact quotes_eat_if (quotes_pure trivial) (quotes_unexpected rfl)

/-! ## Functions and components -/

section Bodies

variable {statement : Parse Stmt} (hstatement : Quotes tokens (NamedStmt tokens) statement)

include hstatement

theorem quotes_function {modifiers : List String} :
    Quotes tokens (fun f => Named tokens (.function f)) (function statement modifiers) := by
  unfold function
  apply quotes_here_bind
  intro start
  apply quotes_eat_bind
  intro async
  apply quotes_bind quotes_functionWord
  intro _ _
  refine quotes_expectIdentifier_bind rfl fun name _ => ?_
  refine quotes_expect_bind nofun rfl fun _ => ?_
  apply quotes_bind (quotes_commaSeparated quotes_param)
  intro params hparams
  refine quotes_expect_bind nofun rfl fun _ => ?_
  apply quotes_bind quotes_typeExpr?
  intro returnType hresult
  apply quotes_bind (quotes_block hstatement)
  intro body hbody
  apply quotes_spanFrom_bind
  intro span
  refine quotes_pure (spelled_function.2 ⟨List.forall_mem_append.2 ⟨fun a ha => ?_, ?_⟩, hbody⟩)
  · obtain ⟨p, hp, hpa⟩ := List.mem_filterMap.1 ha
    exact hparams p hp a hpa
  · exact fun a ha => hresult a (Option.mem_toList.1 ha)

theorem quotes_method : Quotes tokens (NamedStmt tokens) (method statement) := by
  unfold method
  apply quotes_here_bind
  intro start
  refine quotes_expectIdentifier_bind rfl fun name _ => ?_
  apply quotes_bind (quotes_block hstatement)
  intro body hbody
  apply quotes_spanFrom_bind
  intro span
  exact quotes_pure (spelled_functionDecl.2 (spelled_function.2 ⟨List.forall_mem_nil _, hbody⟩))

theorem quotes_member {members : Members} (h : members.Named tokens) :
    Quotes tokens (fun read => read.1.Named tokens ∧ ∀ p ∈ read.2, p.Quotes tokens)
      (member statement members) := by
  unfold member
  apply quotes_get_bind
  intro s
  split
  · apply quotes_bind quotes_renderSection
    intro run hrun
    exact quotes_pure ⟨h.append hrun.items, hrun.problem⟩
  · apply quotes_bind quotes_tag
    intro tag htag
    exact quotes_pure
      ⟨h.append (List.forall_mem_singleton.2 (spelled_markupTag.2 htag)), nofun⟩
  · apply quotes_ite_bind (quotes_method hstatement) hstatement
    intro stmt hstmt
    exact quotes_pure ⟨h.concat hstmt, nofun⟩
  · apply quotes_bind hstatement
    intro stmt hstmt
    exact quotes_pure ⟨h.concat hstmt, nofun⟩

theorem quotes_recoveringMember {members : Members} (h : members.Named tokens) :
    Quotes tokens (Members.Named tokens) (recoveringMember statement members) := by
  have hplaceholder : ∀ {members : Members} {problem : Problem}, members.Named tokens →
      problem.Quotes tokens → Quotes tokens (Members.Named tokens) (do
        let placeholder ← recover problem
        return { members with statements := members.statements ++ [placeholder] }) := by
    intro members problem h hproblem
    apply quotes_bind (quotes_recover hproblem)
    intro placeholder hplaceholder
    exact quotes_pure (h.concat hplaceholder)
  unfold recoveringMember
  apply quotes_attempt_bind (quotes_member hstatement h)
  · rintro ⟨members, problem⟩ ⟨hread, hproblem⟩
    cases problem with
    | none => exact quotes_pure hread
    | some problem => exact hplaceholder hread (hproblem problem rfl)
  · exact fun problem hproblem => hplaceholder h hproblem

theorem quotes_memberStep {members : Members} (h : members.Named tokens) :
    Quotes tokens (TurnIs (Members.Named tokens) (Members.Named tokens))
      (memberStep statement members) := by
  unfold memberStep
  apply quotes_get_bind
  intro s
  split
  · exact quotes_pure h
  · apply quotes_eat_if
    · exact quotes_pure h
    · apply quotes_bind (quotes_recoveringMember hstatement h)
      intro members h
      exact quotes_bind quotes_ensureProgress fun _ _ => quotes_pure h

theorem quotes_component {modifiers : List String} :
    Quotes tokens (fun k => Named tokens (.component k)) (component statement modifiers) := by
  unfold component
  apply quotes_advance_bind
  intro word
  refine quotes_expectIdentifier_bind rfl fun name hname => ?_
  refine quotes_expect_bind nofun rfl fun _ => ?_
  have hempty : Members.Named tokens ⟨[], []⟩ := ⟨List.forall_mem_nil _, List.forall_mem_nil _⟩
  apply quotes_bind (quotes_iterate (fun _ => quotes_memberStep hstatement) hempty)
  intro members h
  refine quotes_expect_bind nofun rfl fun _ => ?_
  apply quotes_spanFrom_bind
  intro span
  exact quotes_pure (spelled_component.2 ⟨hname, h.statements, h.body⟩)

theorem quotes_declaration :
    Quotes tokens (fun declared => Named tokens (Sum.elim .function .component declared))
      (declaration statement) := by
  unfold declaration
  apply quotes_bind quotes_modifiers
  intro modifiers _
  apply quotes_kind_bind
  intro kind
  split
  case h_1 => exact quotes_map (quotes_component hstatement) fun _ h => h
  case h_2 | h_3 | h_4 => exact quotes_map (quotes_function hstatement) fun _ h => h
  case h_5 => exact quotes_unexpected rfl

theorem quotes_exportItem :
    Quotes tokens (fun item => Named tokens item.part) (exportItem statement) := by
  unfold exportItem
  apply quotes_kind_bind
  intro kind
  split
  · apply quotes_bind (quotes_declaration hstatement)
    intro declared hdeclared
    cases declared with
    | inl function => exact quotes_pure hdeclared
    | inr component => exact quotes_pure hdeclared
  · exact quotes_map hstatement fun _ hstmt => hstmt

theorem quotes_exportDecl :
    Quotes tokens (fun item => Named tokens (.exportDecl item)) (exportDecl statement) := by
  unfold exportDecl
  apply quotes_advance_bind
  intro word
  apply quotes_eat_bind
  intro isDefault
  apply quotes_bind (quotes_exportItem hstatement)
  intro item hitem
  apply quotes_spanFrom_bind
  intro span
  exact quotes_pure (spelled_exportDecl.2 hitem)

end Bodies

/-! ## Simple statements -/

theorem quotes_stmtFrom {Q : Stmt → Prop} {start : Span} {build : Span → Stmt}
    (h : ∀ span, Q (build span)) : Quotes tokens Q (stmtFrom start build) :=
  quotes_spanFrom_bind fun span => quotes_pure (h span)

theorem quotes_simpleStmt : Quotes tokens (NamedStmt tokens) simpleStmt := by
  unfold simpleStmt
  apply quotes_here_bind
  intro start
  apply quotes_bind quotes_expression
  intro target htarget
  apply quotes_kind_bind
  intro kind
  split
  · exact quotes_stmtFrom fun _ => spelled_expression.2 htarget
  · split
    · apply quotes_advance_bind
      intro _
      apply quotes_bind quotes_expression
      intro value hvalue
      exact quotes_stmtFrom fun _ => spelled_assignment.2 ⟨htarget, hvalue⟩
    · exact quotes_throw (quotes_ofSpan (List.forall_mem_nil _) rfl _)

theorem quotes_variableStmt : Quotes tokens (NamedStmt tokens) variableStmt := by
  unfold variableStmt
  apply quotes_advance_bind
  intro word
  refine quotes_expectIdentifier_bind rfl fun name _ => ?_
  apply quotes_bind quotes_typeExpr?
  intro typeExpr htypeExpr
  apply quotes_eat_bind
  intro taken
  apply quotes_ite_bind (quotes_some quotes_expression) quotes_none
  intro init hinit
  exact quotes_stmtFrom fun _ => spelled_variableDecl.2 ⟨htypeExpr, hinit⟩

theorem quotes_returnStmt : Quotes tokens (NamedStmt tokens) returnStmt := by
  unfold returnStmt
  apply quotes_advance_bind
  intro word
  apply quotes_kind_bind
  intro kind
  apply quotes_ite_bind (quotes_some quotes_expression) quotes_none
  intro value hvalue
  exact quotes_stmtFrom fun _ => spelled_returnStmt.2 hvalue

theorem quotes_throwStmt : Quotes tokens (NamedStmt tokens) throwStmt := by
  unfold throwStmt
  apply quotes_advance_bind
  intro word
  apply quotes_bind quotes_expression
  intro value hvalue
  exact quotes_stmtFrom fun _ => spelled_throwStmt.2 hvalue

theorem quotes_impliedNumber {text : String} {span : Span} :
    Quotes tokens (NamedExpr tokens) (impliedNumber text span) :=
  quotes_node fun _ => spelled_literal

theorem quotes_loopBounds {span : Span} :
    Quotes tokens (fun bounds => NamedExpr tokens bounds.1 ∧ NamedExpr tokens bounds.2)
      (loopBounds span) := by
  unfold loopBounds
  apply quotes_bind quotes_expression
  intro first hfirst
  apply quotes_eat_if
  · apply quotes_bind quotes_expression
    intro last hlast
    exact quotes_expect_bind nofun rfl fun _ => quotes_pure ⟨hfirst, hlast⟩
  · apply quotes_bind quotes_impliedNumber
    intro zero hzero
    exact quotes_expect_bind nofun rfl fun _ => quotes_pure ⟨hzero, hfirst⟩

theorem quotes_countingLoop {start span : Span} {name : String} {bounds : Expr × Expr}
    {body : Block} (hname : IsName tokens name)
    (hbounds : NamedExpr tokens bounds.1 ∧ NamedExpr tokens bounds.2)
    (hbody : NamedBlock tokens body) :
    Quotes tokens (NamedStmt tokens) (countingLoop start span name bounds body) := by
  have hcounter (node : Node) : NamedExpr tokens (.identifier node name) :=
    spelled_identifier.2 hname
  unfold countingLoop
  apply quotes_node_bind
  intro counter
  apply quotes_node_bind
  intro test
  apply quotes_node_bind
  intro target
  apply quotes_bind quotes_impliedNumber
  intro one hone
  have hinit : NamedStmt tokens (.variableDecl span ⟨.letVar, name, none, some bounds.1⟩) :=
    spelled_variableDecl.2 ⟨nofun, by simpa using hbounds.1⟩
  have htest : NamedExpr tokens (.binary test (.identifier counter name) .lt bounds.2) :=
    spelled_binary.2 ⟨hcounter counter, hbounds.2⟩
  have hupdate : NamedStmt tokens (.assignment span (.identifier target name) .add one) :=
    spelled_assignment.2 ⟨hcounter target, hone⟩
  refine quotes_stmtFrom fun _ => spelled_forLoop.2 ⟨?_, ?_, ?_, hbody⟩
  · simpa using hinit
  · simpa using htest
  · simpa using hupdate

theorem quotes_loopInit :
    Quotes tokens (fun init => ∀ s ∈ init, NamedStmt tokens s) loopInit := by
  unfold loopInit
  apply quotes_kind_bind
  intro kind
  split
  · exact quotes_none
  · split
    · exact quotes_some quotes_variableStmt
    · exact quotes_some quotes_simpleStmt

/-! ## Compound statements -/

section Compound

variable {statement : Parse Stmt} (hstatement : Quotes tokens (NamedStmt tokens) statement)

include hstatement

theorem quotes_whileStmt : Quotes tokens (NamedStmt tokens) (whileStmt statement) := by
  unfold whileStmt
  apply quotes_advance_bind
  intro word
  apply quotes_bind quotes_headExpression
  intro test htest
  apply quotes_bind (quotes_body hstatement)
  intro body hbody
  exact quotes_stmtFrom fun _ => spelled_whileLoop.2 ⟨htest, hbody⟩

theorem quotes_clauseLoop {start : Span} :
    Quotes tokens (NamedStmt tokens) (clauseLoop statement start) := by
  unfold clauseLoop
  refine quotes_expect_bind nofun rfl fun _ => ?_
  apply quotes_bind quotes_loopInit
  intro init hinit
  refine quotes_expect_bind nofun rfl fun _ => ?_
  apply quotes_kind_bind
  intro kind
  apply quotes_ite_bind quotes_none (quotes_some quotes_expression)
  intro test htest
  refine quotes_expect_bind nofun rfl fun _ => ?_
  apply quotes_kind_bind
  intro kind
  apply quotes_ite_bind quotes_none (quotes_some quotes_simpleStmt)
  intro update hupdate
  refine quotes_expect_bind nofun rfl fun _ => ?_
  apply quotes_bind (quotes_body hstatement)
  intro body hbody
  exact quotes_stmtFrom fun _ => spelled_forLoop.2 ⟨hinit, htest, hupdate, hbody⟩

theorem quotes_forStmt : Quotes tokens (NamedStmt tokens) (forStmt statement) := by
  unfold forStmt
  apply quotes_advance_bind
  intro word
  apply quotes_kind_bind
  intro kind
  split
  · exact quotes_clauseLoop hstatement
  · apply quotes_here_bind
    intro span
    refine quotes_expectIdentifier_bind rfl fun name hname => ?_
    apply quotes_eat_if
    · apply quotes_bind quotes_headExpression
      intro iterable hiterable
      apply quotes_bind (quotes_body hstatement)
      intro body hbody
      exact quotes_stmtFrom fun _ => spelled_forIn.2 ⟨hiterable, hbody⟩
    · apply quotes_eat_if
      · apply quotes_bind quotes_loopBounds
        intro bounds hbounds
        apply quotes_bind (quotes_body hstatement)
        intro body hbody
        exact quotes_countingLoop hname hbounds hbody
      · exact quotes_unexpected rfl

theorem quotes_catchClause :
    Quotes tokens (fun clause => NamedBlock tokens clause.body) (catchClause statement) := by
  have hbody : ∀ {param : Option String},
      Quotes tokens (fun clause : CatchClause => NamedBlock tokens clause.body)
        (do return ⟨param, ← body statement⟩) := by
    intro param
    apply quotes_bind (quotes_body hstatement)
    intro body hbody
    exact quotes_pure hbody
  unfold catchClause
  apply quotes_eat_if
  · refine quotes_expectIdentifier_bind rfl fun name _ => ?_
    exact quotes_expect_bind nofun rfl fun _ => hbody
  · exact hbody

theorem quotes_tryStmt : Quotes tokens (NamedStmt tokens) (tryStmt statement) := by
  unfold tryStmt
  apply quotes_advance_bind
  intro word
  apply quotes_bind (quotes_body hstatement)
  intro block hblock
  apply quotes_eat_bind
  intro taken
  apply quotes_ite_bind (quotes_some (quotes_catchClause hstatement)) quotes_none
  intro handler hhandler
  apply quotes_eat_bind
  intro taken
  apply quotes_ite_bind (quotes_some (quotes_body hstatement)) quotes_none
  intro cleanup hcleanup
  dsimp only
  split
  · exact quotes_unexpected rfl
  · exact quotes_stmtFrom fun _ => spelled_tryStmt.2 ⟨hblock, hhandler, hcleanup⟩

omit hstatement in
theorem quotes_asyncSegment {α : Type} {P : α → Prop} {word : Keyword} {content : Parse α}
    {expected : Expected} (htag : expected.tag? = none) (hcontent : Quotes tokens P content) :
    Quotes tokens (fun a => ∀ c ∈ a, P c) (asyncSegment word content expected) := by
  unfold asyncSegment
  apply quotes_get_bind
  intro s
  split
  · apply quotes_advance_bind
    intro _
    apply quotes_advance_bind
    intro _
    apply quotes_bind hcontent
    intro value hvalue
    exact quotes_expect_bind nofun htag fun _ =>
      quotes_pure fun _ hc => Option.some.inj hc ▸ hvalue
  · exact quotes_none

theorem quotes_asyncStmt : Quotes tokens (NamedStmt tokens) (asyncStmt statement) := by
  have hhandler : Quotes tokens (fun a => ∀ c ∈ a, NamedBlock tokens (CatchClause.body c))
      (asyncSegment .catchKw (catchClause statement) .asyncCatchEnd) :=
    quotes_asyncSegment rfl (quotes_catchClause hstatement)
  have hcleanup : Quotes tokens (fun a => ∀ b ∈ a, NamedBlock tokens b)
      (asyncSegment .finallyKw (body statement) .asyncFinallyEnd) :=
    quotes_asyncSegment rfl (quotes_body hstatement)
  unfold asyncStmt
  apply quotes_advance_bind
  intro word
  refine quotes_expect_bind nofun rfl fun _ => ?_
  apply quotes_kind_bind
  intro kind
  split
  · apply quotes_bind (quotes_block hstatement)
    intro block hblock
    apply quotes_bind hhandler
    intro handler hhandler
    apply quotes_bind hcleanup
    intro cleanup hcleanup
    refine quotes_expect_bind nofun rfl fun _ => ?_
    exact quotes_stmtFrom fun _ => spelled_asyncBlock.2 ⟨hblock, hhandler, hcleanup⟩
  · exact quotes_unexpected rfl

end Compound

/-! ## All statements -/

/-- Both rules quote, and what they read has its names from the tokens. -/
structure StmtRules.Quote (tokens : List Token) (rules : StmtRules) : Prop where
  statement : Quotes tokens (NamedStmt tokens) rules.statement
  ifStmt : Quotes tokens (NamedStmt tokens) rules.ifStmt

variable {rules : StmtRules}

theorem quotes_ifRule (hrules : rules.Quote tokens) :
    Quotes tokens (NamedStmt tokens) (ifRule rules) := by
  have hbody := quotes_body hrules.statement
  unfold ifRule
  apply quotes_advance_bind
  intro word
  apply quotes_bind quotes_headExpression
  intro test htest
  apply quotes_bind hbody
  intro consequent hconsequent
  have hstmt : ∀ {start : Span} (alternate : Option Stmt),
      (∀ s ∈ alternate, NamedStmt tokens s) →
      Quotes tokens (NamedStmt tokens) (stmtFrom start (.ifElse · test consequent alternate)) :=
    fun alternate halternate =>
      quotes_stmtFrom fun _ => spelled_ifElse.2 ⟨htest, hconsequent, halternate⟩
  have hblock : Quotes tokens (fun alternate => ∀ s ∈ alternate, NamedStmt tokens s)
      ((fun b => some (.block b)) <$> body rules.statement) := by
    refine quotes_map hbody fun b hb s hs => ?_
    obtain rfl := Option.some.inj hs
    exact spelled_blockStmt.2 hb
  apply quotes_eat_if
  · apply quotes_kind_bind
    intro kind
    exact quotes_ite_bind (quotes_some hrules.ifStmt) hblock hstmt
  · exact quotes_bind quotes_none hstmt

theorem quotes_bareStatement (hrules : rules.Quote tokens) :
    Quotes tokens (NamedStmt tokens) (bareStatement rules) := by
  unfold bareStatement
  apply quotes_here_bind
  intro start
  apply quotes_kind_bind
  intro kind
  split
  case h_1 | h_2 | h_3 => exact quotes_variableStmt
  case h_4 => exact quotes_ifRule hrules
  case h_5 => exact quotes_whileStmt hrules.statement
  case h_6 => exact quotes_forStmt hrules.statement
  case h_7 => exact quotes_returnStmt
  case h_8 => exact quotes_advance_bind fun _ => quotes_stmtFrom fun _ => spelled_breakStmt
  case h_9 => exact quotes_advance_bind fun _ => quotes_stmtFrom fun _ => spelled_continueStmt
  case h_10 => exact quotes_throwStmt
  case h_11 => exact quotes_tryStmt hrules.statement
  case h_12 => exact quotes_asyncStmt hrules.statement
  case h_13 | h_14 | h_15 | h_16 =>
    apply quotes_bind quotes_modifiers
    intro modifiers _
    apply quotes_bind (quotes_function hrules.statement)
    intro function hfunction
    exact quotes_stmtFrom fun _ => spelled_functionDecl.2 hfunction
  case h_17 =>
    apply quotes_bind quotes_importDecl
    intro item _
    exact quotes_stmtFrom fun _ => spelled_importStmt
  case h_18 =>
    apply quotes_bind (quotes_exportDecl hrules.statement)
    intro item hitem
    exact quotes_stmtFrom fun _ => spelled_exportStmt.2 hitem
  case h_19 => exact quotes_map (quotes_block hrules.statement) fun _ hb => spelled_blockStmt.2 hb
  case h_20 => exact quotes_simpleStmt

theorem quotes_statementRule (hrules : rules.Quote tokens) :
    Quotes tokens (NamedStmt tokens) (statementRule rules) := by
  unfold statementRule
  apply quotes_bind (quotes_bareStatement hrules)
  intro stmt hstmt
  exact quotes_eat_bind fun _ => quotes_pure hstmt

theorem quote_stmtRules (depth : Nat) : (stmtRules depth).Quote tokens := by
  induction depth with
  | zero =>
      have hlimit : Quotes tokens (NamedStmt tokens) (fail .iterationLimit : Parse Stmt) :=
        quotes_fail (List.forall_mem_nil _) rfl
      exact ⟨hlimit, hlimit⟩
  | succ depth ih => exact ⟨quotes_statementRule ih, quotes_ifRule ih⟩

theorem quotes_statement : Quotes tokens (NamedStmt tokens) statement :=
  quotes_of_eq (fun s => (quote_stmtRules (s.rest.length + 1)).statement) fun _ => rfl

end ComponentLang.Grammar

/-! ## What the problems of a program quote

A problem of the form is reported with the text of the token at its place, or with none. The names in
the program are texts of the tokens that it is read from, and so are its keys. -/

namespace ComponentLang.Grammar

open Parse ComponentLang.TreePart

variable {tokens : List Token}

abbrev NamedProgram (tokens : List Token) (p : Program) : Prop := Named tokens (.program p)

theorem NamedProgram.concat {p : Program} {stmt : Stmt} (h : NamedProgram tokens p)
    (hstmt : NamedStmt tokens stmt) :
    NamedProgram tokens { p with statements := p.statements ++ [stmt] } := by
  obtain ⟨hexports, hfunctions, hcomponents, hstatements⟩ := spelled_program.1 h
  exact spelled_program.2
    ⟨hexports, hfunctions, hcomponents, forall_mem_concat hstatements hstmt⟩

theorem quotes_item {p : Program} (h : NamedProgram tokens p) :
    Quotes tokens (NamedProgram tokens) (item p) := by
  obtain ⟨hexports, hfunctions, hcomponents, hstatements⟩ := spelled_program.1 h
  unfold item
  apply quotes_kind_bind
  intro kind
  split
  · apply quotes_bind quotes_importDecl
    intro decl _
    exact quotes_pure (spelled_program.2 ⟨hexports, hfunctions, hcomponents, hstatements⟩)
  · apply quotes_bind (quotes_exportDecl quotes_statement)
    intro decl hdecl
    exact quotes_pure (spelled_program.2
      ⟨forall_mem_concat hexports hdecl, hfunctions, hcomponents, hstatements⟩)
  · split
    · apply quotes_bind (quotes_declaration quotes_statement)
      intro declared hdeclared
      cases declared with
      | inl function =>
          exact quotes_pure (spelled_program.2
            ⟨hexports, forall_mem_concat hfunctions hdeclared, hcomponents, hstatements⟩)
      | inr component =>
          exact quotes_pure (spelled_program.2
            ⟨hexports, hfunctions, forall_mem_concat hcomponents hdeclared, hstatements⟩)
    · apply quotes_bind quotes_statement
      intro stmt hstmt
      exact quotes_pure (h.concat hstmt)

theorem quotes_recoveringItem {p : Program} (h : NamedProgram tokens p) :
    Quotes tokens (NamedProgram tokens) (recoveringItem p) := by
  unfold recoveringItem
  apply quotes_attempt_bind (quotes_item h)
  · exact fun read hread => quotes_pure hread
  · intro problem hproblem
    apply quotes_bind (quotes_recover hproblem)
    intro placeholder hplaceholder
    apply quotes_kind_bind
    intro kind
    split
    · exact quotes_advance_bind fun _ => quotes_pure (h.concat hplaceholder)
    · exact quotes_pure (h.concat hplaceholder)

theorem quotes_program : Quotes tokens (NamedProgram tokens) program := by
  have hempty : NamedProgram tokens .empty := by simp [spelled_program, Program.empty]
  refine quotes_iterate (P := NamedProgram tokens) (fun read hread => ?_) hempty
  unfold programStep
  apply quotes_get_bind
  intro s
  split
  · exact quotes_pure hread
  · apply quotes_eat_if
    · exact quotes_pure hread
    · apply quotes_bind (quotes_recoveringItem hread)
      intro read hread
      exact quotes_bind quotes_ensureProgress fun _ _ => quotes_pure hread

theorem rest_start_subset (tokens : List Token) : (State.start tokens).rest ⊆ tokens :=
  fun _ ht => (List.mem_filter.1 ((List.takeWhile_sublist _).subset ht)).1

theorem IsName.of_subset {others : List Token} {name : String} (h : IsName tokens name)
    (hsubset : tokens ⊆ others) : IsName others name :=
  let ⟨t, ht, hname⟩ := h
  ⟨t, hsubset ht, hname⟩

theorem IsKey.of_subset {others : List Token} {key : String} (h : IsKey tokens key)
    (hsubset : tokens ⊆ others) : IsKey others key :=
  let ⟨t, ht, hkey⟩ := h
  ⟨t, hsubset ht, hkey⟩

theorem Problem.Quotes.of_subset {others : List Token} {p : Problem} (h : p.Quotes tokens)
    (hsubset : tokens ⊆ others) : p.Quotes others where
  tags name hname := (h.tags name hname).of_subset hsubset
  quoted lexeme hlexeme :=
    let ⟨t, ht, hquoted⟩ := h.quoted lexeme hlexeme
    ⟨t, hsubset ht, hquoted⟩

/-- Whatever the tokens are, the names in the program and what its problems show are texts of the
tokens; a text that a problem shows as found is that of a token at the place of the problem. -/
theorem quotes_parse (tokens : List Token) :
    NamedProgram tokens (parse tokens).program ∧
      ∀ d ∈ (parse tokens).diagnostics, ∃ p : Problem, p.Quotes tokens ∧ p.diagnostic = d := by
  obtain ⟨read, hok, -⟩ := (gives_program (n := 0) (s := .start tokens)).exists_ok
  have hread : (parse tokens).program = read := by
    change (program.run (.start tokens)).1.toOption.getD .empty = read
    rw [hok]
    rfl
  obtain ⟨hafter, hnamed⟩ :=
    (quotes_program (.start tokens) (State.quotes_start tokens)).good_of_ok hok
  have hsubset := rest_start_subset tokens
  constructor
  · rw [hread]
    exact hnamed.mono (fun _ hname => hname.of_subset hsubset)
      fun _ _ hkey => hkey.of_subset hsubset
  · intro d hd
    obtain ⟨p, hp, heq⟩ := hafter.reported d (List.mem_reverse.1 hd)
    exact ⟨p, hp.of_subset hsubset, heq⟩

end ComponentLang.Grammar
