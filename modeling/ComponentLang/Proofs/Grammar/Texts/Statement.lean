import ComponentLang.Grammar.Statement
import ComponentLang.Proofs.Grammar.Texts.Expression

/-!
# The texts in declarations and statements

Outside tags nothing is a text but what stands in the markup of a component, and that is cut at
every word. Declarations and statements hand on the tags in their parts. Which statements may stand
in which is decided where they are read.
-/
namespace ComponentLang.Grammar

open Parse ComponentLang.TreePart

variable {tokens : List Token}

abbrev TidyStmt (tokens : List Token) (s : Stmt) : Prop := Tidy tokens (.stmt s)

abbrev TidyBlock (tokens : List Token) (b : Block) : Prop := Tidy tokens (.block b)

abbrev TidyMarkup (tokens : List Token) (items : List Markup) : Prop :=
  ∀ item ∈ items, Tidy tokens (.markup item)

theorem forall_mem_concat {α : Type} {P : α → Prop} {items : List α} {item : α}
    (h : ∀ a ∈ items, P a) (hitem : P item) : ∀ a ∈ items ++ [item], P a :=
  List.forall_mem_append.2 ⟨h, List.forall_mem_singleton.2 hitem⟩

/-! ## Blocks -/

section Bodies

variable {statement : Parse Stmt} (hstatement : Sees tokens (TidyStmt tokens) statement)

include hstatement

theorem sees_blockStep {close : TokenKind} {stmts : List Stmt}
    (hstmts : ∀ s ∈ stmts, TidyStmt tokens s) :
    Sees tokens (TurnIs (fun ss => ∀ s ∈ ss, TidyStmt tokens s)
      fun ss => ∀ s ∈ ss, TidyStmt tokens s) (blockStep statement close stmts) := by
  unfold blockStep
  apply sees_get_bind
  intro s
  split
  · exact sees_pure hstmts
  · apply sees_eat_if
    · exact sees_pure hstmts
    · apply sees_bind (sees_recovering hstatement)
      intro stmt hstmt
      apply sees_bind sees_ensureProgress
      intro _ _
      exact sees_pure (forall_mem_concat hstmts hstmt)

theorem sees_block {bracket : Bracket} :
    Sees tokens (TidyBlock tokens) (block statement bracket) := by
  unfold block
  apply sees_here_bind
  intro start
  apply sees_eat_if
  · apply sees_bind (sees_iterate (fun _ => sees_blockStep hstatement) (List.forall_mem_nil _))
    intro stmts hstmts
    apply sees_expect_bind
    intro _
    apply sees_spanFrom_bind
    intro span
    exact sees_pure (tidy_block.2 hstmts)
  · exact sees_unexpected

theorem sees_body : Sees tokens (TidyBlock tokens) (body statement) := by
  unfold body
  apply sees_kind_bind
  intro kind
  split
  · exact sees_block hstatement
  · exact sees_block hstatement
  · exact sees_unexpected

end Bodies

/-! ## Markup of components -/

/-- The parts that have been read of a component are tidy. -/
structure Members.Tidy (tokens : List Token) (members : Members) : Prop where
  statements : ∀ s ∈ members.statements, TidyStmt tokens s
  body : TidyMarkup tokens members.body

theorem Members.Tidy.concat {members : Members} {stmt : Stmt} (h : members.Tidy tokens)
    (hstmt : TidyStmt tokens stmt) :
    Members.Tidy tokens { members with statements := members.statements ++ [stmt] } :=
  ⟨forall_mem_concat h.statements hstmt, h.body⟩

theorem Members.Tidy.append {members : Members} {items : List Markup} (h : members.Tidy tokens)
    (hitems : TidyMarkup tokens items) :
    Members.Tidy tokens { members with body := members.body ++ items } :=
  ⟨h.statements, List.forall_mem_append.2 ⟨h.body, hitems⟩⟩

theorem sees_markupItem : Sees tokens (fun item => Tidy tokens (.markup item)) markupItem := by
  unfold markupItem
  apply sees_peek_bind
  intro token
  split
  · exact sees_map sees_tag fun _ ht => tidy_markup.2 (List.forall_mem_singleton.2 ht)
  · apply sees_advance_bind
    intro _
    apply sees_bind sees_expression
    intro value hvalue
    apply sees_expect_bind
    intro _
    exact sees_pure (tidy_markup.2 (List.forall_mem_singleton.2 hvalue))
  · apply sees_advance_bind
    intro _
    exact sees_pure (by simp [Markup.children])

theorem sees_markupRun : Sees tokens (fun run => TidyMarkup tokens run.items) markupRun := by
  unfold markupRun
  refine sees_iterate (P := TidyMarkup tokens) (fun items hitems => ?_) (List.forall_mem_nil _)
  unfold markupStep
  apply sees_kind_bind
  intro kind
  split
  · apply sees_attempt_bind sees_markupItem
    · exact fun item hitem => sees_pure (forall_mem_concat hitems hitem)
    · exact fun problem => sees_pure hitems
  · exact sees_pure hitems

theorem sees_renderSection :
    Sees tokens (fun run => TidyMarkup tokens run.items) renderSection := by
  unfold renderSection
  apply sees_advance_bind
  intro _
  apply sees_eat_if
  · exact sees_markupRun
  · apply sees_eat_if
    · apply sees_bind sees_markupRun
      intro run hrun
      split
      · exact sees_pure hrun
      · apply sees_attempt_bind (sees_of_skims fun _ => takes_expect.2 fun _ => trivial)
        · exact fun _ _ => sees_pure hrun
        · exact fun problem => sees_pure hrun
    · exact sees_unexpected

/-! ## Imports and parameters -/

theorem sees_importedNames : Sees tokens (fun _ => True) importedNames := by
  unfold importedNames
  apply sees_bind (P := fun _ => True)
  · exact sees_mono (sees_commaSeparated (P := fun _ => True)
      (sees_of_skims fun _ => takes_expectIdentifier.2 fun _ => trivial)) fun _ _ => trivial
  · intro names _
    exact sees_expect_bind fun _ => sees_pure trivial

theorem sees_importDecl : Sees tokens (fun item => Tidy tokens (.importDecl item)) importDecl := by
  have hsource : ∀ {start : Span} (names : List String) (default : Option String),
      (default.isSome → names = []) →
      Sees tokens (fun item => Tidy tokens (.importDecl item)) (do
        if ← eat (.keyword .fromKw) then
          let source ← expect .string .modulePath
          return ⟨names, default, source.lexeme, ← spanFrom start⟩
        else unexpected .fromWord) := by
    intro start names default hnames
    apply sees_eat_if
    · apply sees_expect_bind
      intro source
      apply sees_spanFrom_bind
      intro span
      exact sees_pure (tidy_importDecl.2 hnames)
    · exact sees_unexpected
  unfold importDecl
  apply sees_advance_bind
  intro word
  apply sees_eat_if
  · apply sees_bind sees_importedNames
    intro names _
    exact hsource names none nofun
  · apply sees_expectIdentifier_bind
    intro name
    exact hsource [] (some name) fun _ => rfl

theorem sees_param : Sees tokens (fun p => ∀ a ∈ p.typeExpr, Written tokens a) param := by
  unfold param
  apply sees_here_bind
  intro start
  apply sees_expectIdentifier_bind
  intro name
  apply sees_bind sees_typeExpr?
  intro typeExpr htypeExpr
  apply sees_spanFrom_bind
  intro span
  exact sees_pure htypeExpr

/-- The type expressions of a function are those of its parameters and that of its result. -/
theorem written_annotations {f : Function}
    (hparams : ∀ p ∈ f.params, ∀ a ∈ p.typeExpr, Written tokens a)
    (hresult : ∀ a ∈ f.returnType, Written tokens a) : ∀ a ∈ f.annotations, Written tokens a := by
  refine List.forall_mem_append.2 ⟨fun a ha => ?_, fun a ha => hresult a (Option.mem_toList.1 ha)⟩
  obtain ⟨p, hp, hpa⟩ := List.mem_filterMap.1 ha
  exact hparams p hp a hpa

/-! ## Functions and components -/

section Bodies

variable {statement : Parse Stmt} (hstatement : Sees tokens (TidyStmt tokens) statement)

include hstatement

theorem sees_function {modifiers : List String} :
    Sees tokens (fun f => Tidy tokens (.function f)) (function statement modifiers) := by
  unfold function
  apply sees_here_bind
  intro start
  apply sees_eat_bind
  intro async
  apply sees_idle_bind fun _ => skims_functionWord
  intro _
  apply sees_expectIdentifier_bind
  intro name
  apply sees_expect_bind
  intro _
  apply sees_bind (sees_commaSeparated sees_param)
  intro params hparams
  apply sees_expect_bind
  intro _
  apply sees_bind sees_typeExpr?
  intro returnType hresult
  apply sees_bind (sees_block hstatement)
  intro body hbody
  apply sees_spanFrom_bind
  intro span
  refine sees_pure (tidy_function.2 ⟨⟨fun hmem => ?_, written_annotations hparams hresult⟩, hbody⟩)
  show (async || modifiers.contains "async") = true
  rw [List.contains_iff_mem.2 hmem, Bool.or_true]

theorem sees_method : Sees tokens (TidyStmt tokens) (method statement) := by
  unfold method
  apply sees_here_bind
  intro start
  apply sees_expectIdentifier_bind
  intro name
  apply sees_bind (sees_block hstatement)
  intro body hbody
  apply sees_spanFrom_bind
  intro span
  refine sees_pure (tidy_stmt.2 ⟨⟨trivial, List.forall_mem_nil _⟩, List.forall_mem_singleton.2 ?_⟩)
  exact tidy_function.2 ⟨⟨nofun, List.forall_mem_nil _⟩, hbody⟩

theorem sees_member {members : Members} (h : members.Tidy tokens) :
    Sees tokens (fun read => read.1.Tidy tokens) (member statement members) := by
  unfold member
  apply sees_get_bind
  intro s
  split
  · apply sees_bind sees_renderSection
    intro run hrun
    exact sees_pure (h.append hrun)
  · apply sees_bind sees_tag
    intro tag htag
    exact sees_pure (h.append (List.forall_mem_singleton.2
      (tidy_markup.2 (List.forall_mem_singleton.2 htag))))
  · apply sees_ite_bind (sees_method hstatement) hstatement
    intro stmt hstmt
    exact sees_pure (h.concat hstmt)
  · apply sees_bind hstatement
    intro stmt hstmt
    exact sees_pure (h.concat hstmt)

theorem sees_recoveringMember {members : Members} (h : members.Tidy tokens) :
    Sees tokens (Members.Tidy tokens) (recoveringMember statement members) := by
  have hplaceholder : ∀ {members : Members} {problem : Problem}, members.Tidy tokens →
      Sees tokens (Members.Tidy tokens) (do
        let placeholder ← recover problem
        return { members with statements := members.statements ++ [placeholder] }) := by
    intro members problem h
    apply sees_bind sees_recover
    intro placeholder hplaceholder
    exact sees_pure (h.concat hplaceholder)
  unfold recoveringMember
  apply sees_attempt_bind (sees_member hstatement h)
  · rintro ⟨members, problem⟩ hread
    cases problem with
    | none => exact sees_pure hread
    | some problem => exact hplaceholder hread
  · exact fun problem => hplaceholder h

theorem sees_memberStep {members : Members} (h : members.Tidy tokens) :
    Sees tokens (TurnIs (Members.Tidy tokens) (Members.Tidy tokens))
      (memberStep statement members) := by
  unfold memberStep
  apply sees_get_bind
  intro s
  split
  · exact sees_pure h
  · apply sees_eat_if
    · exact sees_pure h
    · apply sees_bind (sees_recoveringMember hstatement h)
      intro members h
      exact sees_bind sees_ensureProgress fun _ _ => sees_pure h

theorem sees_component {modifiers : List String} :
    Sees tokens (fun c => Tidy tokens (.component c)) (component statement modifiers) := by
  unfold component
  apply sees_advance_bind
  intro word
  apply sees_expectIdentifier_bind
  intro name
  apply sees_expect_bind
  intro _
  have hempty : Members.Tidy tokens ⟨[], []⟩ := ⟨List.forall_mem_nil _, List.forall_mem_nil _⟩
  apply sees_bind (sees_iterate (fun _ => sees_memberStep hstatement) hempty)
  intro members h
  apply sees_expect_bind
  intro _
  apply sees_spanFrom_bind
  intro span
  exact sees_pure (tidy_component.2 ⟨h.statements, h.body⟩)

theorem sees_declaration :
    Sees tokens (fun declared => Tidy tokens (Sum.elim .function .component declared))
      (declaration statement) := by
  unfold declaration
  apply sees_idle_bind fun _ => skims_modifiers
  intro modifiers
  apply sees_kind_bind
  intro kind
  split
  case h_1 => exact sees_map (sees_component hstatement) fun _ h => h
  case h_2 | h_3 | h_4 => exact sees_map (sees_function hstatement) fun _ h => h
  case h_5 => exact sees_unexpected

theorem sees_exportItem :
    Sees tokens (fun item => Tidy tokens item.part) (exportItem statement) := by
  unfold exportItem
  apply sees_kind_bind
  intro kind
  split
  · apply sees_bind (sees_declaration hstatement)
    intro declared hdeclared
    cases declared with
    | inl function => exact sees_pure hdeclared
    | inr component => exact sees_pure hdeclared
  · exact sees_map hstatement fun _ h => h

theorem sees_exportDecl :
    Sees tokens (fun item => Tidy tokens (.exportDecl item)) (exportDecl statement) := by
  unfold exportDecl
  apply sees_advance_bind
  intro word
  apply sees_eat_bind
  intro isDefault
  apply sees_bind (sees_exportItem hstatement)
  intro item hitem
  apply sees_spanFrom_bind
  intro span
  exact sees_pure (tidy_exportDecl.2 hitem)

end Bodies

/-! ## Simple statements -/

theorem sees_stmtFrom {Q : Stmt → Prop} {start : Span} {build : Span → Stmt}
    (h : ∀ span, Q (build span)) : Sees tokens Q (stmtFrom start build) :=
  sees_spanFrom_bind fun span => sees_pure (h span)

/-- A statement that asks for nothing itself and has no type expression is tidy if what stands in it
is. -/
theorem sees_plainStmt {start : Span} {build : Span → Stmt}
    (hplain : ∀ span, (build span).WellFormed ∧ (TreePart.stmt (build span)).annotations = [])
    (h : ∀ span, ∀ child ∈ (build span).children, Tidy tokens child) :
    Sees tokens (TidyStmt tokens) (stmtFrom start build) := by
  refine sees_stmtFrom fun span => tidy_stmt.2 ⟨⟨(hplain span).1, ?_⟩, h span⟩
  rw [(hplain span).2]
  exact List.forall_mem_nil _

theorem sees_simpleStmt :
    Sees tokens (fun s => TidyStmt tokens s ∧ s.IsSimple) simpleStmt := by
  unfold simpleStmt
  apply sees_here_bind
  intro start
  apply sees_bind sees_expression
  intro target htarget
  apply sees_kind_bind
  intro kind
  split
  · exact sees_stmtFrom fun _ => ⟨tidy_stmt.2 ⟨⟨trivial, List.forall_mem_nil _⟩,
      List.forall_mem_singleton.2 htarget⟩, trivial⟩
  · split
    next hassignable =>
      apply sees_advance_bind
      intro _
      apply sees_bind sees_expression
      intro value hvalue
      exact sees_stmtFrom fun _ => ⟨tidy_stmt.2 ⟨⟨hassignable, List.forall_mem_nil _⟩,
        List.forall_mem_cons.2 ⟨htarget, List.forall_mem_singleton.2 hvalue⟩⟩, trivial⟩
    next => exact sees_throw

theorem sees_variableStmt :
    Sees tokens (fun s => TidyStmt tokens s ∧ s.IsInit) variableStmt := by
  unfold variableStmt
  apply sees_advance_bind
  intro word
  apply sees_expectIdentifier_bind
  intro name
  apply sees_bind sees_typeExpr?
  intro typeExpr htypeExpr
  apply sees_eat_bind
  intro taken
  apply sees_ite_bind (sees_some sees_expression) sees_none
  intro init hinit
  refine sees_stmtFrom fun _ => ⟨tidy_stmt.2 ⟨⟨trivial, fun a ha => ?_⟩, ?_⟩, trivial⟩
  · exact htypeExpr a (Option.mem_toList.1 ha)
  · simpa [Stmt.children] using hinit

theorem sees_returnStmt : Sees tokens (TidyStmt tokens) returnStmt := by
  unfold returnStmt
  apply sees_advance_bind
  intro word
  apply sees_kind_bind
  intro kind
  apply sees_ite_bind (sees_some sees_expression) sees_none
  intro value hvalue
  exact sees_plainStmt (fun _ => ⟨trivial, rfl⟩) fun _ => by simpa [Stmt.children] using hvalue

theorem sees_throwStmt : Sees tokens (TidyStmt tokens) throwStmt := by
  unfold throwStmt
  apply sees_advance_bind
  intro word
  apply sees_bind sees_expression
  intro value hvalue
  exact sees_plainStmt (fun _ => ⟨trivial, rfl⟩) fun _ => List.forall_mem_singleton.2 hvalue

theorem sees_impliedNumber {text : String} {span : Span} :
    Sees tokens (TidyExpr tokens) (impliedNumber text span) := by
  unfold impliedNumber
  exact sees_node fun _ => by simp [Expr.children]

theorem sees_loopBounds {span : Span} :
    Sees tokens (fun bounds => TidyExpr tokens bounds.1 ∧ TidyExpr tokens bounds.2)
      (loopBounds span) := by
  unfold loopBounds
  apply sees_bind sees_expression
  intro first hfirst
  apply sees_eat_if
  · apply sees_bind sees_expression
    intro last hlast
    exact sees_expect_bind fun _ => sees_pure ⟨hfirst, hlast⟩
  · apply sees_bind sees_impliedNumber
    intro zero hzero
    exact sees_expect_bind fun _ => sees_pure ⟨hzero, hfirst⟩

theorem sees_countingLoop {start span : Span} {name : String} {bounds : Expr × Expr}
    {body : Block} (hbounds : TidyExpr tokens bounds.1 ∧ TidyExpr tokens bounds.2)
    (hbody : TidyBlock tokens body) :
    Sees tokens (TidyStmt tokens) (countingLoop start span name bounds body) := by
  unfold countingLoop
  apply sees_node_bind
  intro counter
  apply sees_node_bind
  intro test
  apply sees_node_bind
  intro target
  apply sees_bind sees_impliedNumber
  intro one hone
  have hname (node : Node) : TidyExpr tokens (.identifier node name) := by simp [Expr.children]
  have hinit : TidyStmt tokens (.variableDecl span ⟨.letVar, name, none, some bounds.1⟩) :=
    tidy_stmt.2 ⟨⟨trivial, List.forall_mem_nil _⟩, List.forall_mem_singleton.2 hbounds.1⟩
  have htest : TidyExpr tokens (.binary test (.identifier counter name) .lt bounds.2) :=
    tidy_expr.2 (List.forall_mem_cons.2 ⟨hname counter, List.forall_mem_singleton.2 hbounds.2⟩)
  have hupdate : TidyStmt tokens (.assignment span (.identifier target name) .add one) :=
    tidy_stmt.2 ⟨⟨rfl, List.forall_mem_nil _⟩,
      List.forall_mem_cons.2 ⟨hname target, List.forall_mem_singleton.2 hone⟩⟩
  refine sees_stmtFrom fun _ => tidy_stmt.2 ⟨⟨⟨?_, ?_⟩, List.forall_mem_nil _⟩, ?_⟩
  · rintro _ ⟨⟩
    trivial
  · rintro _ ⟨⟩
    trivial
  · exact List.forall_mem_cons.2 ⟨hinit, List.forall_mem_cons.2 ⟨htest, List.forall_mem_cons.2
      ⟨hupdate, List.forall_mem_singleton.2 hbody⟩⟩⟩

theorem sees_loopInit :
    Sees tokens (fun init => ∀ s ∈ init, TidyStmt tokens s ∧ s.IsInit) loopInit := by
  unfold loopInit
  apply sees_kind_bind
  intro kind
  split
  · exact sees_none
  · split
    · exact sees_some sees_variableStmt
    · exact sees_some (sees_mono sees_simpleStmt fun _ h => ⟨h.1, h.2.isInit⟩)

/-! ## Compound statements -/

section Compound

variable {statement : Parse Stmt} (hstatement : Sees tokens (TidyStmt tokens) statement)

include hstatement

theorem sees_whileStmt : Sees tokens (TidyStmt tokens) (whileStmt statement) := by
  unfold whileStmt
  apply sees_advance_bind
  intro word
  apply sees_bind sees_headExpression
  intro test htest
  apply sees_bind (sees_body hstatement)
  intro body hbody
  exact sees_plainStmt (fun _ => ⟨trivial, rfl⟩) fun _ =>
    List.forall_mem_cons.2 ⟨htest, List.forall_mem_singleton.2 hbody⟩

theorem sees_clauseLoop {start : Span} :
    Sees tokens (TidyStmt tokens) (clauseLoop statement start) := by
  unfold clauseLoop
  apply sees_expect_bind
  intro _
  apply sees_bind sees_loopInit
  intro init hinit
  apply sees_expect_bind
  intro _
  apply sees_kind_bind
  intro kind
  apply sees_ite_bind sees_none (sees_some sees_expression)
  intro test htest
  apply sees_expect_bind
  intro _
  apply sees_kind_bind
  intro kind
  apply sees_ite_bind sees_none (sees_some sees_simpleStmt)
  intro update hupdate
  apply sees_expect_bind
  intro _
  apply sees_bind (sees_body hstatement)
  intro body hbody
  refine sees_stmtFrom fun _ => tidy_stmt.2 ⟨⟨⟨?_, ?_⟩, List.forall_mem_nil _⟩, ?_⟩
  · exact fun s hs => (hinit s hs).2
  · exact fun s hs => (hupdate s hs).2
  · simp only [Stmt.children, List.forall_mem_append, List.forall_mem_map, Option.mem_toList]
    exact ⟨fun s hs => (hinit s hs).1, htest, fun s hs => (hupdate s hs).1,
      List.forall_mem_singleton.2 hbody⟩

theorem sees_forStmt : Sees tokens (TidyStmt tokens) (forStmt statement) := by
  unfold forStmt
  apply sees_advance_bind
  intro word
  apply sees_kind_bind
  intro kind
  split
  · exact sees_clauseLoop hstatement
  · apply sees_here_bind
    intro span
    apply sees_expectIdentifier_bind
    intro name
    apply sees_eat_if
    · apply sees_bind sees_headExpression
      intro iterable hiterable
      apply sees_bind (sees_body hstatement)
      intro body hbody
      exact sees_plainStmt (fun _ => ⟨trivial, rfl⟩) fun _ =>
        List.forall_mem_cons.2 ⟨hiterable, List.forall_mem_singleton.2 hbody⟩
    · apply sees_eat_if
      · apply sees_bind sees_loopBounds
        intro bounds hbounds
        apply sees_bind (sees_body hstatement)
        intro body hbody
        exact sees_countingLoop hbounds hbody
      · exact sees_unexpected

theorem sees_catchClause :
    Sees tokens (fun clause => TidyBlock tokens clause.body) (catchClause statement) := by
  have hbody : ∀ {param : Option String},
      Sees tokens (fun clause : CatchClause => TidyBlock tokens clause.body)
        (do return ⟨param, ← body statement⟩) := by
    intro param
    apply sees_bind (sees_body hstatement)
    intro body hbody
    exact sees_pure hbody
  unfold catchClause
  apply sees_eat_if
  · apply sees_expectIdentifier_bind
    intro name
    apply sees_expect_bind
    intro _
    exact hbody
  · exact hbody

omit hstatement in
/-- The parts of a statement that guards a block. -/
theorem tidy_guarded {b : Block} {handler : Option CatchClause} {cleanup : Option Block}
    (hblock : TidyBlock tokens b) (hhandler : ∀ c ∈ handler, TidyBlock tokens c.body)
    (hcleanup : ∀ c ∈ cleanup, TidyBlock tokens c) (span : Span) :
    ∀ child ∈ (Stmt.tryStmt span b handler cleanup).children, Tidy tokens child := by
  simp only [Stmt.children, List.forall_mem_append, List.forall_mem_cons, List.forall_mem_map,
    Option.mem_toList]
  exact ⟨⟨hblock, hhandler⟩, hcleanup⟩

theorem sees_tryStmt : Sees tokens (TidyStmt tokens) (tryStmt statement) := by
  unfold tryStmt
  apply sees_advance_bind
  intro word
  apply sees_bind (sees_body hstatement)
  intro block hblock
  apply sees_eat_bind
  intro taken
  apply sees_ite_bind (sees_some (sees_catchClause hstatement)) sees_none
  intro handler hhandler
  apply sees_eat_bind
  intro taken
  apply sees_ite_bind (sees_some (sees_body hstatement)) sees_none
  intro cleanup hcleanup
  dsimp only
  split
  next => exact sees_unexpected
  next hsome =>
    have hguarded : handler.isSome = true ∨ cleanup.isSome = true := by
      rw [Bool.and_eq_true, Option.isNone_iff_eq_none, Option.isNone_iff_eq_none, not_and_or]
        at hsome
      exact hsome.imp Option.isSome_iff_ne_none.2 Option.isSome_iff_ne_none.2
    exact sees_stmtFrom fun span => tidy_stmt.2
      ⟨⟨hguarded, List.forall_mem_nil _⟩, tidy_guarded hblock hhandler hcleanup span⟩

omit hstatement in
theorem sees_asyncSegment {α : Type} {P : α → Prop} {word : Keyword} {content : Parse α}
    {expected : Expected} (hcontent : Sees tokens P content) :
    Sees tokens (fun a => ∀ c ∈ a, P c) (asyncSegment word content expected) := by
  unfold asyncSegment
  apply sees_get_bind
  intro s
  split
  · apply sees_advance_bind
    intro _
    apply sees_advance_bind
    intro _
    apply sees_bind hcontent
    intro value hvalue
    exact sees_expect_bind fun _ => sees_pure fun _ hc => Option.some.inj hc ▸ hvalue
  · exact sees_none

theorem sees_asyncStmt : Sees tokens (TidyStmt tokens) (asyncStmt statement) := by
  unfold asyncStmt
  apply sees_advance_bind
  intro word
  apply sees_expect_bind
  intro _
  apply sees_kind_bind
  intro kind
  split
  · apply sees_bind (sees_block hstatement)
    intro block hblock
    apply sees_bind (sees_asyncSegment (sees_catchClause hstatement))
    intro handler hhandler
    apply sees_bind (sees_asyncSegment (sees_body hstatement))
    intro cleanup hcleanup
    apply sees_expect_bind
    intro _
    exact sees_plainStmt (fun _ => ⟨trivial, rfl⟩) (tidy_guarded hblock hhandler hcleanup)
  · exact sees_unexpected

end Compound

/-! ## All statements -/

/-- Both rules read a tidy statement, and what is read as a branch may stand behind another. -/
structure StmtRules.See (tokens : List Token) (rules : StmtRules) : Prop where
  statement : Sees tokens (TidyStmt tokens) rules.statement
  ifStmt : Sees tokens (fun s => TidyStmt tokens s ∧ s.IsAlternate) rules.ifStmt

variable {rules : StmtRules}

theorem sees_ifRule (hrules : rules.See tokens) :
    Sees tokens (fun s => TidyStmt tokens s ∧ s.IsAlternate) (ifRule rules) := by
  have hbody := sees_body hrules.statement
  unfold ifRule
  apply sees_advance_bind
  intro word
  apply sees_bind sees_headExpression
  intro test htest
  apply sees_bind hbody
  intro consequent hconsequent
  have hstmt : ∀ {start : Span} (alternate : Option Stmt),
      (∀ s ∈ alternate, TidyStmt tokens s ∧ s.IsAlternate) →
      Sees tokens (fun s => TidyStmt tokens s ∧ s.IsAlternate)
        (stmtFrom start (.ifElse · test consequent alternate)) := by
    intro start alternate halternate
    refine sees_stmtFrom fun _ => ⟨tidy_stmt.2 ⟨⟨?_, List.forall_mem_nil _⟩, ?_⟩, trivial⟩
    · exact fun s hs => (halternate s hs).2
    · simp only [Stmt.children, List.forall_mem_cons, List.forall_mem_map, Option.mem_toList]
      exact ⟨htest, hconsequent, fun s hs => (halternate s hs).1⟩
  have hblock : Sees tokens (fun alternate => ∀ s ∈ alternate, TidyStmt tokens s ∧ s.IsAlternate)
      ((fun b => some (.block b)) <$> body rules.statement) := by
    refine sees_map hbody fun b hb s hs => ?_
    obtain rfl := Option.some.inj hs
    exact ⟨tidy_stmt.2 ⟨⟨trivial, List.forall_mem_nil _⟩, List.forall_mem_singleton.2 hb⟩, trivial⟩
  apply sees_eat_if
  · apply sees_kind_bind
    intro kind
    exact sees_ite_bind (sees_some hrules.ifStmt) hblock hstmt
  · exact sees_bind sees_none hstmt

theorem sees_bareStatement (hrules : rules.See tokens) :
    Sees tokens (TidyStmt tokens) (bareStatement rules) := by
  unfold bareStatement
  apply sees_here_bind
  intro start
  apply sees_kind_bind
  intro kind
  split
  case h_1 | h_2 | h_3 => exact sees_mono sees_variableStmt fun _ h => h.1
  case h_4 => exact sees_mono (sees_ifRule hrules) fun _ h => h.1
  case h_5 => exact sees_whileStmt hrules.statement
  case h_6 => exact sees_forStmt hrules.statement
  case h_7 => exact sees_returnStmt
  case h_8 | h_9 =>
    apply sees_advance_bind
    intro _
    exact sees_plainStmt (fun _ => ⟨trivial, rfl⟩) fun _ => List.forall_mem_nil _
  case h_10 => exact sees_throwStmt
  case h_11 => exact sees_tryStmt hrules.statement
  case h_12 => exact sees_asyncStmt hrules.statement
  case h_13 | h_14 | h_15 | h_16 =>
    apply sees_idle_bind fun _ => skims_modifiers
    intro modifiers
    apply sees_bind (sees_function hrules.statement)
    intro function hfunction
    exact sees_plainStmt (fun _ => ⟨trivial, rfl⟩) fun _ => List.forall_mem_singleton.2 hfunction
  case h_17 =>
    apply sees_bind sees_importDecl
    intro item hitem
    exact sees_plainStmt (fun _ => ⟨trivial, rfl⟩) fun _ => List.forall_mem_singleton.2 hitem
  case h_18 =>
    apply sees_bind (sees_exportDecl hrules.statement)
    intro item hitem
    exact sees_plainStmt (fun _ => ⟨trivial, rfl⟩) fun _ => List.forall_mem_singleton.2 hitem
  case h_19 =>
    refine sees_map (sees_block hrules.statement) fun b hb => ?_
    exact tidy_stmt.2 ⟨⟨trivial, List.forall_mem_nil _⟩, List.forall_mem_singleton.2 hb⟩
  case h_20 => exact sees_mono sees_simpleStmt fun _ h => h.1

theorem sees_statementRule (hrules : rules.See tokens) :
    Sees tokens (TidyStmt tokens) (statementRule rules) := by
  unfold statementRule
  apply sees_bind (sees_bareStatement hrules)
  intro stmt hstmt
  exact sees_eat_bind fun _ => sees_pure hstmt

theorem see_stmtRules (depth : Nat) : (stmtRules depth).See tokens := by
  induction depth with
  | zero => exact ⟨sees_fail, sees_fail⟩
  | succ depth ih => exact ⟨sees_statementRule ih, sees_ifRule ih⟩

theorem sees_statement : Sees tokens (TidyStmt tokens) statement :=
  sees_of_eq (fun s => (see_stmtRules (s.rest.length + 1)).statement) fun _ => rfl

end ComponentLang.Grammar
