import ComponentLang.Grammar.Statement
import ComponentLang.Proofs.Grammar.Head

/-!
# Statements behind a head

No statement is read in a head. A rule that reads statements sets the restriction for the head only,
so its bodies are read as the rule itself is, and the lists of statements go on in the same way
behind a statement that cannot be read.
-/
namespace ComponentLang.Grammar

open Parse

variable {b : Bool}

/-! ## Type expressions -/

theorem sameAt_typeExprSuffix {start : Span} {a : TypeExpr} :
    SameAt b (typeExprSuffix start a) (typeExprSuffix start a) := by
  unfold typeExprSuffix
  apply sameAt_bind sameAt_get
  intro s
  split
  · apply sameAt_bind sameAt_advance
    intro _
    exact sameAt_bind sameAt_spanFrom fun span => sameAt_pure _
  · split
    · apply sameAt_bind sameAt_advance
      intro _
      apply sameAt_bind sameAt_advance
      intro _
      exact sameAt_bind sameAt_spanFrom fun span => sameAt_pure _
    · exact sameAt_pure _

theorem sameAt_typeExprRule {inner : Parse TypeExpr} (h : SameAt b inner inner) :
    SameAt b (typeExprRule inner) (typeExprRule inner) := by
  have hatom : SameAt b (typeExprAtom inner) (typeExprAtom inner) := by
    unfold typeExprAtom
    apply sameAt_bind sameAt_peek
    intro token
    split
    case h_1 | h_2 =>
      apply sameAt_bind sameAt_advance
      intro _
      split
      · apply sameAt_eat_if
        · apply sameAt_bind h
          intro element
          apply sameAt_bind sameAt_expect
          intro _
          exact sameAt_bind sameAt_spanFrom fun span => sameAt_pure _
        · exact sameAt_pure _
      · exact sameAt_pure _
    case h_3 =>
      apply sameAt_bind sameAt_advance
      intro _
      apply sameAt_bind h
      intro typeExpr
      exact sameAt_bind sameAt_expect fun _ => sameAt_pure _
    case h_4 => exact sameAt_unexpected
  have hsuffixed : SameAt b (suffixedTypeExpr inner) (suffixedTypeExpr inner) := by
    unfold suffixedTypeExpr
    apply sameAt_bind sameAt_here
    intro start
    exact sameAt_bind hatom (sameAt_iterate fun _ => sameAt_typeExprSuffix)
  have hmember (members : List TypeExpr) :
      SameAt b (unionMember inner members) (unionMember inner members) :=
    sameAt_eat_if (sameAt_bind hsuffixed fun member => sameAt_pure _) (sameAt_pure _)
  unfold typeExprRule
  apply sameAt_bind hsuffixed
  intro first
  apply sameAt_bind sameAt_kind
  intro kind
  split
  · apply sameAt_bind (sameAt_iterate hmember _)
    intro members
    exact sameAt_bind sameAt_spanFrom fun span => sameAt_pure _
  · exact sameAt_pure _

theorem sameAt_typeExprAt (depth : Nat) : SameAt b (typeExprAt depth) (typeExprAt depth) := by
  induction depth with
  | zero => exact sameAt_fail
  | succ depth ih => exact sameAt_typeExprRule ih

theorem sameAt_typeExpr : SameAt b typeExpr typeExpr :=
  sameAt_of_eq (fun s => sameAt_typeExprAt (s.rest.length + 1)) (fun _ => rfl) fun _ => rfl

theorem sameAt_typeExpr? : SameAt b typeExpr? typeExpr? :=
  sameAt_eat_if (sameAt_bind sameAt_typeExpr fun _ => sameAt_pure _) (sameAt_pure _)

/-! ## Recovery and blocks -/

theorem sameAt_recover {problem : Problem} : SameAt b (recover problem) (recover problem) := by
  have hstep (_ : Unit) : SameAt b (synchronizeStep ()) (synchronizeStep ()) := by
    unfold synchronizeStep
    apply sameAt_bind sameAt_get
    intro s
    split
    · exact sameAt_pure _
    · apply sameAt_bind sameAt_advance
      intro token
      split
      · exact sameAt_pure _
      · exact sameAt_pure _
  have hreport : SameAt b (modify fun s => s.report problem : Parse PUnit)
      (modify fun s => s.report problem) := fun _ hs => ⟨rfl, hs⟩
  unfold recover
  apply sameAt_bind sameAt_here
  intro here
  apply sameAt_bind hreport
  intro _
  exact sameAt_bind (sameAt_iterate hstep ()) fun _ => sameAt_pure _

theorem sameAt_ensureProgress {before : Nat} :
    SameAt b (ensureProgress before) (ensureProgress before) := by
  intro s hs
  refine ⟨rfl, ?_⟩
  have hends :
      Ends (fun _ t => t.inHead = b) (fun _ t => t.inHead = b) (ensureProgress before) s := by
    unfold ensureProgress
    rw [ends_modify_bind, ends_get_bind]
    split
    · exact hs
    · split
      · exact (State.inHead_next _).trans hs
      · exact hs
  unfold Ends at hends
  generalize (ensureProgress before).run s = ended at hends
  obtain ⟨outcome, t⟩ := ended
  cases outcome <;> exact hends

section Bodies

variable {statement statement' : Parse Stmt} (hstatement : SameAt b statement statement')

include hstatement

theorem sameAt_recovering : SameAt b (recovering statement) (recovering statement') := by
  unfold recovering
  apply sameAt_bind (sameAt_attempt hstatement)
  intro result
  cases result with
  | ok stmt => exact sameAt_pure stmt
  | error problem => exact sameAt_recover

theorem sameAt_blockStep {close : TokenKind} {stmts : List Stmt} :
    SameAt b (blockStep statement close stmts) (blockStep statement' close stmts) := by
  unfold blockStep
  apply sameAt_bind sameAt_get
  intro s
  split
  · exact sameAt_pure _
  · apply sameAt_eat_if
    · exact sameAt_pure _
    · apply sameAt_bind (sameAt_recovering hstatement)
      intro stmt
      exact sameAt_bind sameAt_ensureProgress fun _ => sameAt_pure _

theorem sameAt_block {bracket : Bracket} :
    SameAt b (block statement bracket) (block statement' bracket) := by
  unfold block
  apply sameAt_bind sameAt_here
  intro start
  apply sameAt_eat_if
  · apply sameAt_bind (sameAt_iterate (fun _ => sameAt_blockStep hstatement) [])
    intro stmts
    apply sameAt_bind sameAt_expect
    intro _
    exact sameAt_bind sameAt_spanFrom fun span => sameAt_pure _
  · exact sameAt_unexpected

theorem sameAt_body : SameAt b (body statement) (body statement') := by
  unfold body
  apply sameAt_bind sameAt_kind
  intro kind
  split
  · exact sameAt_block hstatement
  · exact sameAt_block hstatement
  · exact sameAt_unexpected

end Bodies

/-! ## Imports and functions -/

theorem sameAt_importDecl : SameAt b importDecl importDecl := by
  have hnames : SameAt b importedNames importedNames := by
    unfold importedNames
    apply sameAt_bind (sameAt_commaSeparated sameAt_expectIdentifier)
    intro names
    exact sameAt_bind sameAt_expect fun _ => sameAt_pure _
  -- Both forms of an import end in the same way.
  have hsource (start : Span) (names : List String) (default : Option String) :
      SameAt b
        (do
          if ← eat (.keyword .fromKw) then
            let source ← expect .string .modulePath
            return (⟨names, default, source.lexeme, ← spanFrom start⟩ : Import)
          else unexpected .fromWord)
        (do
          if ← eat (.keyword .fromKw) then
            let source ← expect .string .modulePath
            return (⟨names, default, source.lexeme, ← spanFrom start⟩ : Import)
          else unexpected .fromWord) := by
    apply sameAt_eat_if
    · apply sameAt_bind sameAt_expect
      intro source
      exact sameAt_bind sameAt_spanFrom fun span => sameAt_pure _
    · exact sameAt_unexpected
  unfold importDecl
  apply sameAt_bind sameAt_advance
  intro word
  apply sameAt_eat_if
  · exact sameAt_bind hnames fun names => hsource word.span names none
  · exact sameAt_bind sameAt_expectIdentifier fun name => hsource word.span [] (some name)

theorem sameAt_modifiers : SameAt b modifiers modifiers := by
  refine sameAt_iterate (fun names => ?_) []
  unfold modifierStep
  apply sameAt_bind sameAt_kind
  intro kind
  split
  · exact sameAt_bind sameAt_advance fun token => sameAt_pure _
  · exact sameAt_pure _

theorem sameAt_param : SameAt b param param := by
  unfold param
  apply sameAt_bind sameAt_here
  intro start
  apply sameAt_bind sameAt_expectIdentifier
  intro name
  apply sameAt_bind sameAt_typeExpr?
  intro typeExpr
  exact sameAt_bind sameAt_spanFrom fun span => sameAt_pure _

theorem sameAt_functionWord : SameAt b functionWord functionWord :=
  sameAt_eat_if (sameAt_pure _) (sameAt_eat_if (sameAt_pure _) sameAt_unexpected)

section Functions

variable {statement statement' : Parse Stmt} (hstatement : SameAt b statement statement')

include hstatement

theorem sameAt_function {modifiers : List String} :
    SameAt b (function statement modifiers) (function statement' modifiers) := by
  unfold function
  apply sameAt_bind sameAt_here
  intro start
  apply sameAt_bind sameAt_eat
  intro async
  apply sameAt_bind sameAt_functionWord
  intro _
  apply sameAt_bind sameAt_expectIdentifier
  intro name
  apply sameAt_bind sameAt_expect
  intro _
  apply sameAt_bind (sameAt_commaSeparated sameAt_param)
  intro params
  apply sameAt_bind sameAt_expect
  intro _
  apply sameAt_bind sameAt_typeExpr?
  intro returnType
  apply sameAt_bind (sameAt_block hstatement)
  intro body
  exact sameAt_bind sameAt_spanFrom fun span => sameAt_pure _

theorem sameAt_method : SameAt b (method statement) (method statement') := by
  unfold method
  apply sameAt_bind sameAt_here
  intro start
  apply sameAt_bind sameAt_expectIdentifier
  intro name
  apply sameAt_bind (sameAt_block hstatement)
  intro body
  exact sameAt_bind sameAt_spanFrom fun span => sameAt_pure _

end Functions

/-! ## Simple statements -/

theorem sameAt_stmtFrom {start : Span} {build : Span → Stmt} :
    SameAt b (stmtFrom start build) (stmtFrom start build) :=
  sameAt_bind sameAt_spanFrom fun span => sameAt_pure (build span)

theorem sameAt_expression? : SameAt b (some <$> expression) (some <$> expression) :=
  sameAt_map sameAt_expression

theorem sameAt_simpleStmt : SameAt b simpleStmt simpleStmt := by
  unfold simpleStmt
  apply sameAt_bind sameAt_here
  intro start
  apply sameAt_bind sameAt_expression
  intro target
  apply sameAt_bind sameAt_kind
  intro kind
  split
  · exact sameAt_stmtFrom
  · split
    · apply sameAt_bind sameAt_advance
      intro _
      exact sameAt_bind sameAt_expression fun value => sameAt_stmtFrom
    · exact sameAt_throw _

theorem sameAt_variableStmt : SameAt b variableStmt variableStmt := by
  unfold variableStmt
  apply sameAt_bind sameAt_advance
  intro word
  apply sameAt_bind sameAt_expectIdentifier
  intro name
  apply sameAt_bind sameAt_typeExpr?
  intro typeExpr
  apply sameAt_bind sameAt_eat
  intro taken
  exact sameAt_ite_bind sameAt_expression? (sameAt_pure none) fun init => sameAt_stmtFrom

theorem sameAt_returnStmt : SameAt b returnStmt returnStmt := by
  unfold returnStmt
  apply sameAt_bind sameAt_advance
  intro word
  apply sameAt_bind sameAt_kind
  intro kind
  exact sameAt_ite_bind sameAt_expression? (sameAt_pure none) fun value => sameAt_stmtFrom

theorem sameAt_throwStmt : SameAt b throwStmt throwStmt := by
  unfold throwStmt
  apply sameAt_bind sameAt_advance
  intro word
  exact sameAt_bind sameAt_expression fun value => sameAt_stmtFrom

/-! ## Branches and loops -/

theorem sameAt_impliedNumber {text : String} {span : Span} :
    SameAt b (impliedNumber text span) (impliedNumber text span) :=
  sameAt_bind sameAt_node fun _ => sameAt_pure _

theorem sameAt_loopBounds {span : Span} : SameAt b (loopBounds span) (loopBounds span) := by
  have hend (bounds : Expr × Expr) :
      SameAt b (expect .rparen .loopBoundsEnd >>= fun _ => pure bounds)
        (expect .rparen .loopBoundsEnd >>= fun _ => pure bounds) :=
    sameAt_bind sameAt_expect fun _ => sameAt_pure bounds
  unfold loopBounds
  apply sameAt_bind sameAt_expression
  intro first
  apply sameAt_eat_if
  · apply sameAt_bind sameAt_expression
    intro last
    exact sameAt_bind (sameAt_pure _) hend
  · apply sameAt_bind sameAt_impliedNumber
    intro zero
    exact sameAt_bind (sameAt_pure _) hend

theorem sameAt_countingLoop {start span : Span} {name : String} {bounds : Expr × Expr}
    {body : Block} :
    SameAt b (countingLoop start span name bounds body)
      (countingLoop start span name bounds body) := by
  unfold countingLoop
  apply sameAt_bind sameAt_node
  intro counter
  apply sameAt_bind sameAt_node
  intro test
  apply sameAt_bind sameAt_node
  intro target
  exact sameAt_bind sameAt_impliedNumber fun one => sameAt_stmtFrom

theorem sameAt_loopInit : SameAt b loopInit loopInit := by
  unfold loopInit
  apply sameAt_bind sameAt_kind
  intro kind
  split
  · exact sameAt_pure none
  · split
    · exact sameAt_map sameAt_variableStmt
    · exact sameAt_map sameAt_simpleStmt

section Compound

variable {statement statement' : Parse Stmt} (hstatement : SameAt b statement statement')

include hstatement

theorem sameAt_whileStmt : SameAt b (whileStmt statement) (whileStmt statement') := by
  unfold whileStmt
  apply sameAt_bind sameAt_advance
  intro word
  apply sameAt_bind sameAt_headExpression
  intro test
  exact sameAt_bind (sameAt_body hstatement) fun body => sameAt_stmtFrom

theorem sameAt_clauseLoop {start : Span} :
    SameAt b (clauseLoop statement start) (clauseLoop statement' start) := by
  unfold clauseLoop
  apply sameAt_bind sameAt_expect
  intro _
  apply sameAt_bind sameAt_loopInit
  intro init
  apply sameAt_bind sameAt_expect
  intro _
  apply sameAt_bind sameAt_kind
  intro kind
  apply sameAt_ite_bind (sameAt_pure none) sameAt_expression?
  intro test
  apply sameAt_bind sameAt_expect
  intro _
  apply sameAt_bind sameAt_kind
  intro kind
  apply sameAt_ite_bind (sameAt_pure none) (sameAt_map sameAt_simpleStmt)
  intro update
  apply sameAt_bind sameAt_expect
  intro _
  exact sameAt_bind (sameAt_body hstatement) fun body => sameAt_stmtFrom

theorem sameAt_forStmt : SameAt b (forStmt statement) (forStmt statement') := by
  unfold forStmt
  apply sameAt_bind sameAt_advance
  intro word
  apply sameAt_bind sameAt_kind
  intro kind
  split
  · exact sameAt_clauseLoop hstatement
  · apply sameAt_bind sameAt_here
    intro span
    apply sameAt_bind sameAt_expectIdentifier
    intro name
    apply sameAt_eat_if
    · apply sameAt_bind sameAt_headExpression
      intro iterable
      exact sameAt_bind (sameAt_body hstatement) fun body => sameAt_stmtFrom
    · apply sameAt_eat_if
      · apply sameAt_bind sameAt_loopBounds
        intro bounds
        exact sameAt_bind (sameAt_body hstatement) fun body => sameAt_countingLoop
      · exact sameAt_unexpected

/-! ## Failure and asynchrony -/

theorem sameAt_catchClause : SameAt b (catchClause statement) (catchClause statement') := by
  have hbody (param : Option String) : SameAt b
      (do return (⟨param, ← body statement⟩ : CatchClause))
      (do return (⟨param, ← body statement'⟩ : CatchClause)) :=
    sameAt_bind (sameAt_body hstatement) fun body => sameAt_pure _
  unfold catchClause
  apply sameAt_eat_if
  · apply sameAt_bind sameAt_expectIdentifier
    intro name
    exact sameAt_bind sameAt_expect fun _ => hbody (some name)
  · exact hbody none

theorem sameAt_tryStmt : SameAt b (tryStmt statement) (tryStmt statement') := by
  unfold tryStmt
  apply sameAt_bind sameAt_advance
  intro word
  apply sameAt_bind (sameAt_body hstatement)
  intro block
  apply sameAt_bind sameAt_eat
  intro taken
  apply sameAt_ite_bind (sameAt_map (sameAt_catchClause hstatement)) (sameAt_pure none)
  intro handler
  apply sameAt_bind sameAt_eat
  intro taken
  apply sameAt_ite_bind (sameAt_map (sameAt_body hstatement)) (sameAt_pure none)
  intro cleanup
  dsimp only
  split
  · exact sameAt_unexpected
  · exact sameAt_stmtFrom

omit hstatement in
theorem sameAt_asyncSegment {α : Type} {word : Keyword} {content content' : Parse α}
    {expected : Expected} (hcontent : SameAt b content content') :
    SameAt b (asyncSegment word content expected) (asyncSegment word content' expected) := by
  unfold asyncSegment
  apply sameAt_bind sameAt_get
  intro s
  split
  · apply sameAt_bind sameAt_advance
    intro _
    apply sameAt_bind sameAt_advance
    intro _
    apply sameAt_bind hcontent
    intro value
    exact sameAt_bind sameAt_expect fun _ => sameAt_pure _
  · exact sameAt_pure none

theorem sameAt_asyncStmt : SameAt b (asyncStmt statement) (asyncStmt statement') := by
  unfold asyncStmt
  apply sameAt_bind sameAt_advance
  intro word
  apply sameAt_bind sameAt_expect
  intro _
  apply sameAt_bind sameAt_kind
  intro kind
  split
  · apply sameAt_bind (sameAt_block hstatement)
    intro block
    apply sameAt_bind (sameAt_asyncSegment (sameAt_catchClause hstatement))
    intro handler
    apply sameAt_bind (sameAt_asyncSegment (sameAt_body hstatement))
    intro cleanup
    exact sameAt_bind sameAt_expect fun _ => sameAt_stmtFrom
  · exact sameAt_unexpected

end Compound

/-- The rules of statements do the same where the restriction is `b`. -/
structure StmtRules.Same (b : Bool) (rules rules' : StmtRules) : Prop where
  statement : SameAt b rules.statement rules'.statement
  ifStmt : SameAt b rules.ifStmt rules'.ifStmt

theorem sameAt_ifRule {rules rules' : StmtRules} (hrules : rules.Same b rules') :
    SameAt b (ifRule rules) (ifRule rules') := by
  have hbody := sameAt_body hrules.statement
  unfold ifRule
  apply sameAt_bind sameAt_advance
  intro word
  apply sameAt_bind sameAt_headExpression
  intro test
  apply sameAt_bind hbody
  intro consequent
  apply sameAt_eat_if
  · apply sameAt_bind sameAt_kind
    intro kind
    exact sameAt_ite_bind (sameAt_map hrules.ifStmt) (sameAt_map hbody) fun alternate =>
      sameAt_stmtFrom
  · exact sameAt_bind (sameAt_pure none) fun alternate => sameAt_stmtFrom

end ComponentLang.Grammar
