import ComponentLang.Grammar.Declaration

/-!
# Reading statements

The counting loop `for i (from, to) body` is read as the loop `for (let i = from; i < to; i += 1)
body`; `for i (to) body` counts from zero. The nodes that are not written down have the place of
the loop variable.
-/
namespace ComponentLang.Grammar

open Parse

/-- The rules that a rule may use once it has taken a token. -/
structure StmtRules where
  statement : Parse Stmt
  ifStmt : Parse Stmt

/-- A statement that began at `start` and ends here. -/
def stmtFrom (start : Span) (build : Span → Stmt) : Parse Stmt := return build (← spanFrom start)

/-! ## Simple statements -/

def assignOp? : TokenKind → Option AssignOp
  | .equals => some .assign
  | .plusEquals => some .add
  | .minusEquals => some .sub
  | .starEquals => some .mul
  | .slashEquals => some .div
  | .percentEquals => some .mod
  | _ => none

/-- An expression or an assignment. -/
def simpleStmt : Parse Stmt := do
  let start ← here
  let target ← expression
  match assignOp? (← kind) with
  | none => stmtFrom start (.expression · target)
  | some op =>
    if target.isAssignable then
      let _ ← advance
      let value ← expression
      stmtFrom start (.assignment · target op value)
    else throw (.ofSpan .invalidTarget target.span)

def variableKind : TokenKind → VariableKind
  | .keyword .constKw => .constVar
  | .keyword .varKw => .varVar
  | _ => .letVar

/-- A variable declaration, of which the first token is its keyword. -/
def variableStmt : Parse Stmt := do
  let word ← advance
  let name ← expectIdentifier .variableName
  let typeExpr ← typeExpr?
  let init ← if ← eat .equals then some <$> expression else pure none
  stmtFrom word.span (.variableDecl · ⟨variableKind word.kind, name, typeExpr, init⟩)

def returnStmt : Parse Stmt := do
  let start := (← advance).span
  let value ← if startsExpression (← kind) then some <$> expression else pure none
  stmtFrom start (.returnStmt · value)

def throwStmt : Parse Stmt := do
  let start := (← advance).span
  let value ← expression
  stmtFrom start (.throwStmt · value)

/-! ## Branches and loops -/

/-- A branch, of which the first token is its keyword. -/
def ifRule (rules : StmtRules) : Parse Stmt := do
  let start := (← advance).span
  let test ← headExpression
  let consequent ← body rules.statement
  let alternate ←
    if ← eat (.keyword .elseKw) then
      if (← kind) = .keyword .ifKw then some <$> rules.ifStmt
      else (fun b => some (.block b)) <$> body rules.statement
    else pure none
  stmtFrom start (.ifElse · test consequent alternate)

def whileStmt (statement : Parse Stmt) : Parse Stmt := do
  let start := (← advance).span
  let test ← headExpression
  let body ← body statement
  stmtFrom start (.whileLoop · test body)

/-- A number that is not written down, at the place of something that is. -/
def impliedNumber (text : String) (span : Span) : Parse Expr :=
  return .literal (← node span) (.number text .int)

/-- The bounds of a counting loop, of which the first bracket is taken. -/
def loopBounds (span : Span) : Parse (Expr × Expr) := do
  let first ← expression
  let bounds ←
    if ← eat .comma then do pure (first, ← expression)
    else do pure (← impliedNumber "0" span, first)
  let _ ← expect .rparen .loopBoundsEnd
  return bounds

/-- The counting loop over `name`, written at `span`, with the given bounds and body. -/
def countingLoop (start span : Span) (name : String) (bounds : Expr × Expr) (body : Block) :
    Parse Stmt := do
  let init := Stmt.variableDecl span ⟨.letVar, name, none, some bounds.1⟩
  let counter := Expr.identifier (← node span) name
  let test := Expr.binary (← node span) counter .lt bounds.2
  let target := Expr.identifier (← node span) name
  let update := Stmt.assignment span target .add (← impliedNumber "1" span)
  stmtFrom start (.forLoop · (some init) (some test) (some update) body)

def startsVariable : TokenKind → Bool
  | .keyword .letKw | .keyword .constKw | .keyword .varKw => true
  | _ => false

/-- The part of a loop head before its first semicolon. -/
def loopInit : Parse (Option Stmt) := do
  let next ← kind
  if next = .semicolon then return none
  else if startsVariable next then some <$> variableStmt
  else some <$> simpleStmt

/-- A loop with three clauses; its keyword is taken. -/
def clauseLoop (statement : Parse Stmt) (start : Span) : Parse Stmt := do
  let _ ← expect .lparen .forStart
  let init ← loopInit
  let _ ← expect .semicolon .forInitEnd
  let test ← if (← kind) = .semicolon then pure none else some <$> expression
  let _ ← expect .semicolon .forTestEnd
  let update ← if (← kind) = .rparen then pure none else some <$> simpleStmt
  let _ ← expect .rparen .forEnd
  let body ← body statement
  stmtFrom start (.forLoop · init test update body)

/-- A loop of any form, of which the first token is its keyword. -/
def forStmt (statement : Parse Stmt) : Parse Stmt := do
  let start := (← advance).span
  if (← kind) = .lparen then clauseLoop statement start
  else
    let span ← here
    let name ← expectIdentifier .loopVariable
    if ← eat (.keyword .inKw) then
      let iterable ← headExpression
      let body ← body statement
      stmtFrom start (.forIn · name iterable body)
    else if ← eat .lparen then
      let bounds ← loopBounds span
      let body ← body statement
      countingLoop start span name bounds body
    else unexpected .loopHead

/-! ## Failure and asynchrony -/

/-- What follows the word `catch`. -/
def catchClause (statement : Parse Stmt) : Parse CatchClause := do
  let param ←
    if ← eat .lparen then
      do
        let name ← expectIdentifier .errorName
        let _ ← expect .rparen .errorNameEnd
        pure (some name)
    else pure none
  return ⟨param, ← body statement⟩

def tryStmt (statement : Parse Stmt) : Parse Stmt := do
  let start := (← advance).span
  let block ← body statement
  let handler ← if ← eat (.keyword .catchKw) then some <$> catchClause statement else pure none
  let cleanup ← if ← eat (.keyword .finallyKw) then some <$> body statement else pure none
  if handler.isNone && cleanup.isNone then unexpected .handler
  else stmtFrom start (.tryStmt · block handler cleanup)

/-- A segment of an asynchronous block that begins with `word`, if one stands here. -/
def asyncSegment {α : Type} (word : Keyword) (content : Parse α) (expected : Expected) :
    Parse (Option α) := do
  let s ← get
  if s.kind = .lbracket && s.secondKind = .keyword word then
    let _ ← advance
    let _ ← advance
    let value ← content
    let _ ← expect .rbracket expected
    return some value
  else return none

/-- An asynchronous block, of which the first token is its marker. -/
def asyncStmt (statement : Parse Stmt) : Parse Stmt := do
  let start := (← advance).span
  let _ ← expect .lbrace .asyncStart
  if (← kind) = .lbracket then
    let block ← block statement .square
    let handler ← asyncSegment .catchKw (catchClause statement) .asyncCatchEnd
    let cleanup ← asyncSegment .finallyKw (body statement) .asyncFinallyEnd
    let _ ← expect .rbrace .asyncEnd
    stmtFrom start (.asyncBlock · block handler cleanup)
  else unexpected .asyncTry

/-! ## All statements -/

/-- A statement without the semicolon that may end it. -/
def bareStatement (rules : StmtRules) : Parse Stmt := do
  let start ← here
  match ← kind with
  | .keyword .letKw | .keyword .constKw | .keyword .varKw => variableStmt
  | .keyword .ifKw => ifRule rules
  | .keyword .whileKw => whileStmt rules.statement
  | .keyword .forKw => forStmt rules.statement
  | .keyword .returnKw => returnStmt
  | .keyword .breakKw =>
    let _ ← advance
    stmtFrom start .breakStmt
  | .keyword .continueKw =>
    let _ ← advance
    stmtFrom start .continueStmt
  | .keyword .throwKw => throwStmt
  | .keyword .tryKw => tryStmt rules.statement
  | .asyncBlock => asyncStmt rules.statement
  | .keyword .functionKw | .keyword .fnKw | .keyword .asyncKw | .atModifier =>
    let function ← function rules.statement (← modifiers)
    stmtFrom start (.functionDecl · function)
  | .keyword .importKw =>
    let item ← importDecl
    stmtFrom start (.importDecl · item)
  | .keyword .exportKw =>
    let item ← exportDecl rules.statement
    stmtFrom start (.exportDecl · item)
  | .lbrace => .block <$> block rules.statement .brace
  | _ => simpleStmt

def statementRule (rules : StmtRules) : Parse Stmt := do
  let stmt ← bareStatement rules
  let _ ← eat .semicolon
  return stmt

/-- The rules of statements at a depth. -/
def stmtRules : Nat → StmtRules
  | 0 =>
    { statement := fail .iterationLimit
      ifStmt := fail .iterationLimit }
  | depth + 1 =>
    { statement := fun s => statementRule (stmtRules depth) s
      ifStmt := fun s => ifRule (stmtRules depth) s }

def statement : Parse Stmt := fun s => (stmtRules (s.rest.length + 1)).statement s

end ComponentLang.Grammar
