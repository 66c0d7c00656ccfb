import ComponentLang.Grammar.TypeExpr
import ComponentLang.Grammar.Block
import ComponentLang.Grammar.Markup

/-!
# Reading declarations

Imports, functions, components and exports. `statement` reads the statements of their bodies.
-/
namespace ComponentLang.Grammar

open Parse

/-! ## Imports -/

/-- The names in braces of an import, of which the first brace is taken. -/
def importedNames : Parse (List String) := do
  let names ← commaSeparated .rbrace (expectIdentifier .importedName)
  let _ ← expect .rbrace .importEnd
  return names

/-- An import, of which the first token is its keyword. -/
def importDecl : Parse Import := do
  let start := (← advance).span
  let (names, default) ←
    if ← eat .lbrace then
      do pure (← importedNames, none)
    else
      do pure ([], some (← expectIdentifier .importStart))
  if ← eat (.keyword .fromKw) then
    let source ← expect .string .modulePath
    return ⟨names, default, source.lexeme, ← spanFrom start⟩
  else unexpected .fromWord

/-! ## Functions -/

def modifierStep (names : List String) : Parse (Turn (List String) (List String)) := do
  if (← kind) = .atModifier then return .again (names ++ [(← advance).lexeme])
  else return .done names

/-- The names of the modifiers before a declaration. -/
def modifiers : Parse (List String) := iterate modifierStep []

def param : Parse Param := do
  let start ← here
  let name ← expectIdentifier .paramName
  let typeExpr ← typeExpr?
  return ⟨name, typeExpr, ← spanFrom start⟩

/-- The word that begins a function. -/
def functionWord : Parse Unit := do
  if ← eat (.keyword .functionKw) then pure ()
  else if ← eat (.keyword .fnKw) then pure ()
  else unexpected .functionWord

/-- A function after its modifiers. -/
def function (statement : Parse Stmt) (modifiers : List String) : Parse Function := do
  let start ← here
  let async ← eat (.keyword .asyncKw)
  functionWord
  let name ← expectIdentifier .functionName
  let _ ← expect .lparen .paramsStart
  let params ← commaSeparated .rparen param
  let _ ← expect .rparen .paramsEnd
  let returnType ← typeExpr?
  let body ← block statement .brace
  let span ← spanFrom start
  return { name, params, returnType, body, isAsync := async || modifiers.contains "async",
           modifiers, span }

/-- A method without parameters: a name and a block. -/
def method (statement : Parse Stmt) : Parse Stmt := do
  let start ← here
  let name ← expectIdentifier .methodName
  let body ← block statement .brace
  let span ← spanFrom start
  return .functionDecl span
    { name, params := [], returnType := none, body, isAsync := false, modifiers := [], span }

/-! ## Components -/

/-- One tag, expression in braces or quoted text. -/
def markupItem : Parse Markup := do
  let token ← peek
  match token.kind with
  | .tagOpen => .tag <$> tag
  | .lbrace =>
    let _ ← advance
    let value ← expression
    let _ ← expect .rbrace .embeddedEnd
    return .expr value
  | _ =>
    let _ ← advance
    return .text token.lexeme token.span

def startsMarkup : TokenKind → Bool
  | .tagOpen | .lbrace | .string => true
  | _ => false

/-- Markup as far as it could be read, and the problem at which it ended, if there was one. -/
structure MarkupRun where
  items : List Markup
  problem : Option Problem

def markupStep (items : List Markup) : Parse (Turn (List Markup) MarkupRun) := do
  if startsMarkup (← kind) then
    match ← attempt markupItem with
    | .ok item => return .again (items ++ [item])
    | .error problem => return .done ⟨items, some problem⟩
  else return .done ⟨items, none⟩

/-- Items of markup, until something else stands there. -/
def markupRun : Parse MarkupRun := iterate markupStep []

/-- A render section, of which the first token is its keyword. What was read of its markup before
a problem belongs to the component all the same. -/
def renderSection : Parse MarkupRun := do
  let _ ← advance
  if ← eat .colon then markupRun
  else if ← eat .lbrace then
    let run ← markupRun
    if run.problem.isSome then return run
    else
      match ← attempt (expect .rbrace .renderEnd) with
      | .ok _ => return run
      | .error problem => return { run with problem := some problem }
  else unexpected .renderStart

/-- The members of a component read so far. -/
structure Members where
  statements : List Stmt
  body : List Markup

/-- One member of a component added to those before it, and the problem that it has, if any. -/
def member (statement : Parse Stmt) (members : Members) : Parse (Members × Option Problem) := do
  let s ← get
  match s.kind with
  | .keyword .renderKw =>
    let run ← renderSection
    return ({ members with body := members.body ++ run.items }, run.problem)
  | .tagOpen => return ({ members with body := members.body ++ [.tag (← tag)] }, none)
  | .identifier =>
    let stmt ← if s.secondKind = .lbrace then method statement else statement
    return ({ members with statements := members.statements ++ [stmt] }, none)
  | _ => return ({ members with statements := members.statements ++ [← statement] }, none)

/-- Read a member; a problem leaves a placeholder among the statements. -/
def recoveringMember (statement : Parse Stmt) (members : Members) : Parse Members := do
  let (members, problem) ← match ← attempt (member statement members) with
    | .ok (members, problem) => pure (members, problem)
    | .error problem => pure (members, some problem)
  match problem with
  | none => return members
  | some problem =>
    let placeholder ← recover problem
    return { members with statements := members.statements ++ [placeholder] }

def memberStep (statement : Parse Stmt) (members : Members) :
    Parse (Turn Members Members) := do
  let s ← get
  if s.kind = .rbrace || s.atEnd then return .done members
  else if ← eat .semicolon then return .again members
  else
    let members ← recoveringMember statement members
    ensureProgress s.rest.length
    return .again members

/-- A component after its modifiers, of which the first token is its keyword. -/
def component (statement : Parse Stmt) (modifiers : List String) : Parse Component := do
  let start := (← advance).span
  let name ← expectIdentifier .componentName
  let _ ← expect .lbrace .componentStart
  let members ← iterate (memberStep statement) ⟨[], []⟩
  let _ ← expect .rbrace .componentEnd
  return ⟨name, modifiers, members.statements, members.body, ← spanFrom start⟩

/-! ## Declarations that may be exported -/

/-- Whether a function, a component or a modifier of one begins with a token of this kind. -/
def startsDeclaration : TokenKind → Bool
  | .keyword .componentKw | .keyword .functionKw | .keyword .fnKw | .keyword .asyncKw
  | .atModifier => true
  | _ => false

/-- A function or component with its modifiers. -/
def declaration (statement : Parse Stmt) : Parse (Function ⊕ Component) := do
  let modifiers ← modifiers
  match ← kind with
  | .keyword .componentKw => .inr <$> component statement modifiers
  | .keyword .functionKw | .keyword .fnKw | .keyword .asyncKw =>
    .inl <$> function statement modifiers
  | _ => unexpected .declaration

/-- What an export exports. -/
def exportItem (statement : Parse Stmt) : Parse ExportItem := do
  if startsDeclaration (← kind) then
    match ← declaration statement with
    | .inl function => return .function function
    | .inr component => return .component component
  else .statement <$> statement

/-- An export, of which the first token is its keyword. -/
def exportDecl (statement : Parse Stmt) : Parse Export := do
  let start := (← advance).span
  let isDefault ← eat (.keyword .defaultKw)
  let item ← exportItem statement
  return ⟨isDefault, item, ← spanFrom start⟩

end ComponentLang.Grammar
