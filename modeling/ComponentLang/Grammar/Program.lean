import ComponentLang.Grammar.Statement

/-!
# Reading a program

A program is a list of imports, exports, functions, components and statements in any order; each
kind is kept in a list of its own. Reading a program always gives one, with the problems found on
the way.
-/
namespace ComponentLang.Grammar

open Parse

/-- A program and the problems found while it was read, in order. -/
structure Parsed where
  program : Program
  diagnostics : List Diagnostic

/-- Read one item into the lists of a program. -/
def item (program : Program) : Parse Program := do
  match ← kind with
  | .keyword .importKw => return { program with imports := program.imports ++ [← importDecl] }
  | .keyword .exportKw =>
    return { program with exports := program.exports ++ [← exportDecl statement] }
  | next =>
    if startsDeclaration next then
      match ← declaration statement with
      | .inl function => return { program with functions := program.functions ++ [function] }
      | .inr component => return { program with components := program.components ++ [component] }
    else return { program with statements := program.statements ++ [← statement] }

def isClosing : TokenKind → Bool
  | .rbrace | .rbracket | .rparen => true
  | _ => false

/-- Read one item, or the placeholder for it. No bracket is open between items, so a bracket that
closes after a broken item belonged to it. -/
def recoveringItem (program : Program) : Parse Program := do
  match ← attempt (item program) with
  | .ok program => return program
  | .error problem =>
    let placeholder ← recover problem
    if isClosing (← kind) then
      let _ ← advance
    return { program with statements := program.statements ++ [placeholder] }

def programStep (program : Program) : Parse (Turn Program Program) := do
  let s ← get
  if s.atEnd then return .done program
  else if ← eat .semicolon then return .again program
  else
    let program ← recoveringItem program
    ensureProgress s.rest.length
    return .again program

def program : Parse Program := iterate programStep .empty

/-- Read a token list as a program. -/
def parse (tokens : List Token) : Parsed :=
  let (result, after) := program.run (.start tokens)
  ⟨result.toOption.getD .empty, after.diagnostics.reverse⟩

end ComponentLang.Grammar
