import ComponentLang.Grammar.Parse
import ComponentLang.Tree.Stmt

/-!
# Reading lists of statements

A list of statements goes on after a statement that cannot be read: the problem is reported, a
placeholder takes the place of the statement, and tokens are dropped up to a place where another
statement may begin.
-/
namespace ComponentLang.Grammar

open Parse

/-- Whether tokens are dropped no further than to a token of this kind. -/
def endsDamage : TokenKind → Bool
  | .rbrace | .rbracket | .rparen | .atModifier | .asyncBlock => true
  | .keyword word => word.startsStatement
  | _ => false

/-- Drop one token, if damage does not end here. A semicolon is dropped as the last. -/
def synchronizeStep (_ : Unit) : Parse (Turn Unit Unit) := do
  let s ← get
  if s.atEnd || endsDamage s.kind then return .done ()
  else
    let token ← advance
    if token.kind = .semicolon then return .done () else return .again ()

/-- Drop tokens up to a place where a statement may begin or a bracket closes. -/
def synchronize : Parse Unit := iterate synchronizeStep ()

/-- Report the problem and give the placeholder for the statement that has it. -/
def recover (problem : Problem) : Parse Stmt := do
  let start := (← here).start
  modify fun s => s.report problem
  synchronize
  return .error ⟨start, start, problem.line, problem.column⟩ problem.message

/-- Read a statement, or the placeholder for it. -/
def recovering (statement : Parse Stmt) : Parse Stmt := do
  match ← attempt statement with
  | .ok stmt => return stmt
  | .error problem => recover problem

/-- Count one turn of a statement loop that began with `before` tokens to come. A turn that took
none drops one, and after too many turns all that is left is dropped. -/
def ensureProgress (before : Nat) : Parse Unit := do
  modify fun s => { s with iterations := s.iterations + 1, turns := before :: s.turns }
  let s ← get
  if s.iterations > s.iterationLimit && !s.atEnd then
    set { s.report (.ofSpan .iterationLimit s.here) with rest := [] }
  else if s.rest.length = before && !s.atEnd then
    set s.next

namespace Bracket

def opening : Bracket → TokenKind
  | .brace => .lbrace
  | .square => .lbracket

def closing : Bracket → TokenKind
  | .brace => .rbrace
  | .square => .rbracket

end Bracket

/-- One statement of a block that ends at `close`, or the end of its list. Semicolons may stand
anywhere between statements. -/
def blockStep (statement : Parse Stmt) (close : TokenKind) (stmts : List Stmt) :
    Parse (Turn (List Stmt) (List Stmt)) := do
  let s ← get
  if s.kind = close || s.atEnd then return .done stmts
  else if ← eat .semicolon then return .again stmts
  else
    let stmt ← recovering statement
    ensureProgress s.rest.length
    return .again (stmts ++ [stmt])

/-- A block in the given brackets. -/
def block (statement : Parse Stmt) (bracket : Bracket) : Parse Block := do
  let start ← here
  if ← eat bracket.opening then
    let statements ← iterate (blockStep statement bracket.closing) []
    let _ ← expect bracket.closing (.blockEnd bracket)
    return ⟨statements, ← spanFrom start⟩
  else unexpected .block

/-- A block in either pair of brackets. -/
def body (statement : Parse Stmt) : Parse Block := do
  match ← kind with
  | .lbrace => block statement .brace
  | .lbracket => block statement .square
  | _ => unexpected .bodyStart

end ComponentLang.Grammar
