import ComponentLang.Grammar.Parse

/-!
# Reading type expressions

```text
type       = suffixed { "|" suffixed }
suffixed   = atom { "?" | "[" "]" }
atom       = name | "Array" "<" type ">" | "(" type ")"
```
-/
namespace ComponentLang.Grammar

open Parse

/-- An atom; `inner` reads the type expression in its brackets. -/
def typeExprAtom (inner : Parse TypeExpr) : Parse TypeExpr := do
  let token ← peek
  match token.kind with
  | .identifier | .null =>
    let _ ← advance
    if token.lexeme == "Array" then
      if ← eat .lt then
        let element ← inner
        let _ ← expect .gt .elementTypeEnd
        return .array (← spanFrom token.span) element
      else return .named token.span token.lexeme
    else return .named token.span token.lexeme
  | .lparen =>
    let _ ← advance
    let typeExpr ← inner
    let _ ← expect .rparen .typeGroupEnd
    return typeExpr
  | _ => unexpected .type

/-- One suffix after a type expression that began at `start`. -/
def typeExprSuffix (start : Span) (a : TypeExpr) : Parse (Turn TypeExpr TypeExpr) := do
  let s ← get
  if s.kind = .question then
    let _ ← advance
    return .again (.optional (← spanFrom start) a)
  else if s.kind = .lbracket && s.secondKind = .rbracket then
    let _ ← advance
    let _ ← advance
    return .again (.array (← spanFrom start) a)
  else return .done a

def suffixedTypeExpr (inner : Parse TypeExpr) : Parse TypeExpr := do
  let start ← here
  iterate (typeExprSuffix start) (← typeExprAtom inner)

/-- The members of a union after those already read. -/
def unionMember (inner : Parse TypeExpr) (members : List TypeExpr) :
    Parse (Turn (List TypeExpr) (List TypeExpr)) := do
  if ← eat .pipe then return .again (members ++ [← suffixedTypeExpr inner])
  else return .done members

def typeExprRule (inner : Parse TypeExpr) : Parse TypeExpr := do
  let first ← suffixedTypeExpr inner
  if (← kind) = .pipe then
    let members ← iterate (unionMember inner) [first]
    return .union (← spanFrom first.span) members
  else return first

/-- The type expression rule at a depth. -/
def typeExprAt : Nat → Parse TypeExpr
  | 0 => fail .iterationLimit
  | depth + 1 => typeExprRule (typeExprAt depth)

def typeExpr : Parse TypeExpr := fun s => typeExprAt (s.rest.length + 1) s

/-- A type expression after a colon, if there is a colon. -/
def typeExpr? : Parse (Option TypeExpr) := do
  if ← eat .colon then return some (← typeExpr) else return none

end ComponentLang.Grammar
