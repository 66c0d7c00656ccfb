import ComponentLang.Grammar.Expression

/-!
# Reading markup

A tag closes itself or is closed by its own name. Words of text that follow each other directly in
a tag are one text, with a space wherever there was something between them.
-/
namespace ComponentLang.Grammar

open Parse

/-- The value of an attribute: an expression in braces, or one token. -/
def attributeValue (rules : ExprRules) : Parse Expr := do
  let token ← peek
  match token.kind with
  | .expressionStart =>
    let _ ← advance
    let value ← rules.conditional
    let _ ← expect .expressionEnd .attributeEnd
    return value
  | .string | .attributeName => leaf (.literal · (.string token.lexeme))
  | .number kind => leaf (.literal · (.number token.lexeme kind))
  | .valueBinding => leaf (.valueBinding · token.lexeme)
  | _ => unexpected .attributeValue

/-- An attribute, of which the first token is its name. -/
def tagAttribute (rules : ExprRules) : Parse Attribute := do
  let name ← advance
  let value ← if ← eat .equals then some <$> attributeValue rules else pure none
  return ⟨name.lexeme, value, name.kind = .atModifier, ← spanFrom name.span⟩

/-- The attributes and styles read so far. -/
structure TagHead where
  attributes : List Attribute
  styles : List StyleDecl

/-- One attribute, style or end of the opening tag. The result says whether the tag closes itself. -/
def tagHeadStep (rules : ExprRules) (name : String) (head : TagHead) :
    Parse (Turn TagHead (TagHead × Bool)) := do
  let token ← peek
  match token.kind with
  | .attributeName | .atModifier =>
    return .again { head with attributes := head.attributes ++ [← tagAttribute rules] }
  | .styleProperty =>
    let _ ← advance
    return .again { head with styles := head.styles ++ StyleDecl.ofText token.lexeme }
  | .tagSelfClose =>
    let _ ← advance
    return .done (head, true)
  | .tagEnd =>
    let _ ← advance
    return .done (head, false)
  | _ => unexpected (.attributeOrEnd name)

/-- One more word of text after the children read so far. -/
def appendText (children : List Markup) (word : Token) : List Markup :=
  match children.getLast? with
  | some (.text content span) =>
    let gap := if word.span.start = span.stop then "" else " "
    children.dropLast ++ [.text (content ++ gap ++ word.lexeme) (span.through word.span)]
  | _ => children ++ [.text word.lexeme word.span]

/-- One child of the tag `name`, or its closing tag. -/
def childStep (rules : ExprRules) (name : String) (children : List Markup) :
    Parse (Turn (List Markup) (List Markup)) := do
  let token ← peek
  match token.kind with
  | .tagClose =>
    if token.lexeme = name then
      let _ ← advance
      return .done children
    else fail (.mismatchedTag name token.lexeme)
  | .tagOpen => return .again (children ++ [.tag (← rules.tag)])
  | .expressionStart =>
    let _ ← advance
    let value ← rules.conditional
    let _ ← expect .expressionEnd .embeddedEnd
    return .again (children ++ [.expr value])
  | .text =>
    let _ ← advance
    return .again (appendText children token)
  | .eof => fail (.unclosedTag name)
  | _ => unexpected (.content name)

/-- A tag with all that is in it. -/
def tagRule (rules : ExprRules) : Parse Tag := do
  let open_ ← expect .tagOpen .tag
  let name := open_.lexeme
  let (head, selfClosing) ← iterate (tagHeadStep rules name) ⟨[], []⟩
  let children ← if selfClosing then pure [] else iterate (childStep rules name) []
  return ⟨name, head.attributes, head.styles, children, selfClosing, ← spanFrom open_.span⟩

/-! ## All expressions -/

/-- The rules of expressions and tags at a depth. -/
def exprRules : Nat → ExprRules
  | 0 =>
    { conditional := fail .iterationLimit
      binary := fun _ => fail .iterationLimit
      unary := fail .iterationLimit
      tag := fail .iterationLimit }
  | depth + 1 =>
    let tag : Parse Tag := fun s => tagRule (exprRules depth) s
    let unary : Parse Expr := fun s => unaryRule (exprRules depth) tag s
    let binary : Nat → Parse Expr := fun least s => binaryRule (exprRules depth) unary least s
    { conditional := fun s => conditionalRule (exprRules depth) binary s
      binary
      unary
      tag }

/-- The rules at a depth that no expression in the tokens to come can reach. -/
def rulesFor (s : State) : ExprRules := exprRules (s.rest.length + 1)

def expression : Parse Expr := fun s => (rulesFor s).conditional s

def tag : Parse Tag := fun s => (rulesFor s).tag s

/-- The expression in the head of a control statement. -/
def headExpression : Parse Expr := withHead true expression

end ComponentLang.Grammar
