import ComponentLang.Grammar.Parse

/-!
# Reading expressions

Binary operators have seven levels; `**` is the tightest and groups to the right, all others group
to the left. Signs, `!` and `await` bind tighter than every binary operator, and calls, members
and indices tighter still. In the head of a control statement a `[` is an index only directly
after its object, because it may also begin the body.
-/
namespace ComponentLang.Grammar

open Parse

/-- The rules that a rule may use once it has taken a token. -/
structure ExprRules where
  conditional : Parse Expr
  binary : Nat → Parse Expr
  unary : Parse Expr
  tag : Parse Tag

/-- The binary operator that a token stands for, and its level. A higher level binds tighter. -/
def binaryOp? : TokenKind → Option (BinaryOp × Nat)
  | .orOr => some (.or, 1)
  | .andAnd => some (.and, 2)
  | .eqEq => some (.eq, 3)
  | .notEq => some (.notEq, 3)
  | .lt => some (.lt, 4)
  | .ltEq => some (.ltEq, 4)
  | .gt => some (.gt, 4)
  | .gtEq => some (.gtEq, 4)
  | .plus => some (.add, 5)
  | .minus => some (.sub, 5)
  | .star => some (.mul, 6)
  | .slash => some (.div, 6)
  | .percent => some (.mod, 6)
  | .starStar => some (.pow, 7)
  | _ => none

def unaryOp? : TokenKind → Option UnaryOp
  | .bang => some .not
  | .minus => some .neg
  | .plus => some .plus
  | _ => none

/-- Whether a token of this kind may begin an expression. -/
def startsExpression : TokenKind → Bool
  | .number _ | .string | .boolean | .null | .identifier | .valueBinding | .lparen | .lbracket
  | .lbrace | .tagOpen | .bang | .minus | .plus | .keyword .awaitKw => true
  | _ => false

/-! ## Operands -/

/-- Whether a token of this kind may name a member after a point. -/
def isMemberName : TokenKind → Bool
  | .identifier | .keyword _ | .boolean | .null => true
  | _ => false

/-- Whether a token of this kind may be the key of a property. -/
def isPropertyKey : TokenKind → Bool
  | .identifier | .string | .keyword _ | .number _ | .boolean | .null => true
  | _ => false

/-- The value of a property after its colon. -/
def propertyValue (rules : ExprRules) : Parse Expr := do
  if ← eat .colon then rules.conditional else unexpected .propertyColon

/-- A property. A name alone is a property with the variable of that name as its value. -/
def property (rules : ExprRules) : Parse Property := do
  let key ← peek
  if key.kind = .lbracket then
    let _ ← advance
    let computed ← rules.conditional
    let _ ← expect .rbracket .computedKeyEnd
    return .computed computed (← propertyValue rules)
  else if isPropertyKey key.kind then
    let _ ← advance
    if key.kind = .identifier && (← get).kind != .colon then
      return .named key.lexeme (.identifier (← node key.span) key.lexeme)
    else return .named key.lexeme (← propertyValue rules)
  else unexpected .propertyKey

/-- An object literal, of which the first token is the brace. -/
def objectLiteral (rules : ExprRules) : Parse Expr := do
  let start := (← advance).span
  let properties ← commaSeparated .rbrace (property rules)
  let _ ← expect .rbrace .objectEnd
  return .object (← node (← spanFrom start)) properties

/-- The expressions up to a closing bracket, which is taken too. -/
def expressionsUpTo (rules : ExprRules) (close : TokenKind) (expected : Expected) :
    Parse (List Expr) := do
  let items ← commaSeparated close rules.conditional
  let _ ← expect close expected
  return items

/-- An expression that is one token. -/
def leaf (build : Node → Expr) : Parse Expr := do
  let token ← advance
  return build (← node token.span)

/-- An operand without what may follow it. `tag` reads a tag of which no token is taken yet. -/
def primary (rules : ExprRules) (tag : Parse Tag) : Parse Expr := do
  let token ← peek
  match token.kind with
  | .number kind => leaf (.literal · (.number token.lexeme kind))
  | .string => leaf (.literal · (.string token.lexeme))
  | .boolean => leaf (.literal · (.bool (token.lexeme == "true")))
  | .null => leaf (.literal · .null)
  | .identifier => leaf (.identifier · token.lexeme)
  | .valueBinding => leaf (.valueBinding · token.lexeme)
  | .lparen =>
    let _ ← advance
    let inner ← nested rules.conditional
    let _ ← expect .rparen .groupEnd
    return inner
  | .lbracket =>
    let _ ← advance
    let items ← nested (expressionsUpTo rules .rbracket .arrayEnd)
    return .array (← node (← spanFrom token.span)) items
  | .lbrace => nested (objectLiteral rules)
  | .tagOpen =>
    let tag ← nested tag
    return .tag (← node tag.span) tag
  | _ => unexpected .expression

/-- One call, member or index after `object`. -/
def suffix (rules : ExprRules) (object : Expr) : Parse (Turn Expr Expr) := do
  let s ← get
  match s.kind with
  | .lparen =>
    let _ ← advance
    let arguments ← nested (expressionsUpTo rules .rparen .argumentsEnd)
    return .again (.call (← node (← spanFrom object.span)) object arguments)
  | .dot =>
    let _ ← advance
    if isMemberName (← kind) then
      let property ← advance
      return .again (.member (← node (← spanFrom object.span)) object property.lexeme)
    else unexpected .memberName
  | .lbracket =>
    if !s.inHead || s.here.start = object.span.stop then
      let _ ← advance
      let index ← nested rules.conditional
      let _ ← expect .rbracket .indexEnd
      return .again (.index (← node (← spanFrom object.span)) object index)
    else return .done object
  | _ => return .done object

def operand (rules : ExprRules) (tag : Parse Tag) : Parse Expr := do
  iterate (suffix rules) (← primary rules tag)

/-! ## Operators -/

def unaryRule (rules : ExprRules) (tag : Parse Tag) : Parse Expr := do
  let token ← peek
  match unaryOp? token.kind with
  | some op =>
    let _ ← advance
    let operand ← rules.unary
    return .unary (← node (token.span.through operand.span)) op operand
  | none =>
    if token.kind = .keyword .awaitKw then
      let _ ← advance
      let operand ← rules.unary
      return .await (← node (token.span.through operand.span)) operand
    else operand rules tag

/-- One operator of level `least` or more after `left`, with its right operand. -/
def binaryStep (rules : ExprRules) (least : Nat) (left : Expr) : Parse (Turn Expr Expr) := do
  match binaryOp? (← kind) with
  | some (op, level) =>
    if level < least then return .done left
    else
      let _ ← advance
      let right ← rules.binary (if op = .pow then level else level + 1)
      return .again (.binary (← node (left.span.through right.span)) left op right)
  | none => return .done left

def binaryRule (rules : ExprRules) (unary : Parse Expr) (least : Nat) : Parse Expr := do
  iterate (binaryStep rules least) (← unary)

/-- A test with its two outcomes, or the test alone. -/
def conditionalRule (rules : ExprRules) (binary : Nat → Parse Expr) : Parse Expr := do
  let test ← binary 1
  if ← eat .question then
    let consequent ← nested rules.conditional
    let _ ← expect .colon .conditionalColon
    let alternate ← rules.conditional
    return .conditional (← node (test.span.through alternate.span)) test consequent alternate
  else return test

end ComponentLang.Grammar
