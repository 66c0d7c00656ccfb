import ComponentLang.Style
import ComponentLang.Token.Kind
import ComponentLang.Tree.TypeExpr
import ComponentLang.Tree.Operator

/-!
# Expressions and markup

Markup may stand where an expression may, and expressions stand in markup, so the two are one
family of types. Every expression has a number of its own; what is found out about an expression
is kept in tables under that number.
-/
namespace ComponentLang

/-- The number of an expression, given in the order of creation, and its place. -/
structure Node where
  id : Nat
  span : Span
  deriving DecidableEq, Repr

inductive Literal where
  /-- A number, kept as it is written. -/
  | number (text : String) (kind : NumberKind)
  | string (value : String)
  | bool (value : Bool)
  | null
  deriving DecidableEq, Repr

mutual

inductive Expr where
  | literal (node : Node) (value : Literal)
  | identifier (node : Node) (name : String)
  /-- A value given from outside: `!name`. -/
  | valueBinding (node : Node) (name : String)
  | binary (node : Node) (left : Expr) (op : BinaryOp) (right : Expr)
  | unary (node : Node) (op : UnaryOp) (operand : Expr)
  | await (node : Node) (operand : Expr)
  | call (node : Node) (callee : Expr) (arguments : List Expr)
  | member (node : Node) (object : Expr) (property : String)
  | index (node : Node) (object : Expr) (index : Expr)
  | array (node : Node) (items : List Expr)
  | object (node : Node) (properties : List Property)
  | conditional (node : Node) (test consequent alternate : Expr)
  | tag (node : Node) (tag : Tag)

/-- A property of an object literal. -/
inductive Property where
  | named (key : String) (value : Expr)
  | computed (key : Expr) (value : Expr)

structure Tag where
  name : String
  attributes : List Attribute
  styles : List StyleDecl
  children : List Markup
  selfClosing : Bool
  span : Span

/-- An attribute, without a value if it is only named, or an event if it is written with `@`. -/
structure Attribute where
  name : String
  value : Option Expr
  event : Bool
  span : Span

inductive Markup where
  | tag (tag : Tag)
  | text (content : String) (span : Span)
  | expr (expr : Expr)

end

namespace Expr

def node : Expr → Node
  | .literal node _ => node
  | .identifier node _ => node
  | .valueBinding node _ => node
  | .binary node _ _ _ => node
  | .unary node _ _ => node
  | .await node _ => node
  | .call node _ _ => node
  | .member node _ _ => node
  | .index node _ _ => node
  | .array node _ => node
  | .object node _ => node
  | .conditional node _ _ _ => node
  | .tag node _ => node

def id (e : Expr) : Nat := e.node.id

def span (e : Expr) : Span := e.node.span

def kindName : Expr → String
  | .literal .. => "Literal"
  | .identifier .. => "Identifier"
  | .valueBinding .. => "ValueBinding"
  | .binary .. => "BinaryExpression"
  | .unary .. => "UnaryExpression"
  | .await .. => "AwaitExpression"
  | .call .. => "CallExpression"
  | .member .. => "MemberExpression"
  | .index .. => "IndexExpression"
  | .array .. => "ArrayLiteral"
  | .object .. => "ObjectLiteral"
  | .conditional .. => "ConditionalExpression"
  | .tag .. => "Tag"

/-- Whether the expression may stand on the left of an assignment. -/
def isAssignable : Expr → Bool
  | .identifier .. | .member .. | .index .. => true
  | _ => false

end Expr

/-- A tag whose name begins with a capital refers to a component. -/
def Tag.isComponent (t : Tag) : Bool := t.name.toList.head?.any Char.isUpper

namespace Markup

def span : Markup → Span
  | .tag t => t.span
  | .text _ span => span
  | .expr e => e.span

def kindName : Markup → String
  | .tag .. => "Tag"
  | .text .. => "TextContent"
  | .expr .. => "EmbeddedExpression"

end Markup

end ComponentLang
