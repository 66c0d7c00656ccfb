import ComponentLang.Token.Keyword

/-!
# Token kinds

What a token is, apart from its text. Each kind has a name for listings, and `all` lists every
kind once.
-/
namespace ComponentLang

/-- Whether a number literal denotes an integer or a number with a fraction or exponent. -/
inductive NumberKind where
  | int
  | float
  deriving DecidableEq, Repr

def NumberKind.name : NumberKind → String
  | .int => "Int"
  | .float => "Float"

inductive TokenKind where
  | number (kind : NumberKind)
  | string
  | boolean
  | null
  | identifier
  | keyword (word : Keyword)
  | plus
  | minus
  | star
  | starStar
  | slash
  | percent
  | eqEq
  | notEq
  | lt
  | ltEq
  | gt
  | gtEq
  | andAnd
  | orOr
  | bang
  | equals
  | plusEquals
  | minusEquals
  | starEquals
  | slashEquals
  | percentEquals
  | question
  | pipe
  | lparen
  | rparen
  | lbrace
  | rbrace
  | lbracket
  | rbracket
  | comma
  | dot
  | colon
  | semicolon
  /-- Opens a tag: `<name`. -/
  | tagOpen
  /-- Ends an opening tag that has content: `>`. -/
  | tagEnd
  /-- Ends a tag without content: `/>`. -/
  | tagSelfClose
  /-- Closes a tag: `</name>`. -/
  | tagClose
  | attributeName
  | text
  /-- Opens an expression inside markup: `{`. -/
  | expressionStart
  /-- Closes an expression inside markup: `}`. -/
  | expressionEnd
  /-- The declarations after `style:`. -/
  | styleProperty
  /-- A modifier or event: `@name`. -/
  | atModifier
  /-- A value given from outside: `!name`. -/
  | valueBinding
  /-- The word `async` in front of a block. -/
  | asyncBlock
  | error
  | errorRecovery
  | eof
  deriving DecidableEq, Repr

namespace TokenKind

/-- The kinds that carry no further detail. -/
def plain : List TokenKind :=
  [.string, .boolean, .null, .identifier, .plus, .minus, .star, .starStar, .slash, .percent,
   .eqEq, .notEq, .lt, .ltEq, .gt, .gtEq, .andAnd, .orOr, .bang, .equals, .plusEquals,
   .minusEquals, .starEquals, .slashEquals, .percentEquals, .question, .pipe, .lparen, .rparen,
   .lbrace, .rbrace, .lbracket, .rbracket, .comma, .dot, .colon, .semicolon, .tagOpen, .tagEnd,
   .tagSelfClose, .tagClose, .attributeName, .text, .expressionStart, .expressionEnd,
   .styleProperty, .atModifier, .valueBinding, .asyncBlock, .error, .errorRecovery, .eof]

def all : List TokenKind :=
  [.number .int, .number .float] ++ Keyword.all.map .keyword ++ plain

theorem mem_all (k : TokenKind) : k ∈ all := by
  cases k with
  | number n => cases n <;> decide
  | keyword w => simp [all, Keyword.mem_all]
  | _ => decide

def name : TokenKind → String
  | .number kind => "Number(" ++ kind.name ++ ")"
  | .keyword word => "Keyword(" ++ word.name ++ ")"
  | .string => "String"
  | .boolean => "Boolean"
  | .null => "Null"
  | .identifier => "Identifier"
  | .plus => "Plus"
  | .minus => "Minus"
  | .star => "Star"
  | .starStar => "StarStar"
  | .slash => "Slash"
  | .percent => "Percent"
  | .eqEq => "EqEq"
  | .notEq => "NotEq"
  | .lt => "Lt"
  | .ltEq => "LtEq"
  | .gt => "Gt"
  | .gtEq => "GtEq"
  | .andAnd => "AndAnd"
  | .orOr => "OrOr"
  | .bang => "Bang"
  | .equals => "Equals"
  | .plusEquals => "PlusEquals"
  | .minusEquals => "MinusEquals"
  | .starEquals => "StarEquals"
  | .slashEquals => "SlashEquals"
  | .percentEquals => "PercentEquals"
  | .question => "Question"
  | .pipe => "Pipe"
  | .lparen => "LParen"
  | .rparen => "RParen"
  | .lbrace => "LBrace"
  | .rbrace => "RBrace"
  | .lbracket => "LBracket"
  | .rbracket => "RBracket"
  | .comma => "Comma"
  | .dot => "Dot"
  | .colon => "Colon"
  | .semicolon => "Semicolon"
  | .tagOpen => "TagOpen"
  | .tagEnd => "TagEnd"
  | .tagSelfClose => "TagSelfClose"
  | .tagClose => "TagClose"
  | .attributeName => "AttributeName"
  | .text => "Text"
  | .expressionStart => "ExpressionStart"
  | .expressionEnd => "ExpressionEnd"
  | .styleProperty => "StyleProperty"
  | .atModifier => "AtModifier"
  | .valueBinding => "ValueBinding"
  | .asyncBlock => "AsyncBlock"
  | .error => "Error"
  | .errorRecovery => "ErrorRecovery"
  | .eof => "Eof"

/-- The kinds that end an operand: after one of them `<` compares and opens no tag. -/
def endsOperand : TokenKind → Bool
  | .number _ | .string | .boolean | .null | .identifier | .valueBinding | .rparen
  | .rbracket => true
  | _ => false

/-- The kinds that stand for text that could not be read. -/
def isError : TokenKind → Bool
  | .error | .errorRecovery => true
  | _ => false

end TokenKind

end ComponentLang
