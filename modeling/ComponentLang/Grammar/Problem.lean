import ComponentLang.Diagnostic

/-!
# What can be wrong with a program's form

A problem is a cause and a place. Nearly every cause is a token that stands where something else
was expected; `Expected` lists what that can be, and `Expected.text` names it.
-/
namespace ComponentLang.Grammar

/-- The two pairs of brackets that a block may stand in. -/
inductive Bracket where
  | brace
  | square
  deriving DecidableEq, Repr

inductive Expected where
  | declaration
  | importStart
  | importedName
  | importEnd
  | fromWord
  | modulePath
  | functionWord
  | functionName
  | paramsStart
  | paramName
  | paramsEnd
  | componentName
  | componentStart
  | componentEnd
  | methodName
  | variableName
  | loopVariable
  | loopHead
  | loopBoundsEnd
  | forStart
  | forInitEnd
  | forTestEnd
  | forEnd
  | handler
  | errorName
  | errorNameEnd
  | asyncStart
  | asyncTry
  | asyncCatchEnd
  | asyncFinallyEnd
  | asyncEnd
  | bodyStart
  | block
  | blockEnd (bracket : Bracket)
  | type
  | typeGroupEnd
  | elementTypeEnd
  | expression
  | conditionalColon
  | memberName
  | indexEnd
  | groupEnd
  | argumentsEnd
  | arrayEnd
  | propertyKey
  | computedKeyEnd
  | propertyColon
  | objectEnd
  | renderStart
  | renderEnd
  | embeddedEnd
  | tag
  | attributeOrEnd (tag : String)
  | attributeValue
  | attributeEnd
  | content (tag : String)
  deriving DecidableEq, Repr

def Expected.text : Expected → String
  | .declaration => "'function' or 'component' after modifiers"
  | .importStart => "an imported name or '\x7b'"
  | .importedName => "an imported name"
  | .importEnd => "'\x7d' after imported names"
  | .fromWord => "'from'"
  | .modulePath => "a module path string"
  | .functionWord => "'function'"
  | .functionName => "a function name"
  | .paramsStart => "'(' after function name"
  | .paramName => "a parameter name"
  | .paramsEnd => "')' after parameters"
  | .componentName => "a component name"
  | .componentStart => "'\x7b' after component name"
  | .componentEnd => "'\x7d' to close component"
  | .methodName => "a method name"
  | .variableName => "a variable name"
  | .loopVariable => "a loop variable"
  | .loopHead => "'in' or '(' after loop variable"
  | .loopBoundsEnd => "')' after loop bounds"
  | .forStart => "'(' after 'for'"
  | .forInitEnd => "';' after loop initializer"
  | .forTestEnd => "';' after loop condition"
  | .forEnd => "')' after loop clauses"
  | .handler => "'catch' or 'finally' after try block"
  | .errorName => "an error name"
  | .errorNameEnd => "')' after error name"
  | .asyncStart => "'\x7b' after 'async'"
  | .asyncTry => "'[' to open the async try segment"
  | .asyncCatchEnd => "']' to close the catch segment"
  | .asyncFinallyEnd => "']' to close the finally segment"
  | .asyncEnd => "'\x7d' to close async block"
  | .bodyStart => "'\x7b' or '[' to start a block"
  | .block => "a block"
  | .blockEnd .brace => "'\x7d' to close block"
  | .blockEnd .square => "']' to close block"
  | .type => "a type"
  | .typeGroupEnd => "')' after type"
  | .elementTypeEnd => "'>' after array element type"
  | .expression => "an expression"
  | .conditionalColon => "':' in conditional expression"
  | .memberName => "a property name after '.'"
  | .indexEnd => "']' after index"
  | .groupEnd => "')' after expression"
  | .argumentsEnd => "')' after arguments"
  | .arrayEnd => "']' after array elements"
  | .propertyKey => "a property key"
  | .computedKeyEnd => "']' after computed key"
  | .propertyColon => "':' after property key"
  | .objectEnd => "'\x7d' after object properties"
  | .renderStart => "':' or '\x7b' after 'render'"
  | .renderEnd => "'\x7d' to close render block"
  | .embeddedEnd => "'\x7d' after embedded expression"
  | .tag => "a tag"
  | .attributeOrEnd name => "an attribute or '>' in <" ++ name ++ ">"
  | .attributeValue => "an attribute value"
  | .attributeEnd => "'\x7d' after attribute expression"
  | .content name => "content or </" ++ name ++ ">"

/-- What stands at the place of a problem. -/
inductive Found where
  | token (lexeme : String)
  | endOfInput
  deriving DecidableEq, Repr

def Found.text : Found → String
  | .token lexeme => "'" ++ lexeme ++ "'"
  | .endOfInput => "end of input"

inductive Cause where
  | unexpected (expected : Expected) (found : Found)
  | invalidTarget
  | mismatchedTag (opened closed : String)
  | unclosedTag (name : String)
  | iterationLimit
  deriving DecidableEq, Repr

def Cause.message : Cause → String
  | .unexpected expected found => "expected " ++ expected.text ++ ", found " ++ found.text
  | .invalidTarget => "invalid assignment target"
  | .mismatchedTag opened closed =>
    "mismatched closing tag: expected </" ++ opened ++ "> but got </" ++ closed ++ ">"
  | .unclosedTag name => "unclosed tag <" ++ name ++ ">"
  | .iterationLimit => "parser iteration limit reached"

structure Problem where
  cause : Cause
  line : Nat
  column : Nat
  deriving DecidableEq, Repr

/-- A problem at a place, in words. -/
def problemText (message : String) (line column : Nat) : String :=
  "Parse error at " ++ Diagnostic.position line column ++ ": " ++ message

namespace Problem

def ofSpan (cause : Cause) (span : Span) : Problem := ⟨cause, span.line, span.column⟩

def message (p : Problem) : String := p.cause.message

def text (p : Problem) : String := problemText p.message p.line p.column

def diagnostic (p : Problem) : Diagnostic := ⟨.parse, p.message, p.line, p.column⟩

end Problem

end ComponentLang.Grammar
