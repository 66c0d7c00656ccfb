import ComponentLang.Diagnostic
import ComponentLang.Token.Kind

/-!
# Tokens

A token is a kind, a text and a span. A token of kind `error` says what was wrong at its place,
and the diagnostics of a token list are those of its error tokens, in order.
-/
namespace ComponentLang

/-- What can be wrong with the text of a source. -/
inductive ScanError where
  | invalidBytes
  | invalidBytesInString
  | controlCharacter (c : Char)
  | unexpectedCharacter (c : Char)
  | unterminatedString
  | unterminatedStyle
  | invalidEscape (c : Char)
  | malformedNumber (text : String)
  | missingModifierName
  | unclosedClosingTag (name : String)
  | tooManyErrors (count : Nat)
  deriving DecidableEq, Repr

namespace ScanError

/-- A code point in hexadecimal, with four digits or more. -/
def codePoint (n : Nat) : String :=
  let digits := (Nat.toDigits 16 n).map Char.toUpper
  String.ofList (List.replicate (4 - digits.length) '0' ++ digits)

def message : ScanError → String
  | .invalidBytes => "invalid UTF-8 byte sequence"
  | .invalidBytesInString => "invalid UTF-8 byte sequence in string"
  | .controlCharacter c => "disallowed control character U+" ++ codePoint c.toNat
  | .unexpectedCharacter c => "unexpected character '" ++ c.toString ++ "'"
  | .unterminatedString => "unterminated string"
  | .unterminatedStyle => "unterminated style value"
  | .invalidEscape c => "invalid escape sequence '\\" ++ c.toString ++ "'"
  | .malformedNumber text => "malformed number literal '" ++ text ++ "'"
  | .missingModifierName => "expected a name after '@'"
  | .unclosedClosingTag name => "expected '>' to close </" ++ name
  | .tooManyErrors count => "too many errors (" ++ toString count ++ "); lexing stopped"

end ScanError

structure Token where
  kind : TokenKind
  lexeme : String
  span : Span
  problem : Option ScanError
  deriving DecidableEq, Repr

namespace Token

def ofKind (kind : TokenKind) (lexeme : String) (span : Span) : Token :=
  ⟨kind, lexeme, span, none⟩

def ofError (problem : ScanError) (lexeme : String) (span : Span) : Token :=
  ⟨.error, lexeme, span, some problem⟩

/-- The diagnostic of an error token. An error token may come without a cause. -/
def diagnostic? (t : Token) : Option Diagnostic :=
  if t.kind = .error then
    some (.ofSpan .lex ((t.problem.map ScanError.message).getD "invalid token") t.span)
  else
    none

def diagnostics (tokens : List Token) : List Diagnostic := tokens.filterMap diagnostic?

end Token

end ComponentLang
