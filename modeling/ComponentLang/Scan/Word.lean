import ComponentLang.Scan.Config
import ComponentLang.Scan.Recovery

/-!
# Names and numbers

A name is a run of letters, digits and underscores, and of hyphens that stand before a letter or
digit. A number is as long as its grammar allows, and no word may follow it directly.
-/
namespace ComponentLang.Scan
open Source (frontIs run upTo)

def isWordChar (c : Char) : Bool := c.isAlphanum || c == '_'

def isNameStart (c : Char) : Bool := c.isAlpha || c == '_'

/-- The width of the name at the front. -/
def nameWidth : Source → Nat
  | [] => 0
  | .invalid _ :: _ => 0
  | .char c :: rest =>
    if isWordChar c || (c == '-' && frontIs Char.isAlphanum rest) then nameWidth rest + 1 else 0

/-- A token that is one mark and the name after it; the name is its text. -/
def markedName (kind : TokenKind) (rest : Source) : Reading :=
  let width := nameWidth rest
  .token kind (width + 1) (Source.text (rest.take width))

/-- A modifier, of which `rest` follows the mark. -/
def readModifier (rest : Source) : Reading :=
  if frontIs isNameStart rest then markedName .atModifier rest
  else ⟨.error .missingModifierName 1 "@" :: recovery rest, .stay⟩

/-- The kind of the word `name`, which `rest` follows. -/
def wordKind (config : ScanConfig) (name : String) (rest : Source) : TokenKind :=
  let word := match config.keywordCase with
    | .sensitive => name
    | .insensitive => String.ofList (name.toList.map Char.toLower)
  if word == "true" || word == "false" then .boolean
  else if word == "null" || word == "none" then .null
  else match Keyword.lookup word with
    | some .asyncKw =>
      if frontIs (· == '{') (rest.drop (run Text.isBlank rest)) then .asyncBlock
      else .keyword .asyncKw
    | some keyword => .keyword keyword
    | none => .identifier

/-- A word of code: a name, a keyword or a literal that is spelled in letters. -/
def readWord (config : ScanConfig) (s : Source) : Reading :=
  let width := nameWidth s
  let name := Source.text (s.take width)
  .token (wordKind config name (s.drop width)) width name

/-! ## Numbers -/

def isHexDigit (c : Char) : Bool :=
  c.isDigit || ('a' ≤ c && c ≤ 'f') || ('A' ≤ c && c ≤ 'F')

def isBinaryDigit (c : Char) : Bool := c == '0' || c == '1'

/-- The digits of another base that a literal may announce after its zero. -/
def baseDigits? : Source → Option (Char → Bool)
  | .char '0' :: .char c :: _ =>
    if c == 'x' || c == 'X' then some isHexDigit
    else if c == 'b' || c == 'B' then some isBinaryDigit
    else none
  | _ => none

/-- The width of a fraction at the front: a point and at least one digit. -/
def fractionWidth : Source → Nat
  | .char '.' :: rest => if frontIs Char.isDigit rest then run Char.isDigit rest + 1 else 0
  | _ => 0

/-- The width of an exponent at the front: its letter, perhaps a sign, and at least one digit. -/
def exponentWidth : Source → Nat
  | .char c :: rest =>
    if c == 'e' || c == 'E' then
      let sign := if frontIs (fun d => d == '+' || d == '-') rest then 1 else 0
      let digits := rest.drop sign
      if frontIs Char.isDigit digits then sign + run Char.isDigit digits + 1 else 0
    else 0
  | _ => 0

/-- The kind and width of the number at the front. A base without digits is no number. -/
def numberShape? (config : ScanConfig) (s : Source) : Option (NumberKind × Nat) :=
  match baseDigits? s with
  | some isDigit =>
    let digits := run isDigit (s.drop 2)
    if digits = 0 then none else some (.int, digits + 2)
  | none =>
    let whole := run Char.isDigit s
    let fraction := fractionWidth (s.drop whole)
    let mantissa := whole + fraction
    let exponent := if config.scientificNotation then exponentWidth (s.drop mantissa) else 0
    some (if fraction + exponent = 0 then .int else .float, mantissa + exponent)

/-- A number that goes on as a word for all of its letters, digits and underscores. -/
def malformedNumber (width : Nat) (s : Source) : Reading :=
  let whole := width + run isWordChar (s.drop width)
  let text := Source.text (s.take whole)
  .error (.malformedNumber text) whole text

def readNumber (config : ScanConfig) (s : Source) : Reading :=
  match numberShape? config s with
  | none => malformedNumber 2 s
  | some (kind, width) =>
    if frontIs isWordChar (s.drop width) then malformedNumber width s
    else .verbatim (.number kind) width s

end ComponentLang.Scan
