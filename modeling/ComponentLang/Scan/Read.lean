import ComponentLang.Scan.Quoted
import ComponentLang.Scan.Word

/-!
# Reading the front of a source

One reading for each mode. `s` is the whole source from the place of the reading, and its first
character is `c` and what comes after that is `rest` wherever both are given.
-/
namespace ComponentLang.Scan
open Source (frontIs run upTo)

/-- The blanks that separate tokens. -/
def isSpacing (c : Char) : Bool := c == ' ' || c == '\t' || c == '\r' || c == '\n'

/-- The width of what follows `/*`, up to and with the first `*/`. -/
def blockCommentWidth : Source → Nat
  | [] => 0
  | .char '*' :: .char '/' :: _ => 2
  | _ :: rest => blockCommentWidth rest + 1

/-- The width of a comment that begins with `/`; `rest` follows it. -/
def commentWidth? : Source → Option Nat
  | .char '/' :: rest => some (upTo (· == '\n') rest + 2)
  | .char '*' :: rest => some (blockCommentWidth rest + 2)
  | _ => none

/-- What code and the attributes of a tag have in common: blanks, comments, strings, numbers,
outside values and modifiers. -/
def readShared? (config : ScanConfig) (s : Source) (c : Char) (rest : Source) : Option Reading :=
  if isSpacing c then some (.skip 1)
  else if c = '/' then (commentWidth? rest).map .skip
  else if c = '"' || c = '\'' then some (readString c rest)
  else if c.isDigit then some (readNumber config s)
  else if c = '!' && frontIs Char.isAlpha rest then some (markedName .valueBinding rest)
  else if c = '@' then some (readModifier rest)
  else none

/-! ## Code -/

/-- A mark that is another mark when `second` follows it. -/
def longer (second : Char) (long short : TokenKind) (rest : Source) : TokenKind × Nat :=
  if frontIs (· == second) rest then (long, 2) else (short, 1)

/-- The operator or punctuation mark that begins with `c`. -/
def mark? (c : Char) (rest : Source) : Option (TokenKind × Nat) :=
  match c with
  | '+' => some (longer '=' .plusEquals .plus rest)
  | '-' => some (longer '=' .minusEquals .minus rest)
  | '*' =>
    if frontIs (· == '*') rest then some (.starStar, 2)
    else some (longer '=' .starEquals .star rest)
  | '/' => some (longer '=' .slashEquals .slash rest)
  | '%' => some (longer '=' .percentEquals .percent rest)
  | '=' => some (longer '=' .eqEq .equals rest)
  | '!' => some (longer '=' .notEq .bang rest)
  | '<' => some (longer '=' .ltEq .lt rest)
  | '>' => some (longer '=' .gtEq .gt rest)
  | '|' => some (longer '|' .orOr .pipe rest)
  | '&' => if frontIs (· == '&') rest then some (.andAnd, 2) else none
  | '?' => some (.question, 1)
  | '(' => some (.lparen, 1)
  | ')' => some (.rparen, 1)
  | '[' => some (.lbracket, 1)
  | ']' => some (.rbracket, 1)
  | ',' => some (.comma, 1)
  | '.' => some (.dot, 1)
  | ':' => some (.colon, 1)
  | ';' => some (.semicolon, 1)
  | _ => none

def readTagOpen (rest : Source) : Reading :=
  (markedName .tagOpen rest).changing (.push .tagAttribute)

/-- Code, plain or in an expression of markup. In plain code `<` before a letter opens a tag
unless it follows an operand. -/
def readCode (config : ScanConfig) (mode : Mode) (afterOperand : Bool) (s : Source) (c : Char)
    (rest : Source) : Reading :=
  match readShared? config s c rest with
  | some reading => reading
  | none =>
    if c = '<' && mode = .normal && frontIs Char.isAlpha rest && !afterOperand then
      readTagOpen rest
    else if c = '{' then (Reading.verbatim .lbrace 1 s).changing (.push .normal)
    else if c = '}' then
      (Reading.verbatim (if mode = .expression then .expressionEnd else .rbrace) 1 s).changing .pop
    else match mark? c rest with
      | some (kind, width) => .verbatim kind width s
      | none => if isNameStart c then readWord config s else rejectChar c rest

/-! ## Markup -/

/-- An attribute name, or the mark that a style follows. -/
def readAttributeName (s : Source) : Reading :=
  let width := nameWidth s
  let name := Source.text (s.take width)
  if name == "style" && frontIs (· == ':') (s.drop width) then
    (Reading.skip (width + 1)).changing (.push .styleValue)
  else .token .attributeName width name

/-- Between a tag's name and the end of the opening tag. -/
def readAttribute (config : ScanConfig) (s : Source) (c : Char) (rest : Source) : Reading :=
  match readShared? config s c rest with
  | some reading => reading
  | none =>
    if c = '>' then (Reading.verbatim .tagEnd 1 s).changing (.replace .tagContent)
    else if c = '/' && frontIs (· == '>') rest then
      (Reading.verbatim .tagSelfClose 2 s).changing .pop
    else if c = '{' then (Reading.verbatim .expressionStart 1 s).changing (.push .expression)
    else if c = '=' then .verbatim .equals 1 s
    else if isNameStart c then readAttributeName s
    else rejectChar c rest

/-- A closing tag, of which `rest` follows `</`. Without its `>` it closes the tag all the same. -/
def readTagClose (rest : Source) : Reading :=
  let nameLength := if frontIs isNameStart rest then nameWidth rest else 0
  let name := Source.text (rest.take nameLength)
  let afterName := rest.drop nameLength
  let blanks := run isSpacing afterName
  let width := nameLength + blanks + 2
  if frontIs (· == '>') (afterName.drop blanks) then
    ⟨[.token .tagClose (width + 1) name], .pop⟩
  else
    ⟨[.token .tagClose width name, .error (.unclosedClosingTag name) 0 ""], .pop⟩

def isTextChar (c : Char) : Bool := !(c == '<' || c == '{') && !Text.isBlank c && !isControl c

/-- Between an opening tag and its closing tag: words of text, tags and expressions. -/
def readContent (s : Source) (c : Char) (rest : Source) : Reading :=
  if isSpacing c then .skip 1
  else if c = '<' then
    match rest with
    | .char '/' :: rest => readTagClose rest
    | _ => if frontIs Char.isAlpha rest then readTagOpen rest else .verbatim .text 1 s
  else if c = '{' then (Reading.verbatim .expressionStart 1 s).changing (.push .expression)
  else if isControl c then rejectChar c rest
  else .verbatim .text (run isTextChar s) s

/-! ## Styles -/

/-- The width of a style that has no quotes: it goes on up to `>` or `/>`. -/
def styleWidth : Source → Nat
  | [] => 0
  | .char '>' :: _ => 0
  | .char '/' :: .char '>' :: _ => 0
  | _ :: rest => styleWidth rest + 1

def styleText (s : Source) : String := String.ofList (Text.trim s.chars)

/-- The style at the front of `s`: quoted, or up to the end of the tag. -/
def stylePiece (s : Source) : Piece :=
  let bare := styleWidth s
  match s with
  | .char quote :: body =>
    if quote = '"' || quote = '\'' then
      let width := upTo (· == quote) body
      if width = body.length then .error .unterminatedStyle (width + 1) (Source.text body)
      else .token .styleProperty (width + 2) (styleText (body.take width))
    else .token .styleProperty bare (styleText (s.take bare))
  | _ => .token .styleProperty bare (styleText (s.take bare))

def readStyle (s : Source) : Reading :=
  let blanks := run isSpacing s
  ⟨[.skip blanks, stylePiece (s.drop blanks)], .pop⟩

/-! ## All modes -/

/-- The reading at the front of `s`. A byte of no character is an error in every mode. -/
def read (config : ScanConfig) (mode : Mode) (afterOperand : Bool) (s : Source) : Reading :=
  match s with
  | [] => ⟨[], .stay⟩
  | .invalid b :: rest => rejectUnit .invalidBytes (.invalid b) rest
  | .char c :: rest =>
    match mode with
    | .normal | .expression => readCode config mode afterOperand s c rest
    | .tagAttribute => readAttribute config s c rest
    | .tagContent => readContent s c rest
    | .styleValue => readStyle s

end ComponentLang.Scan
