import ComponentLang.Scan.Reading

/-!
# String literals

A literal ends at the quote that began it. A backslash takes the unit after it: seven of them are
escapes, any other stands for itself and is a mistake. A literal that has a mistake still ends
where it would have ended, and the first mistake is the one that is reported. A line end or the
end of the source that is not taken by a backslash leaves the literal unterminated.
-/
namespace ComponentLang.Scan

/-- What follows the opening quote: its width with the closing quote, the text it denotes, the
first mistake, and whether the closing quote is there. -/
structure QuotedBody where
  width : Nat
  value : List Char
  problem : Option ScanError
  closed : Bool
  deriving DecidableEq, Repr

/-- `c`, written in `width` units, in front of a body. -/
def QuotedBody.cons (c : Char) (width : Nat) (problem : Option ScanError) (body : QuotedBody) :
    QuotedBody :=
  { body with
    width := width + body.width
    value := c :: body.value
    problem := problem <|> body.problem }

/-- The character that a backslash before `c` denotes. -/
def unescape? : Char → Option Char
  | 'n' => some '\n'
  | 't' => some '\t'
  | 'r' => some '\r'
  | '0' => some '\x00'
  | '\\' => some '\\'
  | '"' => some '"'
  | '\'' => some '\''
  | _ => none

def quotedBody (quote : Char) : Source → QuotedBody
  | [] => ⟨0, [], none, false⟩
  | .invalid b :: rest =>
    (quotedBody quote rest).cons (SourceUnit.invalid b).toChar 1 (some .invalidBytesInString)
  | .char c :: rest =>
    if c = '\n' then ⟨0, [], none, false⟩
    else if c = quote then ⟨1, [], none, true⟩
    else if c = '\\' then
      match rest with
      | [] => ⟨1, [], none, false⟩
      | u :: rest =>
        match unescape? u.toChar with
        | some d => (quotedBody quote rest).cons d 2 none
        | none => (quotedBody quote rest).cons u.toChar 2 (some (.invalidEscape u.toChar))
    else (quotedBody quote rest).cons c 1 none

/-- A literal, of which `rest` follows the opening quote. -/
def readString (quote : Char) (rest : Source) : Reading :=
  let body := quotedBody quote rest
  let value := String.ofList body.value
  if body.closed then
    match body.problem with
    | none => .token .string (body.width + 1) value
    | some problem => .error problem (body.width + 1) value
  else .error .unterminatedString (body.width + 1) value

end ComponentLang.Scan
