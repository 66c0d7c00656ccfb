import ComponentLang.Scan.Reading
import ComponentLang.Text.Blank

/-!
# Units that cannot be read

A unit that begins no token is an error token by itself. The units after it that give no hope of
a token are one recovery token: they reach up to white space, a letter or digit, a brace, an
angle bracket or a semicolon.
-/
namespace ComponentLang.Scan
open Source (frontIs run upTo)

def isResumePoint (c : Char) : Bool :=
  Text.isBlank c || c.isAlphanum || c == ';' || c == '{' || c == '}' || c == '<' || c == '>'

/-- The recovery token at the front of `s`, if it has any width. -/
def recovery (s : Source) : List Piece :=
  let width := upTo isResumePoint s
  if width = 0 then [] else [.token .errorRecovery width (Source.text (s.take width))]

/-- The unit `u` is an error; `rest` follows it. -/
def rejectUnit (problem : ScanError) (u : SourceUnit) (rest : Source) : Reading :=
  ⟨.error problem 1 (Source.text [u]) :: recovery rest, .stay⟩

def isControl (c : Char) : Bool := c.toNat < 0x20 || c.toNat == 0x7f

/-- The character `c` begins no token in the mode in force. -/
def rejectChar (c : Char) (rest : Source) : Reading :=
  rejectUnit (if isControl c then .controlCharacter c else .unexpectedCharacter c) (.char c) rest

end ComponentLang.Scan
