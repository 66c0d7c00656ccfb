import ComponentLang.Mode
import ComponentLang.Source
import ComponentLang.Token

/-!
# Readings

A reading says what the front of a source is: a list of pieces, each so many units wide, and what
becomes of the mode. It does not depend on where in the source it is made, so positions, the
count of errors and the token list are the business of the scan alone.
-/
namespace ComponentLang.Scan

inductive Piece where
  /-- Units that belong to no token. -/
  | skip (width : Nat)
  | token (kind : TokenKind) (width : Nat) (lexeme : String)
  | error (problem : ScanError) (width : Nat) (lexeme : String)
  deriving DecidableEq, Repr

def Piece.width : Piece → Nat
  | .skip width => width
  | .token _ width _ => width
  | .error _ width _ => width

/-- The number of units that pieces take from the source. -/
def Piece.totalWidth : List Piece → Nat
  | [] => 0
  | piece :: rest => piece.width + totalWidth rest

inductive ModeChange where
  | stay
  | push (mode : Mode)
  | replace (mode : Mode)
  | pop
  deriving DecidableEq, Repr

def ModeChange.apply : ModeChange → ModeStack → ModeStack
  | .stay, modes => modes
  | .push mode, modes => modes.push mode
  | .replace mode, modes => modes.replace mode
  | .pop, modes => modes.pop

structure Reading where
  pieces : List Piece
  change : ModeChange
  deriving DecidableEq, Repr

namespace Reading

/-- The number of units that the reading takes from the source. -/
def width (r : Reading) : Nat := Piece.totalWidth r.pieces

def skip (width : Nat) : Reading := ⟨[.skip width], .stay⟩

def token (kind : TokenKind) (width : Nat) (lexeme : String) : Reading :=
  ⟨[.token kind width lexeme], .stay⟩

/-- A token whose text is the first `width` units of `s`. -/
def verbatim (kind : TokenKind) (width : Nat) (s : Source) : Reading :=
  token kind width (Source.text (s.take width))

def error (problem : ScanError) (width : Nat) (lexeme : String) : Reading :=
  ⟨[.error problem width lexeme], .stay⟩

def changing (r : Reading) (change : ModeChange) : Reading := { r with change }

end Reading

end ComponentLang.Scan
