import ComponentLang.Scan.Read

/-!
# The scan

The scan makes readings from the front of a source to its end. It keeps the cursor, the modes,
the tokens made so far and the count of errors. One error more than the configuration allows ends
it early. A reading may take nothing from the source: a style value may be empty, which happens
once for each, and in the content of a tag white space outside ASCII begins no word of text, which
then happens forever. In the second case the scan has no result.
-/
namespace ComponentLang.Scan

/-- A place in a source and what is left of the source there. -/
structure Cursor where
  rest : Source
  pos : Nat
  line : Nat
  column : Nat
  deriving DecidableEq, Repr

namespace Cursor

def start (s : Source) : Cursor := ⟨s, 0, 1, 1⟩

/-- The place after `u`, where `rest` is left. A line ends after its line feed. -/
def after (c : Cursor) (u : SourceUnit) (rest : Source) : Cursor :=
  if u = .char '\n' then ⟨rest, c.pos + 1, c.line + 1, 1⟩
  else ⟨rest, c.pos + 1, c.line, c.column + 1⟩

/-- The place `width` units on, or the end of the source. -/
def advance (c : Cursor) : Nat → Cursor
  | 0 => c
  | width + 1 =>
    match c.rest with
    | [] => c
    | u :: rest => (c.after u rest).advance width

/-- The units between two places. -/
def spanTo (c next : Cursor) : Span := ⟨c.pos, next.pos, c.line, c.column⟩

@[simp] theorem advance_zero (c : Cursor) : c.advance 0 = c := rfl

@[simp] theorem rest_after (c : Cursor) (u : SourceUnit) (rest : Source) :
    (c.after u rest).rest = rest := by
  unfold after
  split <;> rfl

@[simp] theorem pos_after (c : Cursor) (u : SourceUnit) (rest : Source) :
    (c.after u rest).pos = c.pos + 1 := by
  unfold after
  split <;> rfl

theorem rest_advance (c : Cursor) (width : Nat) : (c.advance width).rest = c.rest.drop width := by
  induction width generalizing c with
  | zero => simp
  | succ width ih =>
      unfold advance
      split
      · rename_i h
        simp [h]
      · rename_i u rest h
        rw [ih, rest_after, h, List.drop_succ_cons]

theorem pos_advance (c : Cursor) (width : Nat) :
    (c.advance width).pos = c.pos + min width c.rest.length := by
  induction width generalizing c with
  | zero => simp
  | succ width ih =>
      unfold advance
      split
      · rename_i h
        simp [h]
      · rename_i u rest h
        rw [ih, rest_after, pos_after, h, List.length_cons]
        omega

end Cursor

structure State where
  cursor : Cursor
  modes : ModeStack
  /-- The tokens, newest first. -/
  emitted : List Token
  errors : Nat
  halted : Bool
  deriving DecidableEq, Repr

namespace State

def start (s : Source) : State := ⟨.start s, .initial, [], 0, false⟩

def finished (st : State) : Bool := st.halted || st.cursor.rest.isEmpty

/-- Whether the token made last ends an operand. -/
def afterOperand (st : State) : Bool := st.emitted.head?.any fun t => t.kind.endsOperand

def place (config : ScanConfig) (st : State) (piece : Piece) : State :=
  let next := st.cursor.advance piece.width
  let span := st.cursor.spanTo next
  match piece with
  | .skip _ => { st with cursor := next }
  | .token kind _ lexeme =>
    { st with cursor := next, emitted := .ofKind kind lexeme span :: st.emitted }
  | .error problem _ lexeme =>
    let errors := st.errors + 1
    let emitted := .ofError problem lexeme span :: st.emitted
    if errors > config.maxErrors then
      { st with
        cursor := next
        emitted := .ofError (.tooManyErrors errors) "" (next.spanTo next) :: emitted
        errors
        halted := true }
    else { st with cursor := next, emitted, errors }

/-- Make the reading that stands at the cursor. -/
def step (config : ScanConfig) (st : State) : State :=
  let reading := read config st.modes.top st.afterOperand st.cursor.rest
  let placed := reading.pieces.foldl (place config) st
  { placed with modes := reading.change.apply placed.modes }

/-- Step until finished, at most `fuel` times. -/
def run (config : ScanConfig) : Nat → State → Option State
  | 0, st => if st.finished then some st else none
  | fuel + 1, st => if st.finished then some st else run config fuel (st.step config)

end State

/-- The tokens of a source, of which the last is the end of the source, and the modes there. -/
structure Scanned where
  tokens : List Token
  modes : ModeStack
  deriving DecidableEq, Repr

namespace Scanned

def ofState (st : State) : Scanned :=
  ⟨(.ofKind .eof "" (st.cursor.spanTo st.cursor) :: st.emitted).reverse, st.modes⟩

def diagnostics (scanned : Scanned) : List Diagnostic := Token.diagnostics scanned.tokens

end Scanned

/-- Scan a whole source. There is no result when the scan would go on forever. Every reading but
the one that repeats takes a unit or ends a style value, so two steps for each unit are enough. -/
def scan (config : ScanConfig) (s : Source) : Option Scanned :=
  (State.run config (2 * s.length + 1) (.start s)).map .ofState

end ComponentLang.Scan
