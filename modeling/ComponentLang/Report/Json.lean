/-!
# JSON text

JSON values and their text: every field and item is on lines of its own, two spaces further in
than what it belongs to. Fields come in the order in which they are given.
-/
namespace ComponentLang.Report

mutual

inductive JsonValue where
  | number (n : Nat)
  | string (text : String)
  | bool (b : Bool)
  | array (items : List JsonValue)
  | object (fields : List JsonField)

structure JsonField where
  name : String
  value : JsonValue

end

namespace JsonValue

/-- The last digits of a code point below 256, two of them. -/
def twoDigits (n : Nat) : List Char :=
  let digits := Nat.toDigits 16 n
  List.replicate (2 - digits.length) '0' ++ digits

/-- A character as it stands in a string. -/
def stringChar (c : Char) : List Char :=
  match c with
  | '"' => ['\\', '"']
  | '\\' => ['\\', '\\']
  | '\n' => ['\\', 'n']
  | '\r' => ['\\', 'r']
  | '\t' => ['\\', 't']
  | '\x08' => ['\\', 'b']
  | '\x0c' => ['\\', 'f']
  | c => if c.toNat < 0x20 then ['\\', 'u', '0', '0'] ++ twoDigits c.toNat else [c]

def stringText (text : String) : String :=
  String.ofList ('"' :: text.toList.flatMap stringChar ++ ['"'])

/-- The start of a line, `depth` levels in. -/
def margin (depth : Nat) : String := String.ofList (List.replicate (2 * depth) ' ')

mutual

/-- The text at a depth. The first line has no margin. -/
def render (depth : Nat) : JsonValue → String
  | .number n => toString n
  | .string text => stringText text
  | .bool b => if b then "true" else "false"
  | .array [] => "[]"
  | .array (item :: rest) =>
    "[\n" ++ margin (depth + 1) ++ render (depth + 1) item ++ renderItems (depth + 1) rest ++
      "\n" ++ margin depth ++ "]"
  | .object [] => "\x7b\x7d"
  | .object (⟨name, value⟩ :: rest) =>
    "\x7b\n" ++ margin (depth + 1) ++ stringText name ++ ": " ++ render (depth + 1) value ++
      renderFields (depth + 1) rest ++ "\n" ++ margin depth ++ "\x7d"

def renderItems (depth : Nat) : List JsonValue → String
  | [] => ""
  | item :: rest => ",\n" ++ margin depth ++ render depth item ++ renderItems depth rest

def renderFields (depth : Nat) : List JsonField → String
  | [] => ""
  | ⟨name, value⟩ :: rest =>
    ",\n" ++ margin depth ++ stringText name ++ ": " ++ render depth value ++
      renderFields depth rest

end

end JsonValue

end ComponentLang.Report
