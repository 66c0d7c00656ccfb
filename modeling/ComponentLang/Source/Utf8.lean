import ComponentLang.Source

/-!
# Sources from bytes

Bytes are read as UTF-8. A well-formed sequence is one character; a byte at which no well-formed
sequence starts is a unit of its own. The bytes after the first of a cut or overlong sequence
start no sequence either, so each byte of such a sequence becomes one unit.
-/
namespace ComponentLang.Source

/-- The six low bits of a continuation byte. -/
def continuation? (b : UInt8) : Option Nat :=
  if 0x80 ≤ b ∧ b ≤ 0xbf then some (b.toNat - 0x80) else none

/-- A scalar value that needs `least` or more and has a code point. -/
def scalar? (least n : Nat) : Option Char :=
  if least ≤ n ∧ n.isValidChar then some (Char.ofNat n) else none

/-- The character whose well-formed sequence stands at the front, and its length in bytes. -/
def sequence? : List UInt8 → Option (Char × Nat)
  | [] => none
  | a :: rest =>
    if a < 0x80 then
      some (Char.ofNat a.toNat, 1)
    else if 0xc0 ≤ a ∧ a < 0xe0 then
      match rest with
      | b :: _ => do
        let x ← continuation? b
        let c ← scalar? 0x80 ((a.toNat - 0xc0) * 64 + x)
        return (c, 2)
      | _ => none
    else if 0xe0 ≤ a ∧ a < 0xf0 then
      match rest with
      | b :: c :: _ => do
        let x ← continuation? b
        let y ← continuation? c
        let c ← scalar? 0x800 (((a.toNat - 0xe0) * 64 + x) * 64 + y)
        return (c, 3)
      | _ => none
    else if 0xf0 ≤ a ∧ a < 0xf8 then
      match rest with
      | b :: c :: d :: _ => do
        let x ← continuation? b
        let y ← continuation? c
        let z ← continuation? d
        let c ← scalar? 0x10000 ((((a.toNat - 0xf0) * 64 + x) * 64 + y) * 64 + z)
        return (c, 4)
      | _ => none
    else
      none

/-- Units from bytes, of which the first `pending` belong to the character read last. -/
def ofBytesAfter (pending : Nat) : List UInt8 → Source
  | [] => []
  | b :: rest =>
    match pending with
    | n + 1 => ofBytesAfter n rest
    | 0 =>
      match sequence? (b :: rest) with
      | some (c, width) => .char c :: ofBytesAfter (width - 1) rest
      | none => .invalid b :: ofBytesAfter 0 rest

def ofBytes (bytes : List UInt8) : Source := ofBytesAfter 0 bytes

end ComponentLang.Source
