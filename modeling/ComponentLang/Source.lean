/-!
# Sources

A source is a list of units: characters, and single bytes that belong to no character. Every
position of this library counts units, so a bad byte can be reported where it stands.
-/
namespace ComponentLang

inductive SourceUnit where
  | char (c : Char)
  | invalid (byte : UInt8)
  deriving DecidableEq, Repr

abbrev Source := List SourceUnit

namespace SourceUnit

/-- The character that stands for a unit in a text: the replacement character for a bad byte. -/
def toChar : SourceUnit → Char
  | .char c => c
  | .invalid _ => '\uFFFD'

/-- A bad byte is in no class of characters. -/
def satisfies (p : Char → Bool) : SourceUnit → Bool
  | .char c => p c
  | .invalid _ => false

@[simp] theorem toChar_char (c : Char) : (SourceUnit.char c).toChar = c := rfl
@[simp] theorem satisfies_char (p : Char → Bool) (c : Char) : (SourceUnit.char c).satisfies p = p c := rfl
@[simp] theorem satisfies_invalid (p : Char → Bool) (b : UInt8) :
    (SourceUnit.invalid b).satisfies p = false := rfl

end SourceUnit

namespace Source

def ofString (text : String) : Source := text.toList.map .char

/-- The source as a text, bad bytes replaced. -/
def chars (s : Source) : List Char := s.map SourceUnit.toChar

/-- The source as a string, bad bytes replaced. -/
def text (s : Source) : String := String.ofList s.chars

@[simp] theorem chars_nil : chars [] = [] := rfl
@[simp] theorem chars_cons (u : SourceUnit) (s : Source) : chars (u :: s) = u.toChar :: chars s := rfl

theorem chars_append (s t : Source) : chars (s ++ t) = chars s ++ chars t := by
  simp [chars]

theorem chars_ofString (text : String) : (ofString text).chars = text.toList := by
  simp [ofString, chars, Function.comp_def]

/-- The number of units at the front that are characters of the class `p`. -/
def run (p : Char → Bool) : Source → Nat
  | [] => 0
  | u :: rest => if u.satisfies p then run p rest + 1 else 0

/-- Whether a character of the class `p` stands at the front. -/
def frontIs (p : Char → Bool) : Source → Bool
  | [] => false
  | u :: _ => u.satisfies p

/-- The number of units before the first character of the class `p`, or before the end. -/
def upTo (p : Char → Bool) : Source → Nat
  | [] => 0
  | u :: rest => if u.satisfies p then 0 else upTo p rest + 1

theorem run_le (p : Char → Bool) (s : Source) : run p s ≤ s.length := by
  induction s with
  | nil => simp [run]
  | cons u rest ih =>
      unfold run
      split
      · simpa using ih
      · simp

/-- Every unit of the run is in the class. -/
theorem satisfies_of_mem_take_run {p : Char → Bool} {s : Source} {u : SourceUnit}
    (h : u ∈ s.take (run p s)) : u.satisfies p = true := by
  induction s with
  | nil => simp at h
  | cons v rest ih =>
      unfold run at h
      split at h
      · rename_i hv
        rcases List.mem_cons.mp h with rfl | h
        · exact hv
        · exact ih h
      · simp at h

/-- The unit after the run, if there is one, is not in the class. -/
theorem not_satisfies_of_drop_run {p : Char → Bool} {s : Source} {u : SourceUnit} {rest : Source}
    (h : s.drop (run p s) = u :: rest) : u.satisfies p = false := by
  induction s with
  | nil => simp at h
  | cons v tail ih =>
      unfold run at h
      split at h
      · exact ih h
      · rename_i hv
        obtain ⟨rfl, rfl⟩ := List.cons.inj h
        simpa using hv

theorem upTo_le (p : Char → Bool) (s : Source) : upTo p s ≤ s.length := by
  induction s with
  | nil => simp [upTo]
  | cons u rest ih =>
      unfold upTo
      split
      · simp
      · simpa using ih

/-- No unit before the place that `upTo` finds is in the class. -/
theorem not_satisfies_of_mem_take_upTo {p : Char → Bool} {s : Source} {u : SourceUnit}
    (h : u ∈ s.take (upTo p s)) : u.satisfies p = false := by
  induction s with
  | nil => simp at h
  | cons v rest ih =>
      unfold upTo at h
      split at h
      · simp at h
      · rename_i hv
        rcases List.mem_cons.mp h with rfl | h
        · simpa using hv
        · exact ih h

end Source

end ComponentLang
