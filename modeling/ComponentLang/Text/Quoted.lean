import ComponentLang.Text.Formless

/-!
# Quoted text

A text between quotes, on one line. Quotes and backslashes have a backslash before them; line ends,
tabs and the zero character are named by letters, and characters that would show nothing by their
code points.
-/
namespace ComponentLang.Text

/-- A code point in lower-case hexadecimal. -/
def hex (n : Nat) : List Char := Nat.toDigits 16 n

/-- A character as it stands in quoted text. -/
def quoteChar (c : Char) : List Char :=
  match c with
  | '\x00' => ['\\', '0']
  | '\t' => ['\\', 't']
  | '\r' => ['\\', 'r']
  | '\n' => ['\\', 'n']
  | '\\' => ['\\', '\\']
  | '"' => ['\\', '"']
  | c => if isFormless c then ['\\', 'u', '\x7b'] ++ hex c.toNat ++ ['\x7d'] else [c]

def quote (text : String) : String :=
  String.ofList ('"' :: text.toList.flatMap quoteChar ++ ['"'])

end ComponentLang.Text
