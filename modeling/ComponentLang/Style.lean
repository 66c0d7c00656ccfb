import ComponentLang.Text.Blank

/-!
# Style declarations

The text after `style:` is a list of declarations with `;` between them. A declaration is a
property and a value with the first `:` between them, both without white space around them. What
has no colon, or no property, declares nothing.
-/
namespace ComponentLang

structure StyleDecl where
  property : String
  value : String
  deriving DecidableEq, Repr

namespace StyleDecl

/-- The declaration that one entry makes. -/
def ofEntry? (entry : List Char) : Option StyleDecl :=
  match entry.dropWhile (· != ':') with
  | [] => none
  | _ :: value =>
    let property := Text.trim (entry.takeWhile (· != ':'))
    if property.isEmpty then none
    else some ⟨String.ofList property, String.ofList (Text.trim value)⟩

def ofChars (text : List Char) : List StyleDecl := (text.splitOn ';').filterMap ofEntry?

/-- All declarations of a text, in order. -/
def ofText (text : String) : List StyleDecl := ofChars text.toList

end StyleDecl

end ComponentLang
