import ComponentLang.Span

/-!
# Type expressions

The types that a program writes down, before their names are resolved.
-/
namespace ComponentLang

inductive TypeExpr where
  | named (span : Span) (name : String)
  /-- Written `Array<T>` or `T[]`. -/
  | array (span : Span) (element : TypeExpr)
  /-- Written `T?`. -/
  | optional (span : Span) (inner : TypeExpr)
  /-- Written `A | B`. -/
  | union (span : Span) (members : List TypeExpr)

namespace TypeExpr

def span : TypeExpr → Span
  | .named span _ => span
  | .array span _ => span
  | .optional span _ => span
  | .union span _ => span

mutual

/-- The type expression in words. Grouping is not shown. -/
def display : TypeExpr → String
  | .named _ name => name
  | .array _ element => "Array<" ++ display element ++ ">"
  | .optional _ inner => display inner ++ "?"
  | .union _ members => String.intercalate " | " (displayAll members)

def displayAll : List TypeExpr → List String
  | [] => []
  | a :: rest => display a :: displayAll rest

end

end TypeExpr

end ComponentLang
