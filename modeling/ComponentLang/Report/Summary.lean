import ComponentLang.Analysis
import ComponentLang.Report.Json

/-!
# JSON reports

Tokens, types and the result of a check as JSON values.
-/
namespace ComponentLang.Report

open JsonValue (number string bool array object)

def spanJson (s : Span) : JsonValue :=
  object [⟨"start", number s.start⟩, ⟨"end", number s.stop⟩, ⟨"line", number s.line⟩,
    ⟨"column", number s.column⟩]

def kindJson : TokenKind → JsonValue
  | .number kind => object [⟨"Number", string kind.name⟩]
  | .keyword word => object [⟨"Keyword", string word.name⟩]
  | kind => string kind.name

/-- A token; what is wrong with it is shown only where something is. -/
def tokenJson (t : Token) : JsonValue :=
  object ([⟨"kind", kindJson t.kind⟩, ⟨"lexeme", string t.lexeme⟩, ⟨"span", spanJson t.span⟩] ++
    (t.problem.map fun p => ⟨"error", string p.message⟩).toList)

def tokensJson (tokens : List Token) : JsonValue := array (tokens.map tokenJson)

/-- A kind of type without further detail. -/
def bareType (kind : String) : JsonValue := object [⟨"kind", string kind⟩]

/-- A kind of type with its detail. -/
def detailedType (kind : String) (detail : JsonValue) : JsonValue :=
  object [⟨"kind", string kind⟩, ⟨"of", detail⟩]

mutual

def typeJson : Ty → JsonValue
  | .primitive p => detailedType "Primitive" (string p.name)
  | .array element => detailedType "Array" (typeJson element)
  | .object fields => detailedType "Object" (array (typedNamesJson fields))
  | .function params result isAsync =>
    detailedType "Function" (object [⟨"params", array (typesJson params)⟩,
      ⟨"ret", typeJson result⟩, ⟨"is_async", bool isAsync⟩])
  | .union members => detailedType "Union" (array (typesJson members))
  | .optional inner => detailedType "Optional" (typeJson inner)
  | .component name => detailedType "Component" (string name)
  | .any => bareType "Any"
  | .unknown => bareType "Unknown"

def typesJson : List Ty → List JsonValue
  | [] => []
  | t :: rest => typeJson t :: typesJson rest

def typedNamesJson : List TypedName → List JsonValue
  | [] => []
  | ⟨name, type⟩ :: rest => array [string name, typeJson type] :: typedNamesJson rest

end

def diagnosticJson (d : Diagnostic) : JsonValue :=
  object [⟨"message", string d.message⟩, ⟨"line", number d.line⟩, ⟨"column", number d.column⟩,
    ⟨"stage", string d.stage.name⟩]

def summaryJson (s : ComponentSummary) : JsonValue :=
  object [⟨"name", string s.name⟩, ⟨"state", array (typedNamesJson s.state)⟩,
    ⟨"methods", array (typedNamesJson s.methods)⟩]

/-- What a check of the file says of it. -/
def checkJson (file : String) (a : Analysis) : JsonValue :=
  object [⟨"file", string file⟩, ⟨"diagnostics", array (a.diagnostics.map diagnosticJson)⟩,
    ⟨"components", array (a.checked.components.map summaryJson)⟩,
    ⟨"bindings", array (a.checked.bindings.map string)⟩]

end ComponentLang.Report
