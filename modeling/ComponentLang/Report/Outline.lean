import ComponentLang.Text.Quoted

/-!
# Outlines

A value of any form, written out over many lines: every field and item is on lines of its own,
four spaces further in than what it belongs to, with a comma after it.
-/
namespace ComponentLang.Report

mutual

inductive Outline where
  /-- A word that stands for itself. -/
  | word (text : String)
  | quoted (text : String)
  | list (items : List Outline)
  /-- A name with an item in it. -/
  | wrap (name : String) (item : Outline)
  | record (name : String) (fields : List OutlineField)

structure OutlineField where
  name : String
  value : Outline

end

namespace Outline

def number (n : Nat) : Outline := .word (toString n)

def bool (b : Bool) : Outline := .word (if b then "true" else "false")

def option {α : Type} (f : α → Outline) : Option α → Outline
  | none => .word "None"
  | some a => .wrap "Some" (f a)

/-- The start of a line, `depth` levels in. -/
def margin (depth : Nat) : String := String.ofList (List.replicate (4 * depth) ' ')

mutual

/-- The outline at a depth. The first line has no margin. -/
def render (depth : Nat) : Outline → String
  | .word text => text
  | .quoted text => Text.quote text
  | .list [] => "[]"
  | .list (item :: rest) =>
    "[\n" ++ renderItems (depth + 1) (item :: rest) ++ margin depth ++ "]"
  | .wrap name item =>
    name ++ "(\n" ++ margin (depth + 1) ++ render (depth + 1) item ++ ",\n" ++ margin depth ++ ")"
  | .record name fields =>
    name ++ " \x7b\n" ++ renderFields (depth + 1) fields ++ margin depth ++ "\x7d"

def renderItems (depth : Nat) : List Outline → String
  | [] => ""
  | item :: rest => margin depth ++ render depth item ++ ",\n" ++ renderItems depth rest

def renderFields (depth : Nat) : List OutlineField → String
  | [] => ""
  | ⟨name, value⟩ :: rest =>
    margin depth ++ name ++ ": " ++ render depth value ++ ",\n" ++ renderFields depth rest

end

end Outline

end ComponentLang.Report
