/-!
# Keywords

The reserved words, their spelling, and which of them may begin a statement. Spellings are
distinct, so looking up the spelling of a keyword finds that keyword.
-/
namespace ComponentLang

inductive Keyword where
  | asKw
  | asyncKw
  | awaitKw
  | breakKw
  | catchKw
  | componentKw
  | constKw
  | continueKw
  | defaultKw
  | elseKw
  | exportKw
  | finallyKw
  | fnKw
  | forKw
  | fromKw
  | functionKw
  | ifKw
  | importKw
  | inKw
  | letKw
  | renderKw
  | returnKw
  | throwKw
  | tryKw
  | varKw
  | whileKw
  deriving DecidableEq, Repr

namespace Keyword

def all : List Keyword :=
  [.asKw, .asyncKw, .awaitKw, .breakKw, .catchKw, .componentKw, .constKw, .continueKw,
   .defaultKw, .elseKw, .exportKw, .finallyKw, .fnKw, .forKw, .fromKw, .functionKw, .ifKw,
   .importKw, .inKw, .letKw, .renderKw, .returnKw, .throwKw, .tryKw, .varKw, .whileKw]

theorem mem_all (k : Keyword) : k ∈ all := by
  cases k <;> decide

def spelling : Keyword → String
  | .asKw => "as"
  | .asyncKw => "async"
  | .awaitKw => "await"
  | .breakKw => "break"
  | .catchKw => "catch"
  | .componentKw => "component"
  | .constKw => "const"
  | .continueKw => "continue"
  | .defaultKw => "default"
  | .elseKw => "else"
  | .exportKw => "export"
  | .finallyKw => "finally"
  | .fnKw => "fn"
  | .forKw => "for"
  | .fromKw => "from"
  | .functionKw => "function"
  | .ifKw => "if"
  | .importKw => "import"
  | .inKw => "in"
  | .letKw => "let"
  | .renderKw => "render"
  | .returnKw => "return"
  | .throwKw => "throw"
  | .tryKw => "try"
  | .varKw => "var"
  | .whileKw => "while"

/-- The keyword that `word` spells, letter case included. -/
def lookup (word : String) : Option Keyword :=
  all.find? fun k => k.spelling == word

theorem lookup_spelling (k : Keyword) : lookup k.spelling = some k := by
  cases k <;> rfl

theorem spelling_of_lookup {word : String} {k : Keyword} (h : lookup word = some k) :
    k.spelling = word := by
  simpa using List.find?_some h

theorem lookup_eq_some_iff {word : String} {k : Keyword} :
    lookup word = some k ↔ k.spelling = word :=
  ⟨spelling_of_lookup, fun h => h ▸ lookup_spelling k⟩

/-- The word that names a keyword in listings: its spelling with a capital. -/
def name : Keyword → String
  | .asKw => "As"
  | .asyncKw => "Async"
  | .awaitKw => "Await"
  | .breakKw => "Break"
  | .catchKw => "Catch"
  | .componentKw => "Component"
  | .constKw => "Const"
  | .continueKw => "Continue"
  | .defaultKw => "Default"
  | .elseKw => "Else"
  | .exportKw => "Export"
  | .finallyKw => "Finally"
  | .fnKw => "Fn"
  | .forKw => "For"
  | .fromKw => "From"
  | .functionKw => "Function"
  | .ifKw => "If"
  | .importKw => "Import"
  | .inKw => "In"
  | .letKw => "Let"
  | .renderKw => "Render"
  | .returnKw => "Return"
  | .throwKw => "Throw"
  | .tryKw => "Try"
  | .varKw => "Var"
  | .whileKw => "While"

/-- The keywords at which a statement or declaration may begin. Reading goes on at one of these
after a mistake. -/
def startsStatement : Keyword → Bool
  | .componentKw | .importKw | .exportKw | .functionKw | .fnKw | .asyncKw | .letKw | .constKw
  | .varKw | .ifKw | .whileKw | .forKw | .returnKw | .breakKw | .continueKw | .throwKw
  | .tryKw => true
  | _ => false

end Keyword

end ComponentLang
