import ComponentLang.Typing.Scope

/-!
# The prelude

The names that every program may use without declaring them.
-/
namespace ComponentLang.Prelude

def function (params : List Ty) (result : Ty) : Ty := .function params result false

def names : List TypedName :=
  [⟨"console", .object [⟨"log", function [.any] .null⟩]⟩,
   ⟨"Math", .object [
      ⟨"sqrt", function [.float] .float⟩,
      ⟨"pow", function [.float, .float] .float⟩,
      ⟨"floor", function [.float] .int⟩,
      ⟨"abs", function [.float] .float⟩]⟩]

/-- Define the names of the prelude in the innermost scope. -/
def install (scopes : Scopes) : Scopes := names.foldl (fun s n => s.define n.name n.type) scopes

end ComponentLang.Prelude
