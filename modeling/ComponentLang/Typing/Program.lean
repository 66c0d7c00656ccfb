import ComponentLang.Tree.Walk
import ComponentLang.Typing.Statement

/-!
# Checking a program

Imports, components, functions and plain variables at the top are in sight everywhere. Functions
are checked first, then statements, exports and components.
-/
namespace ComponentLang

/-- What was found out about a program. -/
structure CheckResult where
  diagnostics : List Diagnostic
  types : TypeTable
  components : List ComponentSummary
  /-- The names of the values that it takes from outside. -/
  bindings : List String

namespace ExportItem

def component? : ExportItem → Option Component
  | .component c => some c
  | _ => none

def function? : ExportItem → Option Function
  | .function f => some f
  | _ => none

end ExportItem

namespace Program

/-- All components at the top, the exported ones last. -/
def allComponents (p : Program) : List Component :=
  p.components ++ p.exports.filterMap fun e => e.item.component?

/-- All functions at the top, the exported ones last. -/
def allFunctions (p : Program) : List Function :=
  p.functions ++ p.exports.filterMap fun e => e.item.function?

end Program

namespace Check

def each {α : Type} (check : α → Check Unit) : List α → Check Unit
  | [] => pure ()
  | a :: rest => do
    check a
    each check rest

def declareFunction (f : Function) : Check Unit := do
  define f.name (← signature f)

/-- Bring a variable at the top into sight. Its type is settled when it is declared. -/
def declareVariable : Stmt → Check Unit
  | .variableDecl _ decl => define decl.name .unknown
  | _ => pure ()

/-- Bring everything at the top into sight. -/
def declare (p : Program) : Check Unit := do
  each importDecl p.imports
  each (fun c => declareComponent c.name) p.allComponents
  each declareFunction p.allFunctions
  each declareVariable p.statements

def program (p : Program) : Check Unit := do
  declare p
  each (fun f => do let _ ← function f) p.functions
  each stmt p.statements
  each exportDecl p.exports
  each component p.components

end Check

/-- Check a program, given the types of some of the values that it takes from outside. -/
def Program.check (p : Program) (external : List TypedName) : CheckResult :=
  let (_, after) := (Check.program p).run (.start external)
  { diagnostics := after.diagnostics.reverse
    types := after.types
    components := after.summaries
    bindings := p.bindings }

end ComponentLang
