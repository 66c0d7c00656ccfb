import ComponentLang.Grammar.Program
import ComponentLang.Scan.Run
import ComponentLang.Typing.Program

/-!
# Analysis

A source is scanned, read as a program and checked. All three find what they can; what is wrong
comes in the order of the stages.
-/
namespace ComponentLang

structure Analysis where
  scanned : Scan.Scanned
  parsed : Grammar.Parsed
  checked : CheckResult

namespace Analysis

/-- Analyze a scanned source, given the types of some of the values that it takes from outside. -/
def ofScanned (external : List TypedName) (scanned : Scan.Scanned) : Analysis :=
  let parsed := Grammar.parse scanned.tokens
  { scanned
    parsed
    checked := parsed.program.check external }

/-- Analyze a source. There is no analysis of a source whose scan would go on forever. -/
def ofSource? (config : ScanConfig) (external : List TypedName) (s : Source) : Option Analysis :=
  (Scan.scan config s).map (ofScanned external)

/-- The diagnostics of all stages. -/
def diagnostics (a : Analysis) : List Diagnostic :=
  a.scanned.diagnostics ++ a.parsed.diagnostics ++ a.checked.diagnostics

def hasErrors (a : Analysis) : Bool := !a.diagnostics.isEmpty

/-- The number of diagnostics of a stage. -/
def count (a : Analysis) (stage : Stage) : Nat := a.diagnostics.countP fun d => d.stage = stage

/-- The first component with a name. -/
def component? (a : Analysis) (name : String) : Option ComponentSummary :=
  a.checked.components.find? fun c => c.name = name

end Analysis

end ComponentLang
