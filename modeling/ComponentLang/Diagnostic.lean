import ComponentLang.Span

/-!
# Diagnostics

A problem that one of the three stages found, with the place where it starts. Problems never
stop the analysis: every stage hands on the list of those it found.
-/
namespace ComponentLang

inductive Stage where
  | lex
  | parse
  | type
  deriving DecidableEq, Repr

def Stage.name : Stage → String
  | .lex => "lex"
  | .parse => "parse"
  | .type => "type"

structure Diagnostic where
  stage : Stage
  message : String
  line : Nat
  column : Nat
  deriving DecidableEq, Repr

namespace Diagnostic

/-- The diagnostic at the start of `span`. -/
def ofSpan (stage : Stage) (message : String) (span : Span) : Diagnostic :=
  ⟨stage, message, span.line, span.column⟩

/-- Where a diagnostic stands, in words. -/
def position (line column : Nat) : String :=
  "line " ++ toString line ++ ", column " ++ toString column

def text (d : Diagnostic) : String :=
  d.stage.name ++ " error at " ++ position d.line d.column ++ ": " ++ d.message

end Diagnostic

end ComponentLang
