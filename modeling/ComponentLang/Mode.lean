/-!
# Lexical modes

The mode decides how the next unit of a source is read. Modes are stacked while markup and code
nest. A stack is never empty: `top` is the mode in force and `below` holds the modes to return
to, innermost first.
-/
namespace ComponentLang

inductive Mode where
  /-- Ordinary code. -/
  | normal
  /-- Between `<name` and the end of the opening tag. -/
  | tagAttribute
  /-- Between an opening tag and its closing tag. -/
  | tagContent
  /-- Inside the braces of an expression in markup. -/
  | expression
  /-- After `style:`. -/
  | styleValue
  deriving DecidableEq, Repr, Inhabited

def Mode.all : List Mode := [.normal, .tagAttribute, .tagContent, .expression, .styleValue]

def Mode.name : Mode → String
  | .normal => "Normal"
  | .tagAttribute => "TagAttribute"
  | .tagContent => "TagContent"
  | .expression => "Expression"
  | .styleValue => "StyleValue"

structure ModeStack where
  top : Mode
  below : List Mode
  deriving DecidableEq, Repr

namespace ModeStack

def initial : ModeStack := ⟨.normal, []⟩

def push (s : ModeStack) (mode : Mode) : ModeStack := ⟨mode, s.top :: s.below⟩

/-- Leave the mode in force. The last mode is not left but becomes `normal`. -/
def pop (s : ModeStack) : ModeStack :=
  match s.below with
  | [] => initial
  | mode :: below => ⟨mode, below⟩

/-- Exchange the mode in force. The last mode stays where it is and the new one goes on it. -/
def replace (s : ModeStack) (mode : Mode) : ModeStack :=
  match s.below with
  | [] => s.push mode
  | _ :: _ => { s with top := mode }

/-- The modes, outermost first. -/
def toList (s : ModeStack) : List Mode := (s.top :: s.below).reverse

@[simp] theorem pop_push (s : ModeStack) (mode : Mode) : (s.push mode).pop = s := rfl
@[simp] theorem top_push (s : ModeStack) (mode : Mode) : (s.push mode).top = mode := rfl
@[simp] theorem toList_initial : initial.toList = [.normal] := rfl

theorem toList_push (s : ModeStack) (mode : Mode) : (s.push mode).toList = s.toList ++ [mode] := by
  simp [toList, push]

@[simp] theorem top_replace (s : ModeStack) (mode : Mode) : (s.replace mode).top = mode := by
  unfold replace
  split <;> rfl

theorem toList_ne_nil (s : ModeStack) : s.toList ≠ [] := by
  simp [toList]

end ModeStack

end ComponentLang
