import ComponentLang.Grammar.Problem
import ComponentLang.Token
import ComponentLang.Tree.Expr

/-!
# Reading tokens

A `Parse` takes tokens from the front of a list and gives a value or a problem. What it has taken
stays taken when it fails, and the diagnostics and node numbers given out before stay given out.

Loops are written with `iterate`, whose turns take at least one token each. They are bounded by
the number of tokens at their start, so the bound is never what ends them. Recursive rules are
bounded in the same way: a rule is a function of the rules that it may use once it has taken a
token, and the rules at one depth are made from those at the depth below.
-/
namespace ComponentLang.Grammar

structure State where
  /-- The tokens to come, without errors and up to the end of the input. -/
  rest : List Token
  /-- The place of the token taken last. -/
  previous : Option Span
  /-- The place of the end of the input. -/
  stop : Span
  /-- The tokens behind the end of the input. -/
  behind : List Token
  nextId : Nat
  /-- Whether the head of a control statement is being read. -/
  inHead : Bool
  /-- The problems found so far, newest first. -/
  diagnostics : List Diagnostic
  /-- The number of turns that statement loops have made. -/
  iterations : Nat
  iterationLimit : Nat
  /-- For each of these turns the number of tokens that were to come when it began, newest first. -/
  turns : List Nat
  deriving DecidableEq, Repr

namespace State

/-- The state before the first token of a list. Error tokens are passed over, as they have been
reported, and the input ends at the first end of input in the list, or with the list. -/
def start (tokens : List Token) : State :=
  let valid := tokens.filter fun t => !t.kind.isError
  let rest := valid.takeWhile fun t => t.kind != .eof
  let stop := match valid.drop rest.length with
    | t :: _ => t.span
    | [] => (rest.getLast?.map Token.span).getD .zero
  -- The list counts with the end of input that it is given when it does not have one as its last.
  let count := if valid.getLast?.map Token.kind = some .eof then valid.length else valid.length + 1
  { rest
    previous := none
    stop
    behind := valid.drop (rest.length + 1)
    nextId := 0
    inHead := false
    diagnostics := []
    iterations := 0
    iterationLimit := count * 64 + 1024
    turns := [] }

def peek (s : State) : Token :=
  match s.rest with
  | t :: _ => t
  | [] => .ofKind .eof "" s.stop

def kind (s : State) : TokenKind := s.peek.kind

/-- The kind of the token after the next. At the end of the input this is the first one behind it,
if there is one. -/
def secondKind (s : State) : TokenKind :=
  match s.rest with
  | _ :: t :: _ => t.kind
  | [_] => .eof
  | [] => (s.behind.head?.map Token.kind).getD .eof

def atEnd (s : State) : Bool := s.rest.isEmpty

def here (s : State) : Span := s.peek.span

/-- From `start` to the end of the token taken last. -/
def spanFrom (s : State) (start : Span) : Span :=
  match s.previous with
  | some span => start.through span
  | none => start

/-- The state after the next token, which stays the same at the end. -/
def next (s : State) : State :=
  match s.rest with
  | t :: rest => { s with rest, previous := some t.span }
  | [] => s

def report (s : State) (p : Problem) : State :=
  { s with diagnostics := p.diagnostic :: s.diagnostics }

def found (s : State) : Found :=
  if s.kind = .eof then .endOfInput else .token s.peek.lexeme

@[simp] theorem length_rest_next (s : State) : s.next.rest.length = s.rest.length - 1 := by
  unfold next
  split <;> simp_all

end State

abbrev Parse (α : Type) := ExceptT Problem (StateM State) α

namespace Parse

def run {α : Type} (p : Parse α) (s : State) : Except Problem α × State := p s

/-- The problem `cause` at the next token. -/
def fail {α : Type} (cause : Cause) : Parse α := do
  throw (.ofSpan cause (← get).here)

/-- The next token is not what is expected. -/
def unexpected {α : Type} (expected : Expected) : Parse α := do
  fail (.unexpected expected (← get).found)

def peek : Parse Token := return (← get).peek

def kind : Parse TokenKind := return (← get).kind

def here : Parse Span := return (← get).here

def spanFrom (start : Span) : Parse Span := return (← get).spanFrom start

/-- Take the next token. -/
def advance : Parse Token := do
  let s ← get
  set s.next
  return s.peek

/-- Take the next token if it is of the given kind, and say whether it was. -/
def eat (kind : TokenKind) : Parse Bool := do
  let s ← get
  if s.kind = kind then
    set s.next
    return true
  else
    return false

/-- Take the next token, which must be of the given kind. -/
def expect (kind : TokenKind) (expected : Expected) : Parse Token := do
  if (← get).kind = kind then advance else unexpected expected

def expectIdentifier (expected : Expected) : Parse String :=
  return (← expect .identifier expected).lexeme

/-- A new node at `span`, with the next number. -/
def node (span : Span) : Parse Node := do
  let s ← get
  set { s with nextId := s.nextId + 1 }
  return ⟨s.nextId, span⟩

/-- Run `p` with the head restriction set or lifted, and put it back after success and failure. -/
def withHead {α : Type} (inHead : Bool) (p : Parse α) : Parse α := fun s =>
  let (result, after) := p.run { s with inHead }
  (result, { after with inHead := s.inHead })

/-- Run `p` where any expression may stand. -/
def nested {α : Type} (p : Parse α) : Parse α := withHead false p

/-- Run `p` and give its failure as a value. -/
def attempt {α : Type} (p : Parse α) : Parse (Except Problem α) := fun s =>
  let (result, after) := p.run s
  (.ok result, after)

/-! ## Loops -/

/-- What a turn of a loop comes to: another turn with `state`, or the result. -/
inductive Turn (β α : Type) where
  | again (state : β)
  | done (result : α)

def iterateFor {α β : Type} (turn : β → Parse (Turn β α)) : Nat → β → Parse α
  | 0, _ => fail .iterationLimit
  | turns + 1, b => do
    match ← turn b with
    | .again b => iterateFor turn turns b
    | .done a => return a

/-- Turns from `b` on, each of which but the last takes at least one token. -/
def iterate {α β : Type} (turn : β → Parse (Turn β α)) (b : β) : Parse α := do
  iterateFor turn ((← get).rest.length + 1) b

/-- Items with commas between them, up to `close`, which is left. The last may have a comma. -/
def commaSeparated {α : Type} (close : TokenKind) (item : Parse α) : Parse (List α) :=
  let turn (items : List α) : Parse (Turn (List α) (List α)) := do
    let s ← get
    if s.kind = close || s.atEnd then return .done items
    else
      let items := items ++ [← item]
      if ← eat .comma then return .again items else return .done items
  iterate turn []

end Parse

end ComponentLang.Grammar
