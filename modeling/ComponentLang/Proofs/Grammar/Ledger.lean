import ComponentLang.Grammar.Block
import ComponentLang.Proofs.Grammar.Takes
import ComponentLang.Proofs.Tree.Walk
import Mathlib.Algebra.BigOperators.Group.List.Basic
import Mathlib.Algebra.Order.Group.Multiset
import Mathlib.Data.Multiset.Range
import Mathlib.Tactic.Abel

/-!
# What reading gives out

While a program is read, numbers are given out to its nodes and problems are reported. Each of
these is an entry of the state, made once and never taken back. A tree stands for entries too: its
expressions for their numbers, and its placeholders for the problems that they are left for.

`Builds g m p` says how the two go together: if `g` accounts for the entries made so far, then `p`
ends with a value `a` for which `m a` does. An account may leave entries out when something that
was read is dropped. Then it is not whole, and a placeholder takes the place of what is dropped.
As in `Takes`, there is one lemma for each way of making a reader; none of them speaks of a state.
-/
namespace ComponentLang.Grammar

/-- What is given out once while a program is read. -/
inductive Entry where
  | number (id : Nat)
  | problem (d : Diagnostic)
  deriving DecidableEq

/-! ## Holdings -/

/-- Entries that are accounted for. A whole holding leaves out no entry that has been made. -/
@[ext] structure Holding where
  entries : Multiset Entry
  whole : Bool

namespace Holding

instance : Zero Holding := ⟨⟨0, true⟩⟩

instance : Add Holding := ⟨fun g h => ⟨g.entries + h.entries, g.whole && h.whole⟩⟩

@[simp] theorem zero_entries : (0 : Holding).entries = 0 := rfl

@[simp] theorem zero_whole : (0 : Holding).whole = true := rfl

@[simp] theorem add_entries (g h : Holding) : (g + h).entries = g.entries + h.entries := rfl

@[simp] theorem add_whole (g h : Holding) : (g + h).whole = (g.whole && h.whole) := rfl

instance : AddCommMonoid Holding where
  add_assoc f g h := Holding.ext (add_assoc _ _ _) (Bool.and_assoc _ _ _)
  zero_add g := Holding.ext (zero_add _) (Bool.true_and _)
  add_zero g := Holding.ext (add_zero _) (Bool.and_true _)
  add_comm g h := Holding.ext (add_comm _ _) (Bool.and_comm _ _)
  nsmul := nsmulRec

/-- The number of a node. -/
def number (id : Nat) : Holding := ⟨{.number id}, true⟩

/-- A problem that is reported in the place of something that is dropped. -/
def damage (d : Diagnostic) : Holding := ⟨{.problem d}, false⟩

/-- The same entries when others may have been made. -/
def torn (g : Holding) : Holding := ⟨g.entries, false⟩

theorem torn_add_damage (g : Holding) (d : Diagnostic) :
    g.torn + damage d = g + damage d :=
  Holding.ext rfl (Bool.and_false _).symm

end Holding

/-- What a part of a tree stands for, apart from what is in it. -/
def partHolding : TreePart → Holding
  | .expr e => .number e.node.id
  | .stmt (.error span message) => .damage ⟨.parse, message, span.line, span.column⟩
  | _ => 0

/-- What the parts of a tree stand for. -/
def held (parts : List TreePart) : Holding := (parts.map partHolding).sum

@[simp] theorem held_nil : held [] = 0 := rfl

@[simp] theorem held_cons (part : TreePart) (parts : List TreePart) :
    held (part :: parts) = partHolding part + held parts := by
  simp [held]

@[simp] theorem held_append (parts others : List TreePart) :
    held (parts ++ others) = held parts + held others := by
  simp [held]

theorem held_flatMap {α : Type} (l : List α) (inside : α → List TreePart) :
    held (l.flatMap inside) = (l.map fun a => held (inside a)).sum := by
  induction l with
  | nil => rfl
  | cons a rest ih => simp [ih]

@[simp] theorem held_enter (part : TreePart) (inside : List TreePart) :
    held (Walk.enter Walk.everywhere part inside) = partHolding part + held inside := by
  simp [Walk.enter]

/-! ## Trees -/

def heldExpr (e : Expr) : Holding := held (Walk.expr Walk.everywhere e)

def heldExprs (es : List Expr) : Holding := held (Walk.exprs Walk.everywhere es)

def heldProperties (ps : List Property) : Holding := held (Walk.propertyList Walk.everywhere ps)

def heldTag (t : Tag) : Holding := held (Walk.tag Walk.everywhere t)

def heldAttributes (as : List Attribute) : Holding := held (Walk.attributeList Walk.everywhere as)

def heldMarkups (ms : List Markup) : Holding := held (Walk.markups Walk.everywhere ms)

def heldStmt (s : Stmt) : Holding := held (Walk.stmt Walk.everywhere s)

def heldStmts (ss : List Stmt) : Holding := held (Walk.stmts Walk.everywhere ss)

def heldBlock (b : Block) : Holding := held (Walk.block Walk.everywhere b)

def heldHandler (handler : CatchClause) : Holding := heldBlock handler.body

def heldFunction (f : Function) : Holding := held (Walk.function Walk.everywhere f)

def heldComponent (c : Component) : Holding := held (Walk.component Walk.everywhere c)

def heldExport (e : Export) : Holding := held (Walk.exportDecl Walk.everywhere e)

theorem heldExprs_concat (es : List Expr) (e : Expr) :
    heldExprs (es ++ [e]) = heldExprs es + heldExpr e := by
  simp [heldExprs, heldExpr, Walk.exprs_eq_flatMap]

theorem heldProperties_concat (ps : List Property) (p : Property) :
    heldProperties (ps ++ [p]) = heldProperties ps + heldProperties [p] := by
  unfold heldProperties
  rw [Walk.propertyList_eq_flatMap, List.flatMap_append, ← Walk.propertyList_eq_flatMap]
  simp

theorem heldAttributes_concat (as : List Attribute) (a : Attribute) :
    heldAttributes (as ++ [a]) = heldAttributes as + heldAttributes [a] := by
  unfold heldAttributes
  rw [Walk.attributeList_eq_flatMap, List.flatMap_append, ← Walk.attributeList_eq_flatMap]
  simp

theorem heldMarkups_append (ms others : List Markup) :
    heldMarkups (ms ++ others) = heldMarkups ms + heldMarkups others := by
  simp [heldMarkups, Walk.markups_eq_flatMap]

theorem heldStmts_concat (ss : List Stmt) (s : Stmt) :
    heldStmts (ss ++ [s]) = heldStmts ss + heldStmt s := by
  simp [heldStmts, heldStmt, Walk.stmts_eq_flatMap]

/-! ## The entries of a state -/

namespace State

def entries (s : State) : Multiset Entry :=
  (Multiset.range s.nextId).map .number + (↑(s.diagnostics.map Entry.problem) : Multiset Entry)

@[simp] theorem number_mem_entries {s : State} {id : Nat} :
    .number id ∈ s.entries ↔ id < s.nextId := by
  simp [entries]

@[simp] theorem problem_mem_entries {s : State} {d : Diagnostic} :
    .problem d ∈ s.entries ↔ d ∈ s.diagnostics := by
  simp [entries]

@[simp] theorem entries_next (s : State) : s.next.entries = s.entries := by
  unfold next
  split <;> rfl

theorem entries_numbered (s : State) :
    { s with nextId := s.nextId + 1 }.entries = {.number s.nextId} + s.entries := by
  simp [entries, Multiset.range_succ]

theorem entries_report (s : State) (p : Problem) :
    (s.report p).entries = {.problem p.diagnostic} + s.entries := by
  unfold entries report
  rw [List.map_cons, ← Multiset.cons_coe, Multiset.add_cons, ← Multiset.singleton_add]

/-- The limit of turns has been reported. -/
def Limited (s : State) : Prop :=
  ∃ d, .problem d ∈ s.entries ∧ d.message = Cause.iterationLimit.message

theorem Limited.mono {s t : State} (h : s.Limited) (hle : s.entries ≤ t.entries) : t.Limited := by
  obtain ⟨d, hd, hmessage⟩ := h
  exact ⟨d, Multiset.mem_of_le hle hd, hmessage⟩

/-- `g` accounts for entries made from `s` to `t`, and for all of them if it is whole and the limit
has not been reported. -/
structure Accounts (g : Holding) (s t : State) : Prop where
  entered : g.entries + s.entries ≤ t.entries
  exact : g.whole = true → t.Limited ∨ t.entries = g.entries + s.entries

variable {g h : Holding} {s t u : State}

theorem accounts_refl (s : State) : Accounts 0 s s :=
  ⟨by simp, fun _ => .inr (by simp)⟩

theorem Accounts.le (hg : Accounts g s t) : s.entries ≤ t.entries :=
  le_trans (Multiset.le_add_left _ _) hg.entered

theorem Accounts.of_entries_eq (hg : Accounts g s t) (heq : u.entries = t.entries) :
    Accounts g s u := by
  have hlimited : t.Limited → u.Limited := fun hl => hl.mono (le_of_eq heq.symm)
  exact ⟨heq ▸ hg.entered, fun hwhole => (hg.exact hwhole).imp hlimited heq.trans⟩

theorem Accounts.trans (hg : Accounts g s t) (hh : Accounts h t u) : Accounts (g + h) s u where
  entered := calc
    (g + h).entries + s.entries = h.entries + (g.entries + s.entries) := by
      rw [Holding.add_entries]
      abel
    _ ≤ h.entries + t.entries := by gcongr; exact hg.entered
    _ ≤ u.entries := hh.entered
  exact hwhole := by
    rw [Holding.add_whole, Bool.and_eq_true] at hwhole
    rcases hg.exact hwhole.1, hh.exact hwhole.2 with ⟨hlimited | hst, hlimited' | htu⟩
    · exact .inl hlimited'
    · exact .inl (hlimited.mono hh.le)
    · exact .inl hlimited'
    · right
      rw [htu, hst, Holding.add_entries]
      abel

/-- Entries that were made later may be left out. -/
theorem Accounts.torn (hg : Accounts g s t) (hle : t.entries ≤ u.entries) :
    Accounts g.torn s u :=
  ⟨le_trans hg.entered hle, fun hwhole => nomatch hwhole⟩

end State

open State

/-! ## Readers and what they account for -/

namespace Parse

variable {α β : Type} {s : State} {g : Holding} {m : α → Holding} {n : β → Holding}

/-- If `g` accounts for the entries made when `p` begins, then `m a` does when it ends with `a`. No
entry is taken back in any case: those of `u` are there when `p` ends if they are when it begins. -/
def Builds (g : Holding) (m : α → Holding) (p : Parse α) : Prop :=
  ∀ s₀ u s : State, Accounts g s₀ s → u.entries ≤ s.entries →
    Ends (fun a t => Accounts (m a) s₀ t ∧ u.entries ≤ t.entries)
      (fun _ t => u.entries ≤ t.entries) p s

/-- `p` makes no entries. -/
abbrev Idle (p : Parse α) : Prop := Builds 0 (fun _ => 0) p

theorem builds_pure {a : α} (h : g = m a) : Builds g m (pure a) := by
  intro s₀ u s hs hle
  rw [ends_pure, ← h]
  exact ⟨hs, hle⟩

theorem builds_throw {e : Problem} : Builds g m (throw e : Parse α) :=
  fun _ _ _ _ hle => hle

theorem Builds.mono {p : Parse α} {m' : α → Holding} (h : Builds g m p) (hm : ∀ a, m a = m' a) :
    Builds g m' p := by
  rwa [← funext hm]

/-- A reader that is chosen by looking at the state accounts for what the chosen one does. -/
theorem builds_of_eq {p : Parse α} {choose : State → Parse α}
    (h : ∀ s, Builds g m (choose s)) (heq : ∀ s, p s = choose s s) : Builds g m p := by
  intro s₀ u s hs hle
  have hrun : p.run s = (choose s).run s := heq s
  have hends := h s s₀ u s hs hle
  unfold Ends at *
  rw [hrun]
  exact hends

theorem builds_bind {p : Parse β} {f : β → Parse α} (hp : Builds g n p)
    (hf : ∀ b, Builds (n b) m (f b)) : Builds g m (p >>= f) := by
  intro s₀ u s hs hle
  rw [ends_bind]
  apply (hp s₀ u s hs hle).mono
  · intro b t ⟨ht, hle⟩
    exact hf b s₀ u t ht hle
  · intro e t hle
    exact hle

/-- What is in hand stays in hand while something else is read. -/
theorem Builds.frame {p : Parse α} (hp : Builds 0 m p) : Builds g (fun a => g + m a) p := by
  intro s₀ u s hs hle
  apply (hp s u s (accounts_refl s) hle).mono
  · intro a t ⟨ht, hle⟩
    exact ⟨hs.trans ht, hle⟩
  · intro e t hle
    exact hle

theorem builds_then {p : Parse β} {f : β → Parse α} (hp : Builds 0 n p)
    (hf : ∀ b, Builds (g + n b) m (f b)) : Builds g m (p >>= f) :=
  builds_bind hp.frame hf

theorem builds_idle_bind {p : Parse β} {f : β → Parse α} (hp : Idle p)
    (hf : ∀ b, Builds g m (f b)) : Builds g m (p >>= f) := by
  apply builds_then hp
  intro b
  rw [add_zero]
  exact hf b

theorem builds_map {p : Parse β} {f : β → α} (h : Builds g (fun b => m (f b)) p) :
    Builds g m (f <$> p) := by
  rw [map_eq_pure_bind]
  exact builds_bind h fun _ => builds_pure rfl

/-- What may be missing stands for nothing when it is. -/
def someHolding (m : α → Holding) : Option α → Holding
  | none => 0
  | some a => m a

theorem builds_some {p : Parse α} (h : Builds 0 m p) : Builds 0 (someHolding m) (some <$> p) :=
  builds_map h

theorem builds_none : Builds 0 (someHolding m) (pure none : Parse (Option α)) :=
  builds_pure rfl

/-! ### Looking at the state -/

theorem builds_get_bind {f : State → Parse α} (h : ∀ t, Builds g m (f t)) :
    Builds g m (get >>= f) :=
  fun s₀ u s => h s s₀ u s

theorem builds_peek_bind {f : Token → Parse α} (h : ∀ t, Builds g m (f t)) :
    Builds g m (peek >>= f) :=
  fun s₀ u s => h s.peek s₀ u s

theorem builds_kind_bind {f : TokenKind → Parse α} (h : ∀ k, Builds g m (f k)) :
    Builds g m (kind >>= f) :=
  fun s₀ u s => h s.kind s₀ u s

theorem builds_here_bind {f : Span → Parse α} (h : ∀ span, Builds g m (f span)) :
    Builds g m (here >>= f) :=
  fun s₀ u s => h s.here s₀ u s

theorem builds_spanFrom_bind {start : Span} {f : Span → Parse α}
    (h : ∀ span, Builds g m (f span)) : Builds g m (spanFrom start >>= f) :=
  fun s₀ u s => h (s.spanFrom start) s₀ u s

theorem builds_fail {cause : Cause} : Builds g m (fail cause : Parse α) :=
  builds_get_bind fun _ => builds_throw

theorem builds_unexpected {expected : Expected} : Builds g m (unexpected expected : Parse α) :=
  builds_get_bind fun _ => builds_fail

/-! ### Taking tokens and numbering nodes -/

theorem builds_advance_bind {f : Token → Parse α} (h : ∀ t, Builds g m (f t)) :
    Builds g m (advance >>= f) := by
  intro s₀ u s hs hle
  rw [ends_advance_bind]
  exact h s.peek s₀ u s.next (hs.of_entries_eq s.entries_next) (s.entries_next ▸ hle)

theorem builds_eat_bind {kind : TokenKind} {f : Bool → Parse α} (h : ∀ b, Builds g m (f b)) :
    Builds g m (eat kind >>= f) := by
  intro s₀ u s hs hle
  rw [ends_eat_bind]
  split
  · exact h true s₀ u s.next (hs.of_entries_eq s.entries_next) (s.entries_next ▸ hle)
  · exact h false s₀ u s hs hle

theorem builds_eat_if {kind : TokenKind} {p q : Parse α} (hp : Builds g m p)
    (hq : Builds g m q) :
    Builds g m (eat kind >>= fun taken => if taken = true then p else q) := by
  apply builds_eat_bind
  intro taken
  split
  · exact hp
  · exact hq

theorem idle_expect {kind : TokenKind} {expected : Expected} : Idle (expect kind expected) := by
  unfold expect
  apply builds_get_bind
  intro t
  split
  · intro s₀ u s hs hle
    exact ⟨hs.of_entries_eq s.entries_next, s.entries_next ▸ hle⟩
  · exact builds_unexpected

theorem builds_expect_bind {kind : TokenKind} {expected : Expected} {f : Token → Parse α}
    (h : ∀ t, Builds g m (f t)) : Builds g m (expect kind expected >>= f) :=
  builds_idle_bind idle_expect h

theorem builds_expectIdentifier_bind {expected : Expected} {f : String → Parse α}
    (h : ∀ name, Builds g m (f name)) : Builds g m (expectIdentifier expected >>= f) := by
  unfold expectIdentifier
  rw [bind_assoc]
  exact builds_expect_bind fun t => h t.lexeme

theorem builds_node_bind {span : Span} {f : Node → Parse α}
    (h : ∀ node, Builds (g + .number node.id) m (f node)) : Builds g m (node span >>= f) := by
  intro s₀ u s hs hle
  have hnode : Accounts (.number s.nextId) s { s with nextId := s.nextId + 1 } :=
    ⟨le_of_eq s.entries_numbered.symm, fun _ => .inr s.entries_numbered⟩
  exact h ⟨s.nextId, span⟩ s₀ u _ (hs.trans hnode) (le_trans hle hnode.le)

/-! ### Readers made from readers -/

/-- One of two readers, and the same after either. -/
theorem builds_ite_bind {c : Prop} [Decidable c] {p q : Parse β} {f : β → Parse α}
    (hp : Builds 0 n p) (hq : Builds 0 n q) (hf : ∀ b, Builds (g + n b) m (f b)) :
    Builds g m (if c then p >>= f else q >>= f) := by
  split
  · exact builds_then hp hf
  · exact builds_then hq hf

theorem builds_withHead {inHead : Bool} {p : Parse α} (h : Builds g m p) :
    Builds g m (withHead inHead p) := by
  intro s₀ u s hs hle
  rw [ends_withHead]
  apply (h s₀ u { s with inHead } (hs.of_entries_eq rfl) hle).mono
  · rintro a t ⟨ht, hle⟩
    exact ⟨ht.of_entries_eq rfl, hle⟩
  · exact fun _ _ hle => hle

theorem builds_nested {p : Parse α} (h : Builds g m p) : Builds g m (nested p) :=
  builds_withHead h

/-- After a failure the entries made on the way are left out. -/
theorem builds_attempt_bind {p : Parse β} {f : Except Problem β → Parse α} (hp : Builds g n p)
    (hok : ∀ b, Builds (n b) m (f (.ok b)))
    (herror : ∀ e, Builds g.torn m (f (.error e))) : Builds g m (attempt p >>= f) := by
  intro s₀ u s hs hle
  apply ends_attempt_bind (hp s₀ s s hs le_rfl)
  · intro b t ⟨ht, hst⟩
    exact hok b s₀ u t ht (le_trans hle hst)
  · intro e t hst
    exact herror e s₀ u t (hs.torn hst) (le_trans hle hst)

/-- What a turn of a loop comes to stands for what its state or its result stands for. -/
def turnHolding (n : β → Holding) (m : α → Holding) : Turn β α → Holding
  | .again b => n b
  | .done a => m a

theorem builds_iterate {turn : β → Parse (Turn β α)}
    (hturn : ∀ b, Builds (n b) (turnHolding n m) (turn b)) (b : β) :
    Builds (n b) m (iterate turn b) := by
  have hfor : ∀ turns b, Builds (n b) m (iterateFor turn turns b) := by
    intro turns
    induction turns with
    | zero => exact fun _ => builds_fail
    | succ turns ih =>
        intro b
        unfold iterateFor
        apply builds_bind (hturn b)
        intro r
        cases r with
        | again b => exact ih b
        | done a => exact builds_pure rfl
  exact builds_get_bind fun _ => hfor _ b

/-- Lists of items stand for what their items stand for. -/
theorem builds_commaSeparated {close : TokenKind} {item : Parse α} {ms : List α → Holding}
    (hitem : Builds 0 m item) (hnil : ms [] = 0)
    (happend : ∀ items a, ms (items ++ [a]) = ms items + m a) :
    Builds 0 ms (commaSeparated close item) := by
  unfold commaSeparated
  rw [← hnil]
  apply builds_iterate
  intro items
  apply builds_get_bind
  intro t
  split
  · exact builds_pure rfl
  · apply builds_then hitem
    intro a
    rw [← happend]
    exact builds_eat_if (builds_pure rfl) (builds_pure rfl)

end Parse

/-! ## Recovery -/

open Parse

variable {g : Holding}

theorem idle_synchronize : Idle synchronize := by
  unfold synchronize
  apply builds_iterate (n := fun _ => 0)
  intro _
  unfold synchronizeStep
  apply builds_get_bind
  intro t
  split
  · exact builds_pure rfl
  · apply builds_advance_bind
    intro token
    split
    · exact builds_pure rfl
    · exact builds_pure rfl

/-- The placeholder stands for the problem that is reported for it, and makes up for everything that
was left out before it. -/
theorem builds_recover {problem : Problem} :
    Builds g.torn (fun stmt => g + heldStmt stmt) (recover problem) := by
  intro s₀ u s hs hle
  unfold recover
  rw [ends_here_bind, ends_modify_bind]
  have hreport : Accounts (.damage problem.diagnostic) s (s.report problem) :=
    ⟨le_of_eq (s.entries_report problem).symm, fun hwhole => nomatch hwhole⟩
  have haccounts : Accounts (g + .damage problem.diagnostic) s₀ (s.report problem) := by
    rw [← Holding.torn_add_damage]
    exact hs.trans hreport
  refine builds_idle_bind idle_synchronize ?_ s₀ u _ haccounts (le_trans hle hreport.le)
  intro _
  exact builds_pure (by simp [heldStmt, Walk.stmt, partHolding, Problem.diagnostic])

theorem builds_recovering {statement : Parse Stmt}
    (h : Builds 0 (fun stmt => heldStmt stmt) statement) :
    Builds 0 (fun stmt => heldStmt stmt) (recovering statement) := by
  unfold recovering
  apply builds_attempt_bind h
  · intro stmt
    exact builds_pure rfl
  · intro problem
    exact builds_recover.mono fun _ => zero_add _

/-- Counting a turn gives out nothing but, perhaps, the limit. -/
theorem idle_ensureProgress {before : Nat} : Idle (ensureProgress before) := by
  intro s₀ u s hs hle
  unfold ensureProgress
  rw [ends_modify_bind, ends_get_bind]
  split
  · have hreport := s.entries_report (.ofSpan .iterationLimit s.here)
    have hlimited : (s.report (.ofSpan .iterationLimit s.here)).Limited :=
      ⟨_, by rw [hreport]; exact Multiset.mem_add.2 (.inl (Multiset.mem_singleton_self _)), rfl⟩
    have hmore : s.entries ≤ (s.report (.ofSpan .iterationLimit s.here)).entries :=
      hreport ▸ Multiset.le_add_left _ _
    exact ⟨⟨le_trans hs.entered hmore, fun _ => .inl hlimited⟩, le_trans hle hmore⟩
  · split
    · have hsame : (State.next { s with
          iterations := s.iterations + 1, turns := before :: s.turns }).entries = s.entries :=
        entries_next _
      exact ⟨hs.of_entries_eq hsame, hle.trans_eq hsame.symm⟩
    · exact ⟨hs.of_entries_eq rfl, hle⟩

end ComponentLang.Grammar
