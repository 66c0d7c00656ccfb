import ComponentLang.Proofs.Grammar.Ledger

/-!
# The order of numbers

A node is made when everything in it has been read, and gets the next number then. So on the way
down a tree the numbers decrease: `part.Below bound` says that they do so in a part of a tree, from
less than `bound` on.

`Ranks g m p` says that `p` keeps to this. If the parts `g` at hand are below the next number when
`p` begins, the parts `m a` of its value `a` are below the next number when it ends. What makes no
nodes needs no rules of its own: in the account of the ledger numbers are only added.
-/
namespace ComponentLang

namespace TreePart

/-- The numbers of the expressions in a part are less than `bound`, and each is less than those of
the expressions around it. -/
inductive Below : Nat → TreePart → Prop
  | intro {bound : Nat} {part : TreePart} (number : ∀ id ∈ part.number?, id < bound)
      (children : ∀ child ∈ part.children, Below (part.number?.getD bound) child) :
      Below bound part

/-- All of some parts are below a bound. -/
def AllBelow (bound : Nat) (parts : List TreePart) : Prop := ∀ part ∈ parts, part.Below bound

variable {bound higher : Nat} {part inner : TreePart} {parts others : List TreePart}

theorem below_expr {e : Expr} :
    (expr e).Below bound ↔ e.id < bound ∧ AllBelow e.id e.children := by
  constructor
  · rintro ⟨hnumber, hchildren⟩
    exact ⟨hnumber _ rfl, hchildren⟩
  · rintro ⟨hnumber, hchildren⟩
    exact ⟨fun id hid => by rwa [← Option.some.inj hid], hchildren⟩

/-- A part that is no expression has no number. -/
theorem below_of_number? (h : part.number? = none) :
    part.Below bound ↔ AllBelow bound part.children := by
  constructor
  · rintro ⟨-, hchildren⟩
    rw [h] at hchildren
    exact hchildren
  · intro hchildren
    refine ⟨fun id hid => ?_, ?_⟩
    · rw [h] at hid
      cases hid
    · rw [h]
      exact hchildren

theorem Below.mono (h : part.Below bound) (hle : bound ≤ higher) : part.Below higher := by
  induction h generalizing higher with
  | @intro bound part hnumber _ ih =>
      refine ⟨fun id hid => (hnumber id hid).trans_le hle, fun child hchild => ih child hchild ?_⟩
      cases part.number? with
      | none => exact hle
      | some id => exact le_rfl

/-- What stands in a part is below what the part is below. -/
theorem Below.within (h : part.Below bound) (hwithin : inner.Within part) : inner.Below bound := by
  induction hwithin with
  | refl => exact h
  | @tail part inner _ hchild ih =>
      obtain ⟨hnumber, hchildren⟩ := ih
      refine (hchildren inner hchild).mono ?_
      cases hpart : part.number? with
      | none => exact le_rfl
      | some id => exact (hnumber id hpart).le

/-! ## Lists of parts -/

@[simp] theorem allBelow_nil : AllBelow bound [] := nofun

@[simp] theorem allBelow_cons :
    AllBelow bound (part :: parts) ↔ part.Below bound ∧ AllBelow bound parts :=
  List.forall_mem_cons

@[simp] theorem allBelow_append :
    AllBelow bound (parts ++ others) ↔ AllBelow bound parts ∧ AllBelow bound others :=
  List.forall_mem_append

theorem AllBelow.mono (h : AllBelow bound parts) (hle : bound ≤ higher) : AllBelow higher parts :=
  fun part hpart => (h part hpart).mono hle

/-! ## The forms of parts -/

@[simp] theorem below_stmt {s : Stmt} : (stmt s).Below bound ↔ AllBelow bound s.children :=
  below_of_number? rfl

@[simp] theorem below_block {b : Block} :
    (block b).Below bound ↔ AllBelow bound (b.statements.map stmt) :=
  below_of_number? rfl

@[simp] theorem below_function {f : Function} :
    (function f).Below bound ↔ (block f.body).Below bound :=
  (below_of_number? rfl).trans List.forall_mem_singleton

@[simp] theorem below_component {c : Component} :
    (component c).Below bound ↔
      AllBelow bound (c.statements.map stmt) ∧ AllBelow bound (c.body.map markup) :=
  (below_of_number? rfl).trans allBelow_append

@[simp] theorem below_exportDecl {item : Export} :
    (exportDecl item).Below bound ↔ item.item.part.Below bound :=
  (below_of_number? rfl).trans List.forall_mem_singleton

@[simp] theorem below_tag {t : Tag} :
    (tag t).Below bound ↔
      AllBelow bound (t.attributes.map .attribute) ∧ AllBelow bound (t.children.map markup) :=
  (below_of_number? rfl).trans allBelow_append

@[simp] theorem below_attribute {item : Attribute} :
    (TreePart.attribute item).Below bound ↔ AllBelow bound (item.value.toList.map expr) :=
  below_of_number? rfl

@[simp] theorem below_markup {m : Markup} : (markup m).Below bound ↔ AllBelow bound m.children :=
  below_of_number? rfl

@[simp] theorem below_identifier {node : Node} {name : String} :
    (identifier node name).Below bound :=
  (below_of_number? rfl).2 allBelow_nil

@[simp] theorem below_valueBinding {node : Node} {name : String} :
    (valueBinding node name).Below bound :=
  (below_of_number? rfl).2 allBelow_nil

@[simp] theorem below_text {content : String} {span : Span} : (text content span).Below bound :=
  (below_of_number? rfl).2 allBelow_nil

@[simp] theorem below_importDecl {item : Import} : (importDecl item).Below bound :=
  (below_of_number? rfl).2 allBelow_nil

end TreePart

namespace Grammar

open TreePart State

/-- Numbers are only added. -/
theorem State.nextId_le {s t : State} (h : s.entries ≤ t.entries) : s.nextId ≤ t.nextId := by
  by_contra hless
  have hmem := Multiset.mem_of_le h (number_mem_entries.2 (not_le.1 hless))
  exact lt_irrefl _ (number_mem_entries.1 hmem)

namespace Parse

variable {α β : Type} {g : List TreePart} {m : α → List TreePart} {n : β → List TreePart}

/-- If the parts `g` are below the next number when `p` begins, then the parts `m a` are when it
ends with `a`. The next number is not less than it was in any case. -/
def Ranks (g : List TreePart) (m : α → List TreePart) (p : Parse α) : Prop :=
  ∀ s : State, AllBelow s.nextId g →
    Ends (fun a t => AllBelow t.nextId (m a) ∧ s.nextId ≤ t.nextId)
      (fun _ t => s.nextId ≤ t.nextId) p s

theorem ranks_pure {a : α} (h : ∀ bound, AllBelow bound g → AllBelow bound (m a)) :
    Ranks g m (pure a) :=
  fun s hs => ⟨h s.nextId hs, le_rfl⟩

theorem ranks_throw {e : Problem} : Ranks g m (throw e : Parse α) := fun _ _ => le_rfl

/-- A reader that is chosen by looking at the state ranks as the chosen one does. -/
theorem ranks_of_eq {p : Parse α} {choose : State → Parse α} (h : ∀ s, Ranks g m (choose s))
    (heq : ∀ s, p s = choose s s) : Ranks g m p := by
  intro s hs
  have hrun : p.run s = (choose s).run s := heq s
  have hends := h s s hs
  unfold Ends at *
  rw [hrun]
  exact hends

theorem ranks_bind {p : Parse β} {f : β → Parse α} (hp : Ranks g n p)
    (hf : ∀ b, Ranks (n b) m (f b)) : Ranks g m (p >>= f) := by
  intro s hs
  rw [ends_bind]
  refine (hp s hs).mono (fun b t hb => ?_) fun _ _ hle => hle
  exact (hf b t hb.1).mono (fun a u ha => ⟨ha.1, hb.2.trans ha.2⟩) fun _ u hle => hb.2.trans hle

/-- What is at hand stays below the next number while something else is read. -/
theorem Ranks.frame {p : Parse α} (hp : Ranks [] m p) : Ranks g (fun a => g ++ m a) p := by
  intro s hs
  refine (hp s allBelow_nil).mono (fun a t ha => ?_) fun _ _ hle => hle
  exact ⟨allBelow_append.2 ⟨hs.mono ha.2, ha.1⟩, ha.2⟩

theorem ranks_then {p : Parse β} {f : β → Parse α} (hp : Ranks [] n p)
    (hf : ∀ b, Ranks (g ++ n b) m (f b)) : Ranks g m (p >>= f) :=
  ranks_bind hp.frame hf

theorem ranks_map {p : Parse β} {f : β → α} (hp : Ranks g n p)
    (h : ∀ b bound, AllBelow bound (n b) → AllBelow bound (m (f b))) : Ranks g m (f <$> p) := by
  rw [map_eq_pure_bind]
  exact ranks_bind hp fun b => ranks_pure (h b)

theorem ranks_some {p : Parse α} {part : α → TreePart} (hp : Ranks [] (fun a => [part a]) p) :
    Ranks [] (fun a => a.toList.map part) (some <$> p) :=
  ranks_map hp fun _ _ h => h

theorem ranks_none {part : α → TreePart} :
    Ranks [] (fun a => a.toList.map part) (pure none : Parse (Option α)) :=
  ranks_pure fun _ h => h

/-- What keeps no nodes is known from the ledger. -/
theorem ranks_idle_bind {p : Parse β} {f : β → Parse α} {held : β → Holding}
    (hp : Builds 0 held p) (hf : ∀ b, Ranks g m (f b)) : Ranks g m (p >>= f) := by
  intro s hs
  rw [ends_bind]
  refine (hp s s s (accounts_refl s) le_rfl).mono (fun b t hb => ?_) fun _ _ hle => nextId_le hle
  have hle : s.nextId ≤ t.nextId := nextId_le hb.2
  exact (hf b t (hs.mono hle)).mono (fun a u ha => ⟨ha.1, hle.trans ha.2⟩)
    fun _ u hless => hle.trans hless

/-! ### Looking at the state -/

theorem ranks_get_bind {f : State → Parse α} (h : ∀ t, Ranks g m (f t)) : Ranks g m (get >>= f) :=
  fun s => h s s

theorem ranks_peek_bind {f : Token → Parse α} (h : ∀ t, Ranks g m (f t)) :
    Ranks g m (peek >>= f) :=
  fun s => h s.peek s

theorem ranks_kind_bind {f : TokenKind → Parse α} (h : ∀ k, Ranks g m (f k)) :
    Ranks g m (kind >>= f) :=
  fun s => h s.kind s

theorem ranks_here_bind {f : Span → Parse α} (h : ∀ span, Ranks g m (f span)) :
    Ranks g m (here >>= f) :=
  fun s => h s.here s

theorem ranks_spanFrom_bind {start : Span} {f : Span → Parse α} (h : ∀ span, Ranks g m (f span)) :
    Ranks g m (spanFrom start >>= f) :=
  fun s => h (s.spanFrom start) s

theorem ranks_fail {cause : Cause} : Ranks g m (fail cause : Parse α) :=
  ranks_get_bind fun _ => ranks_throw

theorem ranks_unexpected {expected : Expected} : Ranks g m (unexpected expected : Parse α) :=
  ranks_get_bind fun _ => ranks_fail

/-! ### Taking tokens and numbering nodes -/

theorem idle_advance : Idle advance :=
  fun _ _ s hs hle => ⟨hs.of_entries_eq s.entries_next, s.entries_next ▸ hle⟩

theorem idle_eat {kind : TokenKind} : Idle (eat kind) := by
  have h : Idle (eat kind >>= fun taken => (pure taken : Parse Bool)) :=
    builds_eat_bind fun _ => builds_pure rfl
  rwa [bind_pure] at h

theorem ranks_advance_bind {f : Token → Parse α} (h : ∀ t, Ranks g m (f t)) :
    Ranks g m (advance >>= f) :=
  ranks_idle_bind idle_advance h

theorem ranks_eat_bind {kind : TokenKind} {f : Bool → Parse α} (h : ∀ b, Ranks g m (f b)) :
    Ranks g m (eat kind >>= f) :=
  ranks_idle_bind idle_eat h

theorem ranks_eat_if {kind : TokenKind} {p q : Parse α} (hp : Ranks g m p) (hq : Ranks g m q) :
    Ranks g m (eat kind >>= fun taken => if taken = true then p else q) := by
  apply ranks_eat_bind
  intro taken
  split
  · exact hp
  · exact hq

theorem ranks_expect_bind {kind : TokenKind} {expected : Expected} {f : Token → Parse α}
    (h : ∀ t, Ranks g m (f t)) : Ranks g m (expect kind expected >>= f) :=
  ranks_idle_bind idle_expect h

theorem ranks_expectIdentifier_bind {expected : Expected} {f : String → Parse α}
    (h : ∀ name, Ranks g m (f name)) : Ranks g m (expectIdentifier expected >>= f) := by
  unfold expectIdentifier
  rw [bind_assoc]
  exact ranks_expect_bind fun t => h t.lexeme

/-- A node is made from parts at hand, so it is below the next number as they were below its own. -/
theorem ranks_node_bind {span : Span} {f : Node → Parse α} {e : Node → Expr}
    (hnode : ∀ node, (e node).node = node)
    (hchildren : ∀ node, AllBelow node.id g → AllBelow node.id (e node).children)
    (h : ∀ node, Ranks (g ++ [.expr (e node)]) m (f node)) : Ranks g m (node span >>= f) := by
  intro s hs
  have hid : (e ⟨s.nextId, span⟩).id = s.nextId := congrArg Node.id (hnode ⟨s.nextId, span⟩)
  have hbelow : (TreePart.expr (e ⟨s.nextId, span⟩)).Below (s.nextId + 1) := by
    rw [below_expr, hid]
    exact ⟨Nat.lt_succ_self _, hchildren ⟨s.nextId, span⟩ hs⟩
  have hall : AllBelow (s.nextId + 1) (g ++ [.expr (e ⟨s.nextId, span⟩)]) :=
    allBelow_append.2 ⟨hs.mono (Nat.le_succ _), List.forall_mem_singleton.2 hbelow⟩
  exact (h ⟨s.nextId, span⟩ { s with nextId := s.nextId + 1 } hall).mono
    (fun _ _ ha => ⟨ha.1, (Nat.le_succ _).trans ha.2⟩) fun _ _ hle => (Nat.le_succ _).trans hle

/-- The node that is made is the value. -/
theorem ranks_node {span : Span} {finish : Node → α} {e : Node → Expr}
    (hm : ∀ node, m (finish node) = [.expr (e node)]) (hnode : ∀ node, (e node).node = node)
    (hchildren : ∀ node, AllBelow node.id g → AllBelow node.id (e node).children) :
    Ranks g m (do return finish (← node span)) := by
  refine ranks_node_bind hnode hchildren fun node => ranks_pure fun bound h => ?_
  rw [hm]
  exact (allBelow_append.1 h).2

/-! ### Readers made from readers -/

/-- One of two readers, and the same after either. -/
theorem ranks_ite_bind {c : Prop} [Decidable c] {p q : Parse β} {f : β → Parse α}
    (hp : Ranks [] n p) (hq : Ranks [] n q) (hf : ∀ b, Ranks (g ++ n b) m (f b)) :
    Ranks g m (if c then p >>= f else q >>= f) := by
  split
  · exact ranks_then hp hf
  · exact ranks_then hq hf

theorem ranks_withHead {inHead : Bool} {p : Parse α} (h : Ranks g m p) :
    Ranks g m (withHead inHead p) := by
  intro s hs
  rw [ends_withHead]
  exact h { s with inHead } hs

theorem ranks_nested {p : Parse α} (h : Ranks g m p) : Ranks g m (nested p) :=
  ranks_withHead h

/-- After a failure what was at hand before is still at hand. -/
theorem ranks_attempt_bind {p : Parse β} {f : Except Problem β → Parse α} (hp : Ranks g n p)
    (hok : ∀ b, Ranks (n b) m (f (.ok b))) (herror : ∀ e, Ranks g m (f (.error e))) :
    Ranks g m (attempt p >>= f) := by
  intro s hs
  apply ends_attempt_bind (hp s hs)
  · intro b t hb
    exact (hok b t hb.1).mono (fun _ _ ha => ⟨ha.1, hb.2.trans ha.2⟩) fun _ _ hle => hb.2.trans hle
  · intro e t hle
    exact (herror e t (hs.mono hle)).mono (fun _ _ ha => ⟨ha.1, hle.trans ha.2⟩)
      fun _ _ hmore => hle.trans hmore

/-- The parts of what a turn of a loop comes to. -/
def turnParts (n : β → List TreePart) (m : α → List TreePart) : Turn β α → List TreePart
  | .again b => n b
  | .done a => m a

theorem ranks_iterate {turn : β → Parse (Turn β α)}
    (hturn : ∀ b, Ranks (n b) (turnParts n m) (turn b)) (b : β) :
    Ranks (n b) m (iterate turn b) := by
  have hfor : ∀ turns b, Ranks (n b) m (iterateFor turn turns b) := by
    intro turns
    induction turns with
    | zero => exact fun _ => ranks_fail
    | succ turns ih =>
        intro b
        unfold iterateFor
        apply ranks_bind (hturn b)
        intro r
        cases r with
        | again b => exact ih b
        | done a => exact ranks_pure fun _ h => h
  exact ranks_get_bind fun _ => hfor _ b

theorem ranks_commaSeparated {close : TokenKind} {item : Parse α} (hitem : Ranks [] m item) :
    Ranks [] (fun items => items.flatMap m) (commaSeparated close item) := by
  unfold commaSeparated
  refine ranks_iterate (n := fun items => items.flatMap m) (fun items => ?_) []
  apply ranks_get_bind
  intro t
  split
  · exact ranks_pure fun _ h => h
  · apply ranks_then hitem
    intro a
    have hadd : items.flatMap m ++ m a = (items ++ [a]).flatMap m := by simp
    rw [hadd]
    exact ranks_eat_if (ranks_pure fun _ h => h) (ranks_pure fun _ h => h)

end Parse

/-! ## Recovery -/

open Parse

variable {g : List TreePart}

/-- The placeholder has nothing in it. -/
theorem ranks_recover {problem : Problem} :
    Ranks [] (fun stmt => [.stmt stmt]) (recover problem) := by
  intro s _
  unfold recover
  rw [ends_here_bind, ends_modify_bind]
  refine ranks_idle_bind idle_synchronize (fun _ => ?_) (s.report problem) allBelow_nil
  exact ranks_pure fun _ _ => by simp [Stmt.children]

theorem ranks_recovering {statement : Parse Stmt}
    (h : Ranks [] (fun stmt => [.stmt stmt]) statement) :
    Ranks [] (fun stmt => [.stmt stmt]) (recovering statement) := by
  unfold recovering
  apply ranks_attempt_bind h
  · exact fun stmt => ranks_pure fun _ h => h
  · exact fun problem => ranks_recover

end Grammar

end ComponentLang
