import ComponentLang.Proofs.Typing.Local.Statement
import ComponentLang.Proofs.Typing.Turns

/-!
# Returns belong to the innermost function

While the body of a function is checked, the types of its return statements gather in a frame of
its own. The frame is handed from turn to turn: `Hands turns first last` says that the frames are
`first` when the first of the turns comes, and `last` when all have been had. A function in between
has put its frame on top and has taken it away again, so what gathers in a frame comes from the
return statements of its function, in the order in which they are written.
-/
namespace ComponentLang

open Checking Check Grammar

/-! ## Return statements -/

/-- A return statement: its place, and what is returned. -/
structure ReturnSite where
  span : Span
  value : Option Expr

def ReturnSite.stmt (site : ReturnSite) : Stmt := .returnStmt site.span site.value

namespace TreePart

def isFunction : TreePart → Bool
  | .function .. => true
  | _ => false

def returnSite? : TreePart → Option ReturnSite
  | .stmt (.returnStmt span value) => some ⟨span, value⟩
  | _ => none

/-- The return statements in a part, in order, but for those in functions in it. -/
def returnSites (part : TreePart) : List ReturnSite :=
  (part.walkBy fun inner => !inner.isFunction).filterMap returnSite?

end TreePart

/-- The return statements of a function: those in its body, at any depth, but for those in functions
in it. -/
def Function.returnSites (f : Function) : List ReturnSite := (TreePart.block f.body).returnSites

namespace TreePart

variable {part next : TreePart} {c d : Checking}

theorem returnSites_eq (h : part.isFunction = false) :
    part.returnSites = part.returnSite?.toList ++ part.children.flatMap returnSites := by
  unfold returnSites
  rw [walkBy_eq, Walk.enter, if_pos (by simp [h]), List.filterMap_cons, List.filterMap_flatMap]
  cases part.returnSite? <;> rfl

theorem returnSites_function (f : Function) : (function f).returnSites = [] := by
  unfold returnSites
  rw [walkBy_eq]
  rfl

theorem returnSite?_eq_some {site : ReturnSite} :
    part.returnSite? = some site ↔ part = .stmt site.stmt := by
  obtain ⟨span, value⟩ := site
  constructor
  · intro h
    unfold returnSite? at h
    split at h
    · cases h
      rfl
    · cases h
  · rintro rfl
    rfl

/-- The return statements in a part are those that stand in it with no function around them. -/
theorem mem_returnSites {site : ReturnSite} : site ∈ part.returnSites ↔
    Relation.ReflTransGen (fun inner outer => inner ∈ outer.children ∧ outer.isFunction = false)
      (.stmt site.stmt) part := by
  induction hlength : part.walk.length using Nat.strongRecOn generalizing part with
  | _ length ih =>
      rw [Relation.ReflTransGen.cases_tail_iff, ← returnSite?_eq_some]
      cases hfunction : part.isFunction with
      | true =>
          cases part with
          | function f =>
              rw [returnSites_function]
              simp [returnSite?]
          | _ => cases hfunction
      | false =>
          rw [returnSites_eq hfunction, List.mem_append, Option.mem_toList, List.mem_flatMap]
          refine or_congr Iff.rfl (exists_congr fun child => ?_)
          constructor
          · rintro ⟨hchild, hsite⟩
            have hless := hlength ▸ length_walk_lt hchild
            exact ⟨(ih _ hless rfl).1 hsite, hchild, rfl⟩
          · rintro ⟨hsite, hchild, -⟩
            have hless := hlength ▸ length_walk_lt hchild
            exact ⟨hchild, (ih _ hless rfl).2 hsite⟩

end TreePart

/-! ## Frames from turn to turn -/

namespace Check

/-! ### Checks that note no return -/

/-- Between the turns, and before and after them, no frame changes. -/
inductive Hands : List (TreePart × Checking) → List ReturnFrame → List ReturnFrame → Prop where
  | nil (frames : List ReturnFrame) : Hands [] frames frames
  | cons {turn : TreePart × Checking} {rest : List (TreePart × Checking)}
      {first last : List ReturnFrame} (hturn : turn.2.returns = first)
      (hrest : Hands rest (turn.1.check.run turn.2).2.returns last) :
      Hands (turn :: rest) first last

variable {turns others : List (TreePart × Checking)} {first middle last : List ReturnFrame}
variable {c d : Checking} {part : TreePart}

theorem Hands.append (h : Hands turns first middle) (h' : Hands others middle last) :
    Hands (turns ++ others) first last := by
  induction h with
  | nil => exact h'
  | cons hturn _ ih => exact .cons hturn (ih h')

end Check

/-! ## What gathers in a frame -/

namespace TreePart

variable {part next : TreePart} {c d : Checking}

end TreePart

/-- The type of what is returned. -/
def ReturnSite.type (site : ReturnSite) : Check Ty :=
  match site.value with
  | none => pure .null
  | some e => expr e

/-- Where a return that does not fit is reported. -/
def ReturnSite.place (site : ReturnSite) : Span :=
  match site.value with
  | none => site.span
  | some e => e.span

theorem ReturnSite.leavesReturns (site : ReturnSite) : LeavesReturns site.type := by
  unfold ReturnSite.type
  split
  · exact fixes_pure _
  · exact fixes_expr _

theorem Check.stmt_returnSite (site : ReturnSite) : Check.stmt site.stmt = (do
    let type ← site.type
    noteReturn type site.place) := by
  obtain ⟨span, value⟩ := site
  cases value <;> (rw [ReturnSite.stmt, Check.stmt]; rfl)

/-- The check of a part leads to a return statement. There the innermost function is declared to
return `declared`, and the value that is returned has the type `type`. -/
def ReturnsAt (turn : TreePart × Checking) (declared : Option Ty) (site : ReturnSite) (type : Ty) :
    Prop :=
  ∃ d frame outer, LeadsTo turn (.stmt site.stmt, d) ∧ d.returns = frame :: outer ∧
    frame.declared = declared ∧ (site.type.run d).1 = type

/-- What a turn does to the frames: the innermost gains the types of the return statements of the
part, in order. -/
def NotesReturns (turn : TreePart × Checking) : Prop :=
  ∀ frame outer, turn.2.returns = frame :: outer → ∃ seen,
    (turn.1.check.run turn.2).2.returns = { frame with seen := frame.seen ++ seen } :: outer ∧
      List.Forall₂ (ReturnsAt turn frame.declared) turn.1.returnSites seen

theorem ReturnsAt.before {turn next : TreePart × Checking} {declared : Option Ty}
    {site : ReturnSite} {type : Ty} (h : ReturnsAt next declared site type)
    (hnext : next ∈ turn.1.turns turn.2) : ReturnsAt turn declared site type := by
  obtain ⟨d, frame, outer, hleads, hframe⟩ := h
  exact ⟨d, frame, outer, .head hnext hleads, hframe⟩

namespace Check

variable {turns : List (TreePart × Checking)} {first last outer : List ReturnFrame}
variable {frame : ReturnFrame} {part : TreePart} {c : Checking}

/-- Turn by turn the types gather. -/
theorem Hands.notes (h : Hands turns first last) (hturns : ∀ turn ∈ turns, NotesReturns turn)
    (hfirst : first = frame :: outer) : ∃ seen,
      last = { frame with seen := frame.seen ++ seen } :: outer ∧
      List.Forall₂ (fun site type => ∃ turn ∈ turns, ReturnsAt turn frame.declared site type)
        (turns.flatMap fun turn => turn.1.returnSites) seen := by
  induction h generalizing frame with
  | nil => exact ⟨[], by rw [hfirst, List.append_nil], .nil⟩
  | @cons turn rest first last hturn _ ih =>
      rw [List.forall_mem_cons] at hturns
      obtain ⟨seen, hseen, hsites⟩ := hturns.1 frame outer (hturn.trans hfirst)
      obtain ⟨later, hlater, hrest⟩ := ih hturns.2 hseen
      refine ⟨seen ++ later, by rw [hlater, List.append_assoc], ?_⟩
      rw [List.flatMap_cons]
      refine List.rel_append (hsites.imp fun site type hsite => ?_)
        (hrest.imp fun site type hsite => ?_)
      · exact ⟨turn, List.mem_cons_self, hsite⟩
      · obtain ⟨next, hnext, hsite⟩ := hsite
        exact ⟨next, List.mem_cons_of_mem _ hnext, hsite⟩

end Check

/-! ## Functions -/

namespace Function

/-- The type that a function says it returns, where it is checked from `c`. -/
def declared (f : Function) (c : Checking) : Option Ty :=
  ((resolve? f.returnType).run ((paramTypes f.params).run c).2).1

end Function

namespace Check

variable {part : TreePart} {c : Checking}

end Check

/-! ## Types of functions -/

namespace Check

/-- When `p` is done, what it gives is noted as the type of the expression with the number `id`. -/
def NotesType (id : Nat) (p : Check Ty) : Prop :=
  ∀ c, (p.run c).2.types.get? id = some (p.run c).1

theorem notesType_record (id : Nat) (type : Ty) : NotesType id (do
    record id type
    return type) :=
  fun c => (TypeTable.get?_insert c.types id id type).trans (if_pos rfl)

theorem NotesType.bind {α : Type} {id : Nat} {p : α → Check Ty} (first : Check α)
    (h : ∀ a, NotesType id (p a)) : NotesType id (first >>= p) := by
  intro c
  rw [StateT.run_bind]
  exact h _ _

/-- The type of an expression is noted when it has been checked. -/
theorem notesType_expr (e : Expr) : NotesType e.id (expr e) := by
  cases e <;>
    (rw [Check.expr]
     repeat first | exact notesType_record _ _ | refine .bind _ fun _ => ?_)

theorem mem_judgeReturn {declared : Option Ty} {type : Ty} {span : Span} {c : Checking}
    {x : Diagnostic} :
    x ∈ ((judgeReturn declared type span).run c).2.diagnostics ↔ x ∈ c.diagnostics ∨
      ∃ target, declared = some target ∧
        x = .ofSpan .type (TypeFault.notReturnable type target).message span ∧
        type ≠ .unknown ∧ type.assignable target = false := by
  unfold judgeReturn
  cases declared with
  | none =>
      constructor
      · exact .inl
      · rintro (h | ⟨target, ⟨⟩, -⟩)
        exact h
  | some target =>
      dsimp only
      by_cases hfits : (type = .unknown || type.assignable target) = true
      · rw [if_pos hfits]
        constructor
        · exact .inl
        · rintro (h | ⟨_, ⟨⟩, -, hknown, hassignable⟩)
          · exact h
          · simp [hknown, hassignable] at hfits
      · rw [if_neg hfits]
        simp only [Bool.or_eq_true, decide_eq_true_eq, not_or, Bool.not_eq_true] at hfits
        have hadded := Checking.mem_addDiagnostic (c := c) (y := x)
          (x := .ofSpan .type (TypeFault.notReturnable type target).message span)
        refine hadded.trans (or_congr_right ?_)
        constructor
        · exact fun h => ⟨target, rfl, h, hfits⟩
        · rintro ⟨_, ⟨⟩, h, -⟩
          exact h

/-- Where the innermost function is declared to return `declared`, a return statement reports,
beside what is wrong in its value, exactly that the value does not fit, if it does not. -/
theorem mem_diagnostics_returnSite {site : ReturnSite} {d : Checking} {frame : ReturnFrame}
    {outer : List ReturnFrame} (hd : d.returns = frame :: outer) (x : Diagnostic) :
    x ∈ ((stmt site.stmt).run d).2.diagnostics ↔ x ∈ (site.type.run d).2.diagnostics ∨
      ∃ target, frame.declared = some target ∧
        x = .ofSpan .type (TypeFault.notReturnable (site.type.run d).1 target).message site.place ∧
        (site.type.run d).1 ≠ .unknown ∧ (site.type.run d).1.assignable target = false := by
  rw [stmt_returnSite, StateT.run_bind]
  have hnote := noteReturn_of_cons ((site.leavesReturns d).trans hd) (site.type.run d).1 site.place
  exact (iff_of_eq (congrArg (fun r => x ∈ r.2.diagnostics) hnote)).trans mem_judgeReturn

/-- A return statement notes the types that its value notes. -/
theorem get?_returnSite (site : ReturnSite) (d : Checking) (id : Nat) :
    ((stmt site.stmt).run d).2.types.get? id = (site.type.run d).2.types.get? id := by
  rw [stmt_returnSite, StateT.run_bind]
  exact (leaves_noteReturn _ _ _).get?_of_notMem (Set.notMem_empty id)

end Check

/-- What is found of a return statement that is in a function which is checked from `c`. The type of
the value is the one that is noted for it in the end, and in its turn it is reported exactly if the
function is declared to return what the value, if its type is known, does not fit into. -/
structure Returned (found : CheckResult) (f : Function) (c : Checking) (site : ReturnSite)
    (type : Ty) : Prop where
  value : ∀ e, site.value = some e → found.types.get? e.id = some type
  bare : site.value = none → type = .null
  judged : ∃ d, LeadsTo (.function f, c) (.stmt site.stmt, d) ∧
    (∀ x, x ∈ ((stmt site.stmt).run d).2.diagnostics ↔ x ∈ (site.type.run d).2.diagnostics ∨
      ∃ target, f.declared c = some target ∧
        x = .ofSpan .type (TypeFault.notReturnable type target).message site.place ∧
        type ≠ .unknown ∧ type.assignable target = false) ∧
    ((stmt site.stmt).run d).2.diagnostics ⊆ found.diagnostics

/-- A return statement to which the check of a function comes in the check of a program. -/
theorem ReturnsAt.returned {tokens : List Token} {external : List TypedName} {f : Function}
    {c : Checking} {site : ReturnSite} {type : Ty}
    (hf : LeadsTo (.program (parse tokens).program, .start external) (.function f, c))
    (h : ReturnsAt (.function f, c) (f.declared c) site type) :
    Returned ((parse tokens).program.check external) f c site type := by
  obtain ⟨d, frame, outer, hleads, hframe, hdeclared, htype⟩ := h
  have hall : LeadsTo (.program (parse tokens).program, .start external) (.stmt site.stmt, d) :=
    Relation.ReflTransGen.trans hf hleads
  refine ⟨fun e he => ?_, fun hnone => ?_, d, hleads, fun x => ?_, fun x hx => ?_⟩
  · have hid : e.id ∈ (TreePart.stmt site.stmt).ids := by
      obtain ⟨span, value⟩ := site
      cases he
      rw [TreePart.ids_eq]
      refine List.mem_append_right _ (List.mem_flatMap.2 ⟨.expr e, List.mem_cons_self, ?_⟩)
      rw [TreePart.ids_eq]
      exact List.mem_append_left _ List.mem_cons_self
    have hend := (hall.get? (nodup_visited tokens) hid).trans (get?_returnSite site d e.id)
    rw [← htype]
    rw [ReturnSite.type, he] at hend ⊢
    exact hend.trans (notesType_expr e d)
  · rw [← htype, ReturnSite.type, hnone]
    rfl
  · rw [← hdeclared, ← htype]
    exact mem_diagnostics_returnSite hframe x
  · exact List.mem_reverse.2 (hall.goesOn.reported hx)

end ComponentLang
