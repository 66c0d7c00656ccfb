import ComponentLang.Proofs.Typing.Shifted.Program

/-!
# Compound assignments

A compound assignment to a variable is checked as the plain assignment that it stands for. In the
one the operation is judged by the assignment, at the place of the value; in the other it is an
expression that is judged with its operands. What comes of it is the same, also where the variable
has no known type yet and where the value itself is wrong.
-/
namespace ComponentLang

open Checking

/-- Expressions of one shape are checked alike. -/
theorem Check.shifts_expr_of_shape_eq {e e' : Expr} (h : e.shape = e'.shape) {ν : Nat → Nat}
    (hν : e.visited.map ν = e'.visited) : Shifts ν (expr e) (expr e') :=
  Shifts.of_common ((Remap.renumbers_expr h).holds ν hν ▸ shifts_expr e) (shifts_expr e')

namespace Checking

/-- The state in which the type of the expression with number `id` is noted. -/
def noting (c : Checking) (id : Nat) (type : Ty) : Checking :=
  { c with types := c.types.insert id type }

/-- What is noted for other expressions has no part in how states compare. -/
theorem Shifted.noting_right {ν : Nat → Nat} {old old' : List (Nat × Ty)} {c d : Checking}
    (h : Shifted ν old old' c d) (id : Nat) (type : Ty) :
    Shifted ν c.types.entries (d.noting id type).types.entries c (d.noting id type) :=
  { h with types := ⟨[], rfl, rfl⟩ }

end Checking

namespace Check

/-- The value is kept in the same way, wherever the assignments and their targets stand. -/
theorem shifts_keep (ν : Nat → Nat) (target target' : Node) (x : String) (span span' : Span)
    (types : Ty × Ty) : Shifts ν (keep (.identifier target x) span types)
      (keep (.identifier target' x) span' types) := by
  unfold keep adopt
  exact shifts_ite (shifts_ite (shifts_pure ()) (shifts_update x _))
    (shifts_expectStorable _ _ span span')

/-- Judge an operation at `span`, and store its result in a variable of the type `type`. -/
def storeResult (verdict : Verdict) (target : Node) (x : String) (type : Ty) (span : Span) :
    Check Unit := do
  let stored ← settle verdict span
  keep (.identifier target x) span (type, stored)

/-- The same for an operation that is an expression: its type is noted before it is stored. -/
def noteAndStore (verdict : Verdict) (id : Nat) (target : Node) (x : String) (type : Ty)
    (span : Span) : Check Unit := do
  let stored ← settle verdict span
  record id stored
  keep (.identifier target x) span (type, stored)

section Store

variable (target target' : Node) (x : String) (type : Ty) (span span' : Span)

theorem leaves_storeResult {verdict : Verdict} (h : verdict.Spares) :
    LeavesNothing (storeResult verdict target x type span) :=
  leaves_then (leaves_settle h) fun _ => leaves_keep _ _ _

theorem leaves_noteAndStore {verdict : Verdict} (h : verdict.Spares) (id : Nat) :
    Leaves {id} (noteAndStore verdict id target x type span) :=
  leaves_then (leaves_settle h) fun _ => (leaves_record id _).before fun _ => leaves_keep _ _ _

/-- The note has no part in what is stored and what is reported. -/
theorem shifted_storeResult {ν : Nat → Nat} {old old' : List (Nat × Ty)} {c d : Checking}
    (h : Shifted ν old old' c d) (verdict : Verdict) (id : Nat) :
    ∃ later later', Shifted ν later later'
      ((storeResult verdict target x type span).run c).2
      ((noteAndStore verdict id target' x type span').run d).2 := by
  obtain ⟨hstored, hsettled⟩ := shifts_settle verdict span span' _ _ c d h
  have hnoted := hsettled.noting_right id ((settle verdict span').run d).1
  have hrun : (noteAndStore verdict id target' x type span').run d =
      (keep (.identifier target' x) span' (type, ((settle verdict span).run c).1)).run
        (((settle verdict span').run d).2.noting id ((settle verdict span').run d).1) := by
    rw [← hstored]
    rfl
  rw [hrun]
  exact ⟨_, _, (shifts_keep ν target target' x span span' _ _ _ _ _ hnoted).2⟩

end Store

section Run

variable {c : Checking} {x : String} {type : Ty} (hx : c.scopes.lookup? x = some type)
include hx

/-- The left side is checked first, then the value. -/
theorem stmt_compound_run {op : AssignOp} {binary : BinaryOp} (hop : op.binary? = some binary)
    (e : Expr) (target : Node) (span : Span) :
    (stmt (.assignment span (.identifier target x) op e)).run c = (do
      let value ← expr e
      storeResult (Ty.ofBinary binary type value) target x type e.span : Check Unit).run
        (c.noting target.id type) := by
  rw [Check.stmt]
  unfold assignment assignedType
  rw [StateT.run_bind, assignmentTarget_of_some hx, hop]
  rfl

/-- The variable is looked up again as an operand, and means the same. -/
theorem stmt_expansion_run (binary : BinaryOp) (e : Expr) (node inner target : Node)
    (span : Span) :
    (stmt (.assignment span (.identifier target x) .assign
      (.binary node (.identifier inner x) binary e))).run c = (do
      let value ← expr e
      noteAndStore (Ty.ofBinary binary type value) node.id target x type node.span : Check Unit).run
        ((c.noting target.id type).noting inner.id type) := by
  have hsight : (c.noting target.id type).scopes.lookup? x = some type := hx
  have hinner : (expr (.identifier inner x)).run (c.noting target.id type) =
      (type, (c.noting target.id type).noting inner.id type) := by
    rw [Check.expr, StateT.run_bind, variableType_of_some hsight]
    rfl
  rw [Check.stmt]
  unfold assignment assignedType
  rw [StateT.run_bind, assignmentTarget_of_some hx, Check.expr]
  simp only [bind_assoc]
  change StateT.run (expr (.identifier inner x) >>= _) (c.noting target.id type) = _
  rw [StateT.run_bind, hinner]
  rfl

end Run

end Check

/-- Let a variable be in sight. The assignment `x op= e` and the assignment of `x op e` to `x` leave
the same environment and have the same to report, and `e` and all expressions in it are given the
same types. The second `e` may be numbered otherwise, by `ν`, and stand elsewhere, but the operation
has a number of its own. -/
theorem stmt_compound {c : Checking} {x : String} (hx : (c.scopes.lookup? x).isSome)
    {op : AssignOp} {binary : BinaryOp} (hop : op.binary? = some binary) {e e' : Expr}
    (hshape : e.shape = e'.shape) {ν : Nat → Nat} (hν : e.visited.map ν = e'.visited)
    (hinj : Set.InjOn ν {n | n ∈ e.visited}) {node : Node} (hnode : node.id ∉ e'.visited)
    (inner target target' : Node) (span span' : Span) :
    let after := ((Check.stmt (.assignment span (.identifier target x) op e)).run c).2
    let after' := ((Check.stmt (.assignment span' (.identifier target' x) .assign
      (.binary node (.identifier inner x) binary e'))).run c).2
    after'.scopes = after.scopes ∧ after'.components = after.components ∧
      after'.returns = after.returns ∧ after'.messages = after.messages ∧
      e'.visited.map after'.types.get? = e.visited.map after.types.get? := by
  intro after after'
  obtain ⟨type, htype⟩ := Option.isSome_iff_exists.1 hx
  have hafter := congrArg Prod.snd (Check.stmt_compound_run htype hop e target span)
  have hafter' :=
    congrArg Prod.snd (Check.stmt_expansion_run htype binary e' node inner target' span')
  -- The value is checked from states that differ in what is noted of the variable.
  have hbefore : Shifted ν (c.noting target.id type).types.entries
      ((c.noting target'.id type).noting inner.id type).types.entries (c.noting target.id type)
      ((c.noting target'.id type).noting inner.id type) :=
    ⟨rfl, rfl, rfl, rfl, rfl, ⟨[], rfl, rfl⟩, rfl⟩
  have hgrows := Check.leaves_expr e (c.noting target.id type)
  obtain ⟨hvalue, hvalued⟩ := Check.shifts_expr_of_shape_eq hshape hν _ _ _ _ hbefore
  have htypes := hvalued.map_get? hgrows hν hinj
  rw [StateT.run_bind] at hafter hafter'
  rcases hrun : (Check.expr e).run (c.noting target.id type) with ⟨value, valued⟩
  rcases hrun' : (Check.expr e').run ((c.noting target'.id type).noting inner.id type) with
    ⟨value', valued'⟩
  rw [hrun, hrun'] at hvalue hvalued htypes
  rw [hrun] at hafter
  rw [hrun'] at hafter'
  cases hvalue
  have hspares : (Ty.ofBinary binary type value).Spares := Ty.spares_ofBinary
  have hkept : e.visited.map after.types.get? = e.visited.map valued.types.get? := by
    refine List.map_congr_left fun n _ => ?_
    have hleaves := Check.leaves_storeResult target x type e.span hspares valued
    exact (congrArg (fun c : Checking => c.types.get? n) hafter).trans
      (hleaves.get?_of_notMem (Set.notMem_empty n))
  have hkept' : e'.visited.map after'.types.get? = e'.visited.map valued'.types.get? := by
    refine List.map_congr_left fun n hn => ?_
    have hleaves := Check.leaves_noteAndStore target' x type node.span hspares node.id valued'
    exact (congrArg (fun c : Checking => c.types.get? n) hafter').trans
      (hleaves.get?_of_notMem fun heq => hnode (heq ▸ hn))
  obtain ⟨later, later', hstored⟩ := Check.shifted_storeResult target target' x type e.span node.span
    hvalued (Ty.ofBinary binary type value) node.id
  have hsame : Shifted ν later later' after after' := by
    rw [show after = _ from hafter, show after' = _ from hafter']
    exact hstored
  exact ⟨hsame.scopes, hsame.components, hsame.returns, hsame.messages,
    hkept'.trans (htypes.trans hkept.symm)⟩

/-- A state in which a counter is in sight. -/
def counting : Checking :=
  { Checking.start [] with scopes := Scopes.initial.define "count" .int }

/-- A text at a place, as an expression with number `id`. -/
def oneText (id : Nat) (span : Span) : Expr := .literal ⟨id, span⟩ (.string "a")

/-- A text added to a counter gives a text, which cannot be stored in it: `count += "a"` and
`count = count + "a"` are reported for this, each at the place of what it stores. -/
theorem stmt_compound_counting :
    let after := ((Check.stmt (.assignment ⟨0, 12, 1, 1⟩ (.identifier ⟨0, ⟨0, 5, 1, 1⟩⟩ "count") .add
      (oneText 1 ⟨9, 12, 1, 10⟩))).run counting).2
    let after' := ((Check.stmt (.assignment ⟨0, 19, 1, 1⟩ (.identifier ⟨0, ⟨0, 5, 1, 1⟩⟩ "count")
      .assign (.binary ⟨3, ⟨8, 19, 1, 9⟩⟩ (.identifier ⟨1, ⟨8, 13, 1, 9⟩⟩ "count") .add
        (oneText 2 ⟨16, 19, 1, 17⟩)))).run counting).2
    (after'.scopes = after.scopes ∧ after'.components = after.components ∧
      after'.returns = after.returns ∧ after'.messages = after.messages ∧
      [after'.types.get? 2] = [after.types.get? 1]) ∧
      after.diagnostics =
        [.ofSpan .type (TypeFault.notAssignable .string .int).message ⟨9, 12, 1, 10⟩] ∧
      after'.diagnostics =
        [.ofSpan .type (TypeFault.notAssignable .string .int).message ⟨8, 19, 1, 9⟩] :=
  ⟨@stmt_compound counting "count" rfl .add .add rfl (oneText 1 ⟨9, 12, 1, 10⟩)
      (oneText 2 ⟨16, 19, 1, 17⟩) rfl (· + 1) rfl (add_left_injective 1).injOn _ (by decide) _ _ _
      _ _,
    by decide, by decide⟩

end ComponentLang
