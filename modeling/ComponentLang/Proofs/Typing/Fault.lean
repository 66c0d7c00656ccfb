import ComponentLang.Typing.Verdict
import Mathlib.Tactic.SplitIfs

/-!
# What faults are about

An operation on a value that is wrong already is no further fault: no operation finds a fault in a
value of the type `unknown`. This is so for the type itself only, not for a type that has it inside.
-/
namespace ComponentLang

/-- The types of the values that a fault is about. -/
def TypeFault.values : TypeFault → List Ty
  | .undefinedVariable _ | .unknownType _ | .unknownComponent _ | .argumentCount .. => []
  | .noArrayProperty _ | .noStringProperty _ => []
  | .notAssignable value _ | .notReturnable value _ => [value]
  | .notNumeric _ operand => [operand]
  | .notComparable left right | .notOperable _ left right => [left, right]
  | .notCallable callee => [callee]
  | .argumentType _ _ found => [found]
  | .noField _ object | .notAnObject _ object | .notIndexable object => [object]
  | .indexNotNumeric index => [index]

/-- No value that the fault is about is wrong already. -/
def TypeFault.Spares (fault : TypeFault) : Prop := ∀ t ∈ fault.values, t ≠ .unknown

def Verdict.Spares (verdict : Verdict) : Prop := ∀ fault, verdict.fault = some fault → fault.Spares

namespace Ty

variable {op : BinaryOp} {left right : Ty}

theorem spares_ok (type : Ty) : (Verdict.ok type).Spares := fun _ h => nomatch h

theorem spares_mk {type : Ty} {fault : TypeFault} (h : fault.Spares) :
    Verdict.Spares ⟨type, some fault⟩ := by
  intro other hother
  cases hother
  exact h

theorem spares_fail {fault : TypeFault} (h : fault.Spares) : (Verdict.fail fault).Spares :=
  spares_mk h

theorem ne_unknown_of_not_number {t : Ty} (h : ¬ t.passesAsNumber = true) : t ≠ .unknown := by
  rintro rfl
  exact h rfl

theorem spares_ofUnary (op : UnaryOp) (operand : Ty) : (ofUnary op operand).Spares := by
  unfold ofUnary
  split
  · exact spares_ok _
  all_goals
    split
    · exact spares_ok _
    next hnumber =>
      exact spares_fail (by simpa [TypeFault.Spares, TypeFault.values] using
        ne_unknown_of_not_number hnumber)

theorem spares_ofComparison : (ofComparison left right).Spares := by
  unfold ofComparison
  split
  · exact spares_ok _
  next hknown =>
    split
    · exact spares_ok _
    · exact spares_mk (by simpa [TypeFault.Spares, TypeFault.values] using hknown)

theorem spares_ofArithmetic : (ofArithmetic op left right).Spares := by
  unfold ofArithmetic
  split
  · exact spares_ok _
  next hknown =>
    split_ifs
    · exact spares_ok _
    · exact spares_ok _
    · exact spares_ok _
    · exact spares_ok _
    · exact spares_fail (by simpa [TypeFault.Spares, TypeFault.values] using hknown)

theorem spares_ofBinary : (ofBinary op left right).Spares := by
  unfold ofBinary
  split_ifs
  · exact spares_ok _
  · exact spares_ofComparison
  · exact spares_ofArithmetic

theorem spares_ofMember (property : String) (object : Ty) : (ofMember property object).Spares := by
  fun_induction ofMember property object with
  | case1 | case2 | case3 | case5 | case7 | case9 => exact spares_ok _
  | case4 inner ih => exact ih
  | case6 fields => exact spares_fail (by simp [TypeFault.Spares, TypeFault.values])
  | case8 | case10 => exact spares_fail (by simp [TypeFault.Spares, TypeFault.values])
  | case11 other _ _ hunknown =>
      exact spares_fail (by simpa [TypeFault.Spares, TypeFault.values] using hunknown)

theorem spares_ofIndex (object index : Ty) : (ofIndex object index).Spares := by
  unfold ofIndex
  split
  case h_1 | h_2 | h_3 => exact spares_ok _
  case h_4 | h_5 =>
    split
    · exact spares_ok _
    next hnumber =>
      exact spares_fail (by simpa [TypeFault.Spares, TypeFault.values] using
        ne_unknown_of_not_number hnumber)
  case h_6 hunknown _ _ _ =>
    exact spares_fail (by simpa [TypeFault.Spares, TypeFault.values] using hunknown)

theorem spares_argumentFaults (position : Nat) (params : List Ty) (arguments : List (Ty × Span)) :
    ∀ found ∈ argumentFaults position params arguments, found.1.Spares := by
  fun_induction argumentFaults position params arguments with
  | case1 position param params argument span arguments later hfits ih => exact ih
  | case2 position param params argument span arguments later hfits ih =>
      rw [List.forall_mem_cons]
      refine ⟨?_, ih⟩
      rw [Bool.or_eq_true, not_or, decide_eq_true_iff] at hfits
      simpa [TypeFault.Spares, TypeFault.values] using hfits.1
  | case3 => exact fun _ h => nomatch h

theorem spares_ofCall (callee : Ty) (arguments : List (Ty × Span)) (span : Span) :
    ∀ found ∈ (ofCall callee arguments span).2, found.1.Spares := by
  unfold ofCall
  split
  · dsimp only
    intro found hfound
    rcases List.mem_append.1 hfound with hcount | hargument
    · split at hcount
      · cases hcount
      · rw [List.mem_singleton.1 hcount]
        exact fun _ h => nomatch h
    · exact spares_argumentFaults _ _ _ found hargument
  · exact fun _ h => nomatch h
  · exact fun _ h => nomatch h
  · next hunknown =>
    intro found hfound
    rw [List.mem_singleton.1 hfound]
    simpa [TypeFault.Spares, TypeFault.values] using hunknown

theorem spares_storeFault? {value target : Ty} {fault : TypeFault}
    (h : storeFault? value target = some fault) : fault.Spares := by
  unfold storeFault? at h
  split at h
  · cases h
  next hfits =>
    cases h
    simp only [Bool.or_eq_true, not_or, decide_eq_true_iff] at hfits
    simpa [TypeFault.Spares, TypeFault.values] using hfits.1.1

end Ty

end ComponentLang
