import ComponentLang.Proofs.Typing.Fault
import ComponentLang.Proofs.Typing.Relaxes.Assignable

/-!
# Operations with less known

An operation with which nothing is wrong stays so when less is known of its operands, if they are
clear, and less is known of its result. There is one exception: a loop over a union of arrays gives
`any`, and gives more if the arrays fall together.
-/
namespace ComponentLang

/-- If nothing is wrong with the one, nothing is wrong with the other, and less is known of its
type. -/
def Verdict.RelaxesTo (v v' : Verdict) : Prop :=
  v.fault = none → v'.fault = none ∧ Ty.Tame v.type v'.type

namespace Ty

variable {t t' left left' right right' : Ty}

theorem relaxesTo_ok (h : Tame t t') : (Verdict.ok t).RelaxesTo (.ok t') := fun _ => ⟨rfl, h⟩

theorem relaxesTo_of_fault {v v' : Verdict} {fault : TypeFault} (h : v.fault = some fault) :
    v.RelaxesTo v' := by
  intro hnone
  rw [h] at hnone
  cases hnone

/-! ## Numbers -/

theorem not_inside_primitive {p : Primitive} : ¬ Inside .any (.primitive p) := by
  intro h
  obtain heq | ⟨child, hchild, -⟩ := inside_iff.1 h
  · cases heq
  · cases hchild

theorem isNumeric_of_mem {members : List Ty} (h : (Ty.union members).isNumeric = true) {m : Ty}
    (hm : m ∈ members) : m.isNumeric = true := by
  change allNumeric members = true at h
  induction members with
  | nil => cases hm
  | cons other rest ih =>
      unfold allNumeric at h
      rw [Bool.and_eq_true] at h
      rcases List.mem_cons.1 hm with rfl | hm
      · exact h.1
      · exact ih hm h.2

/-- A number is as it was, unless nothing is known of it any more. -/
theorem Tame.eq_of_isNumeric (h : Tame t t') (hnumeric : t.isNumeric = true) :
    t' = t ∨ t' = .any := by
  induction hsize : t.size using Nat.strongRecOn generalizing t with
  | _ size ih =>
      cases t with
      | primitive p => exact h.primitive
      | union members =>
          rcases h.union with heq | heq | ⟨hne, hunion, hany, hmembers⟩
          · exact .inl heq
          · exact .inr heq
          · obtain ⟨m, hm⟩ := List.exists_mem_of_ne_nil members hne
            have hnumeric := isNumeric_of_mem hnumeric hm
            refine .inr ((ih m.size (hsize ▸ size_lt_size_union hm) (hmembers m hm) hnumeric
              rfl).resolve_left ?_)
            rintro rfl
            cases t' with
            | primitive p => exact not_inside_primitive hany
            | union others => exact hunion others rfl
            | _ => cases hnumeric
      | _ => cases hnumeric

theorem Tame.passesAsNumber (h : Tame t t') (hpasses : t.passesAsNumber = true) :
    t'.passesAsNumber = true := by
  unfold Ty.passesAsNumber at hpasses ⊢
  simp only [Bool.or_eq_true, decide_eq_true_iff] at hpasses ⊢
  rcases hpasses with (hnumeric | rfl) | rfl
  · rcases h.eq_of_isNumeric hnumeric with rfl | rfl
    · exact .inl (.inl hnumeric)
    · exact .inl (.inr rfl)
  · exact .inl (.inr h.eq_any)
  · exact .inr h.eq_unknown

/-! ## Operators -/

theorem relaxesTo_ofUnary (op : UnaryOp) (h : Tame t t') :
    (ofUnary op t).RelaxesTo (ofUnary op t') := by
  unfold ofUnary
  split
  · exact relaxesTo_ok (.refl _)
  all_goals
    split
    next hpasses =>
      rw [if_pos (h.passesAsNumber hpasses)]
      exact relaxesTo_ok h
    next => exact relaxesTo_of_fault rfl

theorem relaxesTo_ofComparison (hl : Tame left left') (hr : Tame right right') :
    (ofComparison left right).RelaxesTo (ofComparison left' right') := by
  unfold ofComparison
  simp only [hl.relaxes.unknown_iff, hr.relaxes.unknown_iff]
  split
  · exact relaxesTo_ok (.refl _)
  · split
    next h =>
      rw [if_pos]
      · exact relaxesTo_ok (.refl _)
      · rw [Bool.or_eq_true] at h ⊢
        exact h.imp (hl.assignable hr) (hr.assignable hl)
    next => exact relaxesTo_of_fault rfl

/-- What is a primitive type now was that type before. -/
theorem RelaxesTo.eq_of_primitive {p : Primitive} (h : RelaxesTo t (.primitive p)) :
    t = .primitive p := by
  cases h with
  | refl => rfl
  | merge _ _ hany _ => exact (not_inside_primitive hany).elim

theorem relaxesTo_ofArithmetic (op : BinaryOp) (hl : Tame left left') (hr : Tame right right') :
    (ofArithmetic op left right).RelaxesTo (ofArithmetic op left' right') := by
  have hstring : ∀ {t t' : Ty}, Tame t t' → t = .string → t' = .string ∨ t' = .any := by
    rintro t t' h rfl
    exact h.primitive
  unfold ofArithmetic
  simp only [hl.relaxes.unknown_iff, hr.relaxes.unknown_iff, Bool.or_eq_true, Bool.and_eq_true,
    decide_eq_true_iff]
  split
  · exact relaxesTo_ok (.refl _)
  by_cases hadd : op = .add ∧ (left = .string ∨ right = .string)
  · rw [if_pos hadd]
    split
    · exact relaxesTo_ok (.refl _)
    next hchanged =>
      -- The string has become `any`.
      have hany : left' = .any ∨ right' = .any := by
        rw [not_and, not_or] at hchanged
        obtain ⟨hleft, hright⟩ := hchanged hadd.1
        exact hadd.2.imp (fun h => (hstring hl h).resolve_left hleft)
          fun h => (hstring hr h).resolve_left hright
      rw [if_pos hany]
      exact relaxesTo_ok (.any (known_primitive _))
  · have hadd' : ¬ (op = .add ∧ (left' = .string ∨ right' = .string)) := by
      rintro ⟨hop, rfl | rfl⟩
      · exact hadd ⟨hop, .inl hl.relaxes.eq_of_primitive⟩
      · exact hadd ⟨hop, .inr hr.relaxes.eq_of_primitive⟩
    rw [if_neg hadd, if_neg hadd']
    by_cases hany' : left' = .any ∨ right' = .any
    · rw [if_pos hany']
      split
      · exact relaxesTo_ok (.refl _)
      · split
        · split
          · exact relaxesTo_ok (.any (known_primitive _))
          · exact relaxesTo_ok (.any (known_primitive _))
        · exact relaxesTo_of_fault rfl
    · have hany : ¬ (left = .any ∨ right = .any) := by
        rintro (rfl | rfl)
        · exact hany' (.inl hl.eq_any)
        · exact hany' (.inr hr.eq_any)
      rw [if_neg hany, if_neg hany']
      by_cases hnumeric : left.isNumeric = true ∧ right.isNumeric = true
      · rw [not_or] at hany'
        rw [(hl.eq_of_isNumeric hnumeric.1).resolve_right hany'.1,
          (hr.eq_of_isNumeric hnumeric.2).resolve_right hany'.2, if_pos hnumeric]
        exact relaxesTo_ok (.refl _)
      · rw [if_neg hnumeric]
        exact relaxesTo_of_fault rfl

theorem relaxesTo_ofBinary (op : BinaryOp) (hl : Tame left left') (hr : Tame right right') :
    (ofBinary op left right).RelaxesTo (ofBinary op left' right') := by
  unfold ofBinary
  split
  · exact relaxesTo_ok (.refl _)
  · split
    · exact relaxesTo_ofComparison hl hr
    · exact relaxesTo_ofArithmetic op hl hr

/-! ## Parts of values -/

theorem mem_of_lookup? {name : String} {fields : List TypedName}
    (h : TypedName.lookup? name fields = some t) : t ∈ (Ty.object fields).children := by
  induction fields with
  | nil => cases h
  | cons field rest ih =>
      unfold TypedName.lookup? at h
      split at h
      · cases h
        exact List.mem_cons_self
      · exact List.mem_cons_of_mem _ (ih h)

/-- Of a part of a known value the type is known. -/
theorem known_ofMember {property : String} (h : t.Known)
    (hok : (ofMember property t).fault = none) : (ofMember property t).type.Known := by
  fun_induction ofMember property t with
  | case1 | case2 => exact known_any
  | case3 => exact (h.1 .refl).elim
  | case4 inner ih => exact ih (h.child List.mem_cons_self) hok
  | case5 fields type hlookup => exact h.child (mem_of_lookup? hlookup)
  | case7 | case9 => exact known_primitive _
  | case6 | case8 | case10 | case11 => cases hok

theorem Tame.known (h : Tame t .any) (hany : t ≠ .any) (hunion : ∀ members, t ≠ .union members) :
    t.Known := by
  obtain ⟨hrelaxes, -⟩ := h
  cases hrelaxes with
  | refl => exact (hany rfl).elim
  | any hknown => exact hknown
  | merge => exact (hunion _ rfl).elim

/-- Nothing is wrong with a part of a value of which nothing is known. -/
theorem relaxesTo_ofMember_any (property : String) (h : Tame t .any) :
    (ofMember property t).RelaxesTo (ofMember property .any) := by
  intro hok
  refine ⟨rfl, ?_⟩
  by_cases hany : t = .any
  · rw [hany]
    exact .refl _
  · have hunion : ∀ members, t ≠ .union members := by
      rintro members rfl
      cases hok
    exact .any (known_ofMember (h.known hany hunion) hok)

theorem relaxesTo_ofMember (property : String) (h : Tame t t') :
    (ofMember property t).RelaxesTo (ofMember property t') := by
  by_cases hany : t' = .any
  · rw [hany] at h ⊢
    exact relaxesTo_ofMember_any property h
  fun_induction ofMember property t generalizing t' with
  | case1 => exact (hany h.eq_any).elim
  | case2 name =>
      obtain rfl := h.component.resolve_right hany
      exact relaxesTo_ok (.refl _)
  | case3 =>
      obtain rfl := h.eq_unknown
      exact relaxesTo_ok (.refl _)
  | case4 inner ih =>
      obtain ⟨inner', rfl, hinner⟩ := h.optional.resolve_left hany
      change (ofMember property inner).RelaxesTo (ofMember property inner')
      by_cases hany' : inner' = .any
      · rw [hany'] at hinner ⊢
        exact relaxesTo_ofMember_any property hinner
      · exact ih hinner hany'
  | case5 fields type hlookup =>
      obtain ⟨fields', rfl, -, hlength, hfields⟩ := h.object.resolve_left hany
      obtain ⟨type', hlookup', htype⟩ := lookup?_of_zip hlength hfields hlookup
      unfold ofMember
      rw [hlookup']
      exact relaxesTo_ok htype
  | case7 element hlength =>
      obtain ⟨element', rfl, -⟩ := h.array.resolve_left hany
      unfold ofMember
      rw [if_pos hlength]
      exact relaxesTo_ok (.refl _)
  | case9 hlength =>
      obtain rfl := h.primitive.resolve_right hany
      unfold ofMember
      rw [if_pos hlength]
      exact relaxesTo_ok (.refl _)
  | case6 | case8 | case10 | case11 => exact relaxesTo_of_fault rfl

variable {index index' : Ty}

/-- Nothing is wrong with an index if nothing was. -/
theorem relaxesTo_ite_passesAsNumber {fault fault' : TypeFault} (hindex : Tame index index')
    (h : Tame t t') :
    Verdict.RelaxesTo (if index.passesAsNumber then .ok t else .fail fault)
      (if index'.passesAsNumber then .ok t' else .fail fault') := by
  split
  next hnumber =>
    rw [if_pos (hindex.passesAsNumber hnumber)]
    exact relaxesTo_ok h
  next => exact relaxesTo_of_fault rfl

theorem relaxesTo_ite_any {fault : TypeFault} (h : t.Known) :
    Verdict.RelaxesTo (if index.passesAsNumber then .ok t else .fail fault) (.ok .any) := by
  split
  · exact relaxesTo_ok (.any h)
  · exact relaxesTo_of_fault rfl

theorem relaxesTo_ofIndex (h : Tame t t') (hindex : Tame index index') :
    (ofIndex t index).RelaxesTo (ofIndex t' index') := by
  cases t with
  | any =>
      obtain rfl := h.eq_any
      exact relaxesTo_ok (.refl _)
  | unknown =>
      obtain rfl := h.eq_unknown
      exact relaxesTo_ok (.refl _)
  | object fields =>
      rcases h.object with rfl | ⟨fields', rfl, -⟩
      · exact relaxesTo_ok (.refl _)
      · exact relaxesTo_ok (.refl _)
  | array element =>
      rcases h.array with rfl | ⟨element', rfl, helement⟩
      · exact relaxesTo_ite_any ((h.known nofun nofun).child List.mem_cons_self)
      · exact relaxesTo_ite_passesAsNumber hindex helement
  | primitive p =>
      cases p with
      | string =>
          rcases h.primitive with rfl | rfl
          · exact relaxesTo_ite_passesAsNumber hindex (.refl _)
          · exact relaxesTo_ite_any (known_primitive _)
      | _ => exact relaxesTo_of_fault rfl
  | _ => exact relaxesTo_of_fault rfl

/-- A loop over a union of arrays goes over values of any type. If the arrays fall together, more is
known of them. -/
theorem relaxesTo_ofElement (h : Tame t t')
    (harray : ∀ members, t = .union members → ∀ element, t' ≠ .array element) :
    RelaxesTo (ofElement t) (ofElement t') := by
  cases t with
  | any =>
      obtain rfl := h.eq_any
      exact .refl _
  | unknown =>
      obtain rfl := h.eq_unknown
      exact .refl _
  | array element =>
      rcases h.array with rfl | ⟨element', rfl, helement⟩
      · exact .any ((h.known nofun nofun).child List.mem_cons_self)
      · exact helement.relaxes
  | primitive p =>
      rcases h.primitive with rfl | rfl
      · exact .refl _
      · cases p with
        | string => exact .any (known_primitive _)
        | _ => exact .refl _
  | union members =>
      have h' : ofElement t' = .any := by
        rcases h.union with rfl | rfl | ⟨-, hunion, hany, hmembers⟩
        · rfl
        · rfl
        · cases t' with
          | array element => exact (harray members rfl element rfl).elim
          | primitive p => exact (not_inside_primitive hany).elim
          | unknown => cases h.relaxes.unknown_iff.1 rfl
          | _ => rfl
      rw [h']
      exact .refl _
  | optional inner =>
      rcases h.optional with rfl | ⟨inner', rfl, -⟩
      · exact .refl _
      · exact .refl _
  | object fields =>
      rcases h.object with rfl | ⟨fields', rfl, -⟩
      · exact .refl _
      · exact .refl _
  | function params result isAsync =>
      rcases h.function with rfl | ⟨params', result', rfl, -⟩
      · exact .refl _
      · exact .refl _
  | component name =>
      rcases h.component with rfl | rfl
      · exact .refl _
      · exact .refl _

/-! ## Places for values -/

variable {value value' target target' : Ty}

/-- What fits, or is wrong already, fits. -/
theorem Tame.fits (hvalue : Tame value value') (htarget : Tame target target')
    (h : (decide (value = .unknown) || value.assignable target) = true) :
    (decide (value' = .unknown) || value'.assignable target') = true := by
  simp only [Bool.or_eq_true, decide_eq_true_iff, hvalue.relaxes.unknown_iff] at h ⊢
  exact h.imp_right (hvalue.assignable htarget)

theorem Tame.storeFault?_eq_none (hvalue : Tame value value') (htarget : Tame target target')
    (h : storeFault? value target = none) : storeFault? value' target' = none := by
  unfold storeFault? at h ⊢
  split at h
  next hfits =>
    rw [if_pos]
    simp only [Bool.or_eq_true, decide_eq_true_iff, hvalue.relaxes.unknown_iff,
      htarget.relaxes.unknown_iff] at hfits ⊢
    exact hfits.imp_right (hvalue.assignable htarget)
  next => cases h

/-! ## Calls -/

variable {params params' types types' : List Ty}

theorem argumentFaults_eq_nil {position : Nat} {spans : List Span}
    (hparams : List.Forall₂ Tame params params')
    (htypes : List.Forall₂ Tame types types')
    (h : argumentFaults position params (types.zip spans) = []) :
    argumentFaults position params' (types'.zip spans) = [] := by
  induction hparams generalizing position types types' spans with
  | nil => rfl
  | cons hparam hparams ih =>
      cases htypes with
      | nil => rfl
      | cons htype htypes =>
          cases spans with
          | nil => rfl
          | cons span spans =>
              rw [List.zip_cons_cons] at h ⊢
              unfold argumentFaults at h ⊢
              dsimp only at h ⊢
              split at h
              next hfits =>
                rw [if_pos (htype.fits hparam hfits)]
                exact ih htypes h
              next => cases h

/-- A call with which nothing is wrong stays so, and less is known of its result. -/
theorem tame_ofCall (spans : List Span) (span : Span) (hcallee : Tame t t')
    (htypes : List.Forall₂ Tame types types') (h : (ofCall t (types.zip spans) span).2 = []) :
    (ofCall t' (types'.zip spans) span).2 = [] ∧
      Tame (ofCall t (types.zip spans) span).1 (ofCall t' (types'.zip spans) span).1 := by
  cases t with
  | any =>
      obtain rfl := hcallee.eq_any
      exact ⟨rfl, .refl _⟩
  | unknown =>
      obtain rfl := hcallee.eq_unknown
      exact ⟨rfl, .refl _⟩
  | function params result isAsync =>
      rcases hcallee.function with rfl | ⟨params', result', rfl, hlength, hparams, hresult⟩
      · refine ⟨rfl, .any ((hcallee.known nofun nofun).child ?_)⟩
        exact List.mem_append_right _ List.mem_cons_self
      · have hparams : List.Forall₂ Tame params params' :=
          List.forall₂_iff_zip.2 ⟨hlength, fun hpair => hparams _ hpair⟩
        have hcount : (types.zip spans).length = (types'.zip spans).length := by
          rw [List.length_zip, List.length_zip, htypes.length_eq]
        obtain ⟨hfound, hfaults⟩ := List.append_eq_nil_iff.1 h
        have hfaults' := argumentFaults_eq_nil hparams htypes hfaults
        refine ⟨List.append_eq_nil_iff.2 ⟨?_, hfaults'⟩, hresult⟩
        rw [← hlength, ← hcount]
        split at hfound
        next hsame => exact if_pos hsame
        next => cases hfound
  | _ => cases h

end Ty

end ComponentLang
