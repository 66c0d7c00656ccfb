import ComponentLang.Proofs.Grammar.Beside.Expression
import ComponentLang.Proofs.Grammar.Recovery
import ComponentLang.Proofs.Grammar.Expression

/-!
# Expressions without a bound

Every bound on turns or depths that is beyond the number of tokens to come gives the same result.
Without mention of a bound, a loop is a turn of it and then the loop again, and the rules of
expressions are made from themselves.
-/
namespace ComponentLang.Grammar

open Parse

namespace Parse

variable {α β : Type} {s : State} {p : Parse α}

/-! ## Loops -/

/-- What follows a reader matters only for what the reader gives. -/
theorem bind_congr_ends {f g : α → Parse β} (bad : Problem → State → Prop)
    (h : Ends (fun a t => f a t = g a t) bad p s) : (p >>= f) s = (p >>= g) s := by
  have hruns : (p >>= f).run s = (p >>= g).run s := by
    unfold Ends at h
    rw [run_bind, run_bind]
    generalize p.run s = result at h ⊢
    obtain ⟨outcome, t⟩ := result
    cases outcome with
    | ok a => exact h
    | error e => rfl
  exact hruns

/-- Every turn after which there is another takes a token. -/
def Advances (turn : β → Parse (Turn β α)) : Prop :=
  ∀ b s, Ends (Onward s.rest.length fun _ _ => True) (fun _ _ => True) (turn b) s

theorem advances_of_turns {R : State → State → Prop} {turn : β → Parse (Turn β α)}
    (h : ∀ b s, Turns R (turn b) s) : Advances turn :=
  fun b s => (h b s).mono (fun _ _ hgood => hgood.2) fun _ _ _ => trivial

theorem iterateFor_eq {turn : β → Parse (Turn β α)} (hturn : Advances turn) {n n' : Nat}
    (hn : s.rest.length < n) (hn' : s.rest.length < n') (b : β) :
    iterateFor turn n b s = iterateFor turn n' b s := by
  induction n generalizing n' b s with
  | zero => omega
  | succ n ih =>
      obtain ⟨n', rfl⟩ : ∃ k, n' = k + 1 := ⟨n' - 1, by omega⟩
      unfold iterateFor
      apply bind_congr_ends fun _ _ => True
      apply (hturn b s).mono
      · intro turned t honward
        cases turned with
        | again b =>
            have hless : t.rest.length < s.rest.length := honward
            exact ih (by omega) (by omega) b
        | done a => rfl
      · exact fun _ _ _ => trivial

/-- What follows a turn of a loop. -/
def afterTurn (loop : β → Parse α) : Turn β α → Parse α
  | .again b => loop b
  | .done a => return a

/-- A loop is a turn of it, and then the loop again unless it is done. -/
theorem iterate_eq {turn : β → Parse (Turn β α)} (hturn : Advances turn) (b : β) :
    iterate turn b = turn b >>= afterTurn (iterate turn) := by
  funext s
  have hloop : iterate turn b s = iterateFor turn (s.rest.length + 1) b s := rfl
  rw [hloop, iterateFor]
  apply bind_congr_ends fun _ _ => True
  apply (hturn b s).mono
  · intro turned t honward
    cases turned with
    | again b =>
        have hless : t.rest.length < s.rest.length := honward
        exact iterateFor_eq hturn hless (Nat.lt_succ_self _) b
    | done a => rfl
  · exact fun _ _ _ => trivial

/-- A loop is done if its turn is. -/
theorem iterate_of_done {turn : β → Parse (Turn β α)} (hturn : Advances turn) {b : β} {a : α}
    {t : State} (h : turn b s = (pure (.done a) : Parse (Turn β α)) t) :
    iterate turn b s = (pure a : Parse α) t := by
  rw [iterate_eq hturn]
  exact bind_of_eq_pure h _

/-- A loop goes on with what its turn gives. -/
theorem iterate_of_next {turn : β → Parse (Turn β α)} (hturn : Advances turn) {b b' : β}
    {t : State} (h : turn b s = (pure (.again b') : Parse (Turn β α)) t) :
    iterate turn b s = iterate turn b' t := by
  rw [iterate_eq hturn b]
  exact bind_of_eq_pure h _

/-- A loop goes on with what its turn reads. -/
theorem iterate_of_again {turn : β → Parse (Turn β α)} (hturn : Advances turn) {b : β}
    {p : Parse β} (h : turn b s = (Turn.again <$> p : Parse (Turn β α)) s) :
    iterate turn b s = (p >>= iterate turn) s := by
  rw [iterate_eq hturn, bind_congr_eq h, bind_map_left]
  rfl

end Parse

/-! ## Rules -/

/-- A state beside itself. -/
instance : Pairing Eq id where
  span _ := rfl
  rest h := h ▸ rfl
  stop h := h ▸ rfl
  previous h := h ▸ rfl
  inHead h := h ▸ rfl
  next h := h ▸ rfl
  headed _ h := h ▸ rfl
  node _ h := h ▸ rfl
  numbered h := h ▸ rfl

theorem Parse.Beside.eq {α : Type} {m : α → α} {p q : Parse α} {s : State}
    (h : Beside Eq m p q s s) (hm : ∀ a, m a = a) : p s = q s := by
  have hruns : p.run s = q.run s := by
    unfold Beside at h
    generalize p.run s = x at h
    generalize q.run s = y at h
    cases h with
    | ok a hst _ => rw [hm, hst]
    | error e hst _ => rw [hst]
  exact hruns

/-- A reader of operands with their signs. -/
def unaryExpr : Parse Expr := fun s => (rulesFor s).unary s

/-- A reader of operators of level `least` or more. -/
def binaryExpr (least : Nat) : Parse Expr := fun s => (rulesFor s).binary least s

/-- The rules at whatever depth is enough. -/
def allRules : ExprRules := ⟨expression, binaryExpr, unaryExpr, tag⟩

theorem pair_allRules (n : Nat) : (exprRules n).Pair Eq id n allRules := by
  have hrules : ∀ s : State, s.rest.length < n →
      (exprRules n).Pair Eq id (s.rest.length + 1) (rulesFor s) :=
    fun s hn => pair_exprRules hn (Nat.le_refl _)
  constructor
  · rintro s _ rfl hn
    exact ((hrules s hn).conditional rfl (Nat.lt_succ_self _)).of_eq rfl rfl
  · rintro least s _ rfl hn
    exact ((hrules s hn).binary least rfl (Nat.lt_succ_self _)).of_eq rfl rfl
  · rintro s _ rfl hn
    exact ((hrules s hn).unary rfl (Nat.lt_succ_self _)).of_eq rfl rfl
  · rintro s _ rfl hn
    exact ((hrules s hn).tag rfl (Nat.lt_succ_self _)).of_eq rfl rfl

theorem tag_eq : tag = tagRule allRules := by
  funext s
  have hbeside := beside_tagRule (pair_allRules s.rest.length) rfl (Nat.le_refl _)
  exact hbeside.eq Relabel.tag_id

theorem unaryExpr_eq : unaryExpr = unaryRule allRules tag := by
  funext s
  have htag : ∀ {t u : State}, t = u → t.rest.length ≤ s.rest.length →
      Beside Eq (Relabel.tag id) (exprRules (s.rest.length + 1)).tag tag t u :=
    fun htu hn => (pair_allRules (s.rest.length + 1)).tag htu (Nat.lt_succ_of_le hn)
  have hbeside := beside_unaryRule (pair_allRules s.rest.length) rfl (Nat.le_refl _) htag
  exact hbeside.eq Relabel.expr_id

theorem binaryExpr_eq (least : Nat) : binaryExpr least = binaryRule allRules unaryExpr least := by
  funext s
  have hunary : Beside Eq (Relabel.expr id) (exprRules (s.rest.length + 1)).unary unaryExpr s s :=
    (pair_allRules (s.rest.length + 1)).unary rfl (Nat.lt_succ_self _)
  have hbeside := beside_binaryRule least (pair_allRules s.rest.length) (Nat.le_refl _)
    hunary
  exact hbeside.eq Relabel.expr_id

theorem expression_eq : expression = conditionalRule allRules binaryExpr := by
  funext s
  have hbinary : Beside Eq (Relabel.expr id) ((exprRules (s.rest.length + 1)).binary 1)
      (binaryExpr 1) s s :=
    (pair_allRules (s.rest.length + 1)).binary 1 rfl (Nat.lt_succ_self _)
  have hbeside := beside_conditionalRule (pair_allRules s.rest.length) (Nat.le_refl _) hbinary
  exact hbeside.eq Relabel.expr_id

/-! ## The loops of expressions -/

theorem keep_allRules (n : Nat) : allRules.Keep State.Drops n where
  conditional _ _ := skims_expression
  binary _ s _ := ((keep_exprRules _).binary _ s (Nat.lt_succ_self _)).of_eq rfl
  unary s _ := ((keep_exprRules _).unary s (Nat.lt_succ_self _)).of_eq rfl
  tag _ _ := reads_tag

theorem advances_suffix : Advances (suffix allRules) :=
  advances_of_turns fun _ s => turns_suffix (keep_allRules s.rest.length) (Nat.le_refl _)

theorem advances_binaryStep (least : Nat) : Advances (binaryStep allRules least) :=
  advances_of_turns fun _ s => turns_binaryStep (keep_allRules s.rest.length) (Nat.le_refl _)

end ComponentLang.Grammar
