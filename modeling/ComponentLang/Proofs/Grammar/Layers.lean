import ComponentLang.Proofs.Grammar.Unbounded

/-!
# Operators, layer by layer

```text
disjunction = conjunction { "||" conjunction }
conjunction = equality { "&&" equality }
equality    = comparison { ( "==" | "!=" ) comparison }
comparison  = sum { ( "<" | "<=" | ">" | ">=" ) sum }
sum         = product { ( "+" | "-" ) product }
product     = power { ( "*" | "/" | "%" ) power }
power       = unary [ "**" power ]
```

Here every level of operators has a reader of its own, which knows no other level than the next
tighter one. The one loop that climbs from level to level reads the same: the same tree with the
same numbers and places, or the same problem, and it leaves the same state.
-/
namespace ComponentLang.Grammar

open Parse

/-! ## The layered grammar -/

/-- The next token is an operator with `left` on its left; `right` reads what is on its right. -/
def operation (op : BinaryOp) (right : Parse Expr) (left : Expr) : Parse Expr := do
  let _ ← advance
  let operand ← right
  return .binary (← node (left.span.through operand.span)) left op operand

def leftStep (op? : TokenKind → Option BinaryOp) (tighter : Parse Expr) (left : Expr) :
    Parse (Turn Expr Expr) := do
  match op? (← kind) with
  | some op => return .again (← operation op tighter left)
  | none => return .done left

/-- Operands of the next tighter layer with operators between them, grouped to the left. -/
def leftLayer (op? : TokenKind → Option BinaryOp) (tighter : Parse Expr) : Parse Expr := do
  iterate (leftStep op? tighter) (← tighter)

def orOp? : TokenKind → Option BinaryOp
  | .orOr => some .or
  | _ => none

def andOp? : TokenKind → Option BinaryOp
  | .andAnd => some .and
  | _ => none

def equalityOp? : TokenKind → Option BinaryOp
  | .eqEq => some .eq
  | .notEq => some .notEq
  | _ => none

def comparisonOp? : TokenKind → Option BinaryOp
  | .lt => some .lt
  | .ltEq => some .ltEq
  | .gt => some .gt
  | .gtEq => some .gtEq
  | _ => none

def sumOp? : TokenKind → Option BinaryOp
  | .plus => some .add
  | .minus => some .sub
  | _ => none

def productOp? : TokenKind → Option BinaryOp
  | .star => some .mul
  | .slash => some .div
  | .percent => some .mod
  | _ => none

/-- A power, which groups to the right, with fewer than `bound` signs of it. -/
def powerWithin : Nat → Parse Expr
  | 0 => fail .iterationLimit
  | bound + 1 => do
    let base ← unaryExpr
    if (← kind) = .starStar then operation .pow (powerWithin bound) base else return base

def power : Parse Expr := fun s => powerWithin (s.rest.length + 1) s

def product : Parse Expr := leftLayer productOp? power

def sum : Parse Expr := leftLayer sumOp? product

def comparison : Parse Expr := leftLayer comparisonOp? sum

def equality : Parse Expr := leftLayer equalityOp? comparison

def conjunction : Parse Expr := leftLayer andOp? equality

def disjunction : Parse Expr := leftLayer orOp? conjunction

/-! ## The climbing loop -/

variable {s : State} {least level : Nat} {op : BinaryOp} {left : Expr}

/-- No operator of level `least` or more comes next. -/
def Below (least : Nat) (s : State) : Prop :=
  ∀ op level, binaryOp? s.kind = some (op, level) → level < least

/-- The operators of level `least` or more after `left`. -/
def climb (least : Nat) : Expr → Parse Expr := iterate (binaryStep allRules least)

/-- The least level on the right of an operator. Only powers group to the right. -/
def rightLevel (op : BinaryOp) (level : Nat) : Nat := if op = .pow then level else level + 1

theorem binaryExpr_climb (least : Nat) : binaryExpr least = unaryExpr >>= climb least :=
  binaryExpr_eq least

theorem climb_of_below (h : Below least s) : climb least left s = (pure left : Parse Expr) s := by
  have hstep : binaryStep allRules least left s
      = (pure (.done left) : Parse (Turn Expr Expr)) s := by
    unfold binaryStep
    rw [kind_bind]
    cases hop : binaryOp? s.kind with
    | none => rfl
    | some entry => simp only [if_pos (h entry.1 entry.2 hop)]
  exact iterate_of_done (advances_binaryStep least) hstep

theorem climb_of_le (hop : binaryOp? s.kind = some (op, level)) (hle : least ≤ level) :
    climb least left s =
      (operation op (binaryExpr (rightLevel op level)) left >>= climb least) s := by
  have hstep : binaryStep allRules least left s =
      (Turn.again <$> operation op (binaryExpr (rightLevel op level)) left :
        Parse (Turn Expr Expr)) s := by
    unfold binaryStep
    rw [kind_bind, hop]
    simp only [if_neg (Nat.not_lt.2 hle), operation, map_bind, map_pure]
    rfl
  exact iterate_of_again (advances_binaryStep least) hstep

theorem kind_ne_eof_of_binaryOp? {kind : TokenKind} {result : BinaryOp × Nat}
    (h : binaryOp? kind = some result) : kind ≠ .eof := by
  rintro rfl
  simp [binaryOp?] at h

theorem takes_binaryStep :
    Takes State.Drops (Onward s.rest.length fun _ t => Below least t)
      (binaryStep allRules least left) s := by
  unfold binaryStep
  simp only [takes_kind_bind]
  split
  next op level hop =>
    have hless := State.length_next_lt (kind_ne_eof_of_binaryOp? hop)
    split
    next hlevel =>
      rw [takes_pure, onward_done]
      intro op' level' hop'
      rw [hop] at hop'
      cases hop'
      exact hlevel
    next =>
      have hkeep := keep_allRules s.rest.length
      apply takes_advance_bind
      apply takes_bind (hkeep.binary _ _ hless)
      intro right t hst _
      have hle := Travel.shrinks hst
      simp
      omega
  next hnone =>
    rw [takes_pure, onward_done]
    intro op level hop
    rw [hnone] at hop
    cases hop

/-- Every operator that comes after the operators of a level and those above binds less. -/
theorem takes_binaryExpr :
    Takes State.Drops (fun _ t => Below least t) (binaryExpr least) s := by
  have hkeep := keep_allRules (s.rest.length + 1)
  rw [binaryExpr_climb]
  apply takes_bind (hkeep.unary s (Nat.lt_succ_self _))
  intro left t _ _
  apply takes_iterate
  intro left u _
  exact takes_binaryStep

theorem takes_operation (hkind : s.kind ≠ .eof) :
    Takes State.Drops (fun _ t => Below least t ∧ t.rest.length < s.rest.length)
      (operation op (binaryExpr least) left) s := by
  have hless := State.length_next_lt hkind
  unfold operation
  apply takes_advance_bind
  apply takes_bind takes_binaryExpr
  intro right t hst hbelow
  have hle := Travel.shrinks hst
  apply takes_node_bind
  rw [takes_pure]
  have hshort : t.rest.length < s.rest.length := by omega
  exact ⟨hbelow, hshort⟩

/-! ## One layer -/

/-- The operators that `op?` knows are those of level `level`, which group to the left. -/
structure Layer (op? : TokenKind → Option BinaryOp) (level : Nat) : Prop where
  mem_iff (kind : TokenKind) (op : BinaryOp) :
    op? kind = some op ↔ binaryOp? kind = some (op, level)
  left : level < 7

theorem layer_or : Layer orOp? 1 where
  mem_iff kind op := by cases kind <;> simp [orOp?, binaryOp?]
  left := by decide

theorem layer_and : Layer andOp? 2 where
  mem_iff kind op := by cases kind <;> simp [andOp?, binaryOp?]
  left := by decide

theorem layer_equality : Layer equalityOp? 3 where
  mem_iff kind op := by cases kind <;> simp [equalityOp?, binaryOp?]
  left := by decide

theorem layer_comparison : Layer comparisonOp? 4 where
  mem_iff kind op := by cases kind <;> simp [comparisonOp?, binaryOp?]
  left := by decide

theorem layer_sum : Layer sumOp? 5 where
  mem_iff kind op := by cases kind <;> simp [sumOp?, binaryOp?]
  left := by decide

theorem layer_product : Layer productOp? 6 where
  mem_iff kind op := by cases kind <;> simp [productOp?, binaryOp?]
  left := by decide

theorem level_pow {kind : TokenKind} (h : binaryOp? kind = some (.pow, level)) : level = 7 := by
  cases kind <;> simp [binaryOp?] at h
  exact h.symm

section Layer

variable {op? : TokenKind → Option BinaryOp}

/-- The operators of one layer after `left`, with operands of the next tighter level. -/
def stay (op? : TokenKind → Option BinaryOp) (level : Nat) : Expr → Parse Expr :=
  iterate (leftStep op? (binaryExpr (level + 1)))

theorem advances_leftStep (h : Layer op? level) :
    Advances (leftStep op? (binaryExpr (level + 1))) := by
  apply advances_of_turns (R := State.Drops)
  intro left s
  unfold leftStep
  simp only [takes_kind_bind]
  split
  next op hop =>
    have hkind := kind_ne_eof_of_binaryOp? ((h.mem_iff _ op).1 hop)
    apply takes_bind (takes_operation hkind)
    rintro e t _ ⟨_, hless⟩
    rw [takes_pure, onward_again]
    exact hless
  next => simp

theorem stay_of_none (h : Layer op? level) (hnone : op? s.kind = none) :
    stay op? level left s = (pure left : Parse Expr) s := by
  have hstep : leftStep op? (binaryExpr (level + 1)) left s
      = (pure (.done left) : Parse (Turn Expr Expr)) s := by
    unfold leftStep
    rw [kind_bind, hnone]
  exact iterate_of_done (advances_leftStep h) hstep

theorem stay_of_some (h : Layer op? level) (hop : op? s.kind = some op) :
    stay op? level left s =
      (operation op (binaryExpr (level + 1)) left >>= stay op? level) s := by
  have hstep : leftStep op? (binaryExpr (level + 1)) left s =
      (Turn.again <$> operation op (binaryExpr (level + 1)) left : Parse (Turn Expr Expr)) s := by
    unfold leftStep
    rw [kind_bind, hop]
    simp only [map_eq_pure_bind]
  exact iterate_of_again (advances_leftStep h) hstep

theorem Layer.rightLevel_eq (h : Layer op? level) (hop : op? s.kind = some op) :
    rightLevel op level = level + 1 := by
  have hentry := (h.mem_iff _ op).1 hop
  have hne : op ≠ .pow := by
    rintro rfl
    have hlevel := level_pow hentry
    have hleft := h.left
    omega
  exact if_neg hne

theorem stay_of_below (h : Layer op? level) (hbelow : Below level s) :
    stay op? level left s = (pure left : Parse Expr) s := by
  apply stay_of_none h
  cases hop : op? s.kind with
  | none => rfl
  | some op =>
      have hless := hbelow op level ((h.mem_iff _ op).1 hop)
      omega

theorem Below.mono {least' : Nat} (h : Below least s) (hle : least ≤ least') : Below least' s :=
  fun op level hop => Nat.lt_of_lt_of_le (h op level hop) hle

/-- Climbing from a level on is to take, again and again, an operator of that level and what
binds tighter after it. -/
theorem climb_eq_stay (h : Layer op? level) (left : Expr) :
    climb level left = climb (level + 1) left >>= stay op? level := by
  funext s
  induction hn : s.rest.length using Nat.strongRecOn generalizing s left with
  | _ n ih =>
  subst hn
  cases hop : binaryOp? s.kind with
  | none =>
      have hbelow : Below level s := fun op level hop' => by
        rw [hop] at hop'
        cases hop'
      have hnext : climb (level + 1) left s = (pure left : Parse Expr) s :=
        climb_of_below (hbelow.mono (Nat.le_succ level))
      rw [climb_of_below hbelow, bind_of_eq_pure hnext, stay_of_below h hbelow]
  | some entry =>
      obtain ⟨op, found⟩ := entry
      have hbelow : ∀ {least : Nat}, found < least → Below least s := by
        intro least hless op' level' hop'
        rw [hop] at hop'
        cases hop'
        exact hless
      have hkind := kind_ne_eof_of_binaryOp? hop
      rcases Nat.lt_trichotomy found level with hless | heq | hgreater
      · have hnext : climb (level + 1) left s = (pure left : Parse Expr) s :=
          climb_of_below (hbelow (Nat.lt_succ_of_lt hless))
        rw [climb_of_below (hbelow hless), bind_of_eq_pure hnext,
          stay_of_below h (hbelow hless)]
      · subst heq
        have hnext : climb (found + 1) left s = (pure left : Parse Expr) s :=
          climb_of_below (hbelow (Nat.lt_succ_self found))
        have hknown : op? s.kind = some op := (h.mem_iff _ op).2 hop
        rw [climb_of_le hop (Nat.le_refl _), bind_of_eq_pure hnext, stay_of_some h hknown,
          h.rightLevel_eq hknown]
        apply bind_congr_ends fun _ _ => True
        apply Ends.mono (takes_operation hkind)
        · rintro e t ⟨_, hbelow', hshort⟩
          rw [ih _ hshort e t rfl, bind_of_eq_pure (climb_of_below hbelow')]
        · exact fun _ _ _ => trivial
      · rw [climb_of_le hop (Nat.le_of_lt hgreater),
          bind_congr_eq (climb_of_le hop hgreater), bind_assoc]
        apply bind_congr_ends fun _ _ => True
        apply Ends.mono (takes_operation hkind)
        · rintro e t ⟨_, _, hshort⟩
          exact ih _ hshort e t rfl
        · exact fun _ _ _ => trivial

theorem binaryExpr_eq_leftLayer (h : Layer op? level) :
    binaryExpr level = leftLayer op? (binaryExpr (level + 1)) := by
  calc binaryExpr level
      = unaryExpr >>= fun left => climb (level + 1) left >>= stay op? level := by
        rw [binaryExpr_climb, funext (climb_eq_stay h)]
    _ = binaryExpr (level + 1) >>= stay op? level := by rw [binaryExpr_climb, bind_assoc]
    _ = leftLayer op? (binaryExpr (level + 1)) := rfl

end Layer

/-! ## Powers -/

theorem level_pos {kind : TokenKind} (h : binaryOp? kind = some (op, level)) : 1 ≤ level := by
  cases kind <;> simp_all [binaryOp?] <;> omega

theorem level_lt {kind : TokenKind} (h : binaryOp? kind = some (op, level)) :
    level < 7 ∨ kind = .starStar := by
  cases kind <;> simp_all [binaryOp?] <;> omega

theorem operation_congr {right right' : Parse Expr} (h : right s.next = right' s.next) :
    operation op right left s = operation op right' left s :=
  bind_congr_eq h _

theorem operation_pow (hop : binaryOp? s.kind = some (.pow, 7)) :
    climb 7 left s = operation .pow (binaryExpr 7) left s := by
  have hkind := kind_ne_eof_of_binaryOp? hop
  have hlast : (operation .pow (binaryExpr 7) left >>= climb 7) s =
      (operation .pow (binaryExpr 7) left >>= pure) s := by
    apply bind_congr_ends fun _ _ => True
    apply Ends.mono (takes_operation hkind)
    · rintro e t ⟨_, hbelow, _⟩
      exact climb_of_below hbelow
    · exact fun _ _ _ => trivial
  calc climb 7 left s
      = (operation .pow (binaryExpr 7) left >>= climb 7) s := climb_of_le hop (Nat.le_refl 7)
    _ = operation .pow (binaryExpr 7) left s := by rw [hlast, bind_pure]

/-- The signs of power group to the right because the level on their right is their own, and no
sign of power is left after it. -/
theorem powerWithin_eq {bound : Nat} (hbound : s.rest.length < bound) :
    powerWithin bound s = binaryExpr 7 s := by
  induction bound generalizing s with
  | zero => omega
  | succ bound ih =>
  have hkeep := keep_allRules (s.rest.length + 1)
  rw [binaryExpr_climb, powerWithin]
  apply bind_congr_ends fun _ _ => True
  apply Ends.mono (hkeep.unary s (Nat.lt_succ_self _))
  · rintro base t ⟨hst, _⟩
    have hle := Travel.shrinks hst
    rw [kind_bind]
    split
    next hkind =>
      have hop : binaryOp? t.kind = some (.pow, 7) := by rw [hkind]; rfl
      have hless := State.length_next_lt (kind_ne_eof_of_binaryOp? hop)
      rw [operation_pow hop]
      exact operation_congr (ih (by omega))
    next hkind =>
      symm
      apply climb_of_below
      intro op level hop
      exact (level_lt hop).resolve_right hkind
  · exact fun _ _ _ => trivial

theorem power_eq : power = binaryExpr 7 :=
  funext fun _ => powerWithin_eq (Nat.lt_succ_self _)

/-- Climbing from the lowest level on reads what the layered grammar reads, at every state: the
same expression with the same numbers and places and the same state after it, or the same problem
and the same state. -/
theorem binary_eq_disjunction (s : State) : (rulesFor s).binary 1 s = disjunction s := by
  have hlayers : binaryExpr 1 = disjunction := by
    rw [disjunction, conjunction, equality, comparison, sum, product, power_eq,
      ← binaryExpr_eq_leftLayer layer_product, ← binaryExpr_eq_leftLayer layer_sum,
      ← binaryExpr_eq_leftLayer layer_comparison, ← binaryExpr_eq_leftLayer layer_equality,
      ← binaryExpr_eq_leftLayer layer_and, ← binaryExpr_eq_leftLayer layer_or]
  exact congrFun hlayers s

end ComponentLang.Grammar
