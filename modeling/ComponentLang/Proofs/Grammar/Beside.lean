import ComponentLang.Proofs.Grammar.Takes
import ComponentLang.Proofs.Tree.Relabel

/-!
# Two readers side by side

Two readers are run beside each other, from states that see the same tokens. `Beside B m p q s t`
says that they end alike: what the second gives is what the first gives, changed by `m`, their
problems are the same, and their states are a pair of `B` again. The pairs may be any that the
single steps of reading respect; the nodes of the second run are those of the first, changed
by `ν`. There is one rule for each way of making a reader.
-/
namespace ComponentLang.Grammar

/-- Pairs of states with the same tokens to come. A step from a pair leads to a pair, and the node
that is made in the second state is the changed one of the first. -/
class Pairing (B : State → State → Prop) (ν : outParam (Node → Node)) : Prop where
  span (node : Node) : (ν node).span = node.span
  rest {s t : State} : B s t → t.rest = s.rest
  stop {s t : State} : B s t → t.stop = s.stop
  previous {s t : State} : B s t → t.previous = s.previous
  inHead {s t : State} : B s t → t.inHead = s.inHead
  next {s t : State} : B s t → B s.next t.next
  headed {s t : State} (inHead : Bool) : B s t → B { s with inHead } { t with inHead }
  node {s t : State} (span : Span) : B s t → ⟨t.nextId, span⟩ = ν ⟨s.nextId, span⟩
  numbered {s t : State} : B s t →
    B { s with nextId := s.nextId + 1 } { t with nextId := t.nextId + 1 }

namespace Pairing

variable {ν : Node → Node} {B : State → State → Prop} [Pairing B ν] {s t : State}

include ν

theorem peek (h : B s t) : t.peek = s.peek := by
  unfold State.peek
  rw [Pairing.rest h, Pairing.stop h]

theorem kind (h : B s t) : t.kind = s.kind := congrArg Token.kind (peek h)

theorem here (h : B s t) : t.here = s.here := congrArg Token.span (peek h)

/-- The states of a pair may differ in what stands behind the end, but before the end they tell the
same of the token after the next. -/
theorem secondKind (h : B s t) (hs : s.kind ≠ .eof) : t.secondKind = s.secondKind := by
  have ht : t.kind ≠ .eof := kind h ▸ hs
  rw [State.secondKind_eq (State.rest_ne_nil_of_kind hs),
    State.secondKind_eq (State.rest_ne_nil_of_kind ht), kind (Pairing.next h)]

/-- Whether two tokens come next of which the first is of a kind that is not that of the end. -/
theorem twoKinds (h : B s t) (first second : TokenKind) (hfirst : first ≠ .eof) :
    (t.kind = first && t.secondKind = second : Bool) =
      (s.kind = first && s.secondKind = second : Bool) := by
  rw [kind h]
  by_cases hkind : s.kind = first
  · rw [secondKind h (hkind ▸ hfirst)]
  · simp [hkind]

theorem atEnd (h : B s t) : t.atEnd = s.atEnd := by
  unfold State.atEnd
  rw [Pairing.rest h]

theorem found (h : B s t) : t.found = s.found := by
  unfold State.found
  rw [kind h, peek h]

theorem spanFrom (h : B s t) (start : Span) : t.spanFrom start = s.spanFrom start := by
  unfold State.spanFrom
  rw [Pairing.previous h]

end Pairing

namespace Parse

variable {α β γ δ : Type} {B : State → State → Prop} {ν : Node → Node} {s t : State}
variable {m : α → β} {m' : γ → δ} {p : Parse α} {q : Parse β}

theorem run_bind (p : Parse α) (f : α → Parse γ) (s : State) :
    (p >>= f).run s =
      match p.run s with
      | (.ok a, t) => (f a).run t
      | (.error e, t) => (.error e, t) := by
  simp only [run, bind, ExceptT.bind, ExceptT.mk, StateT.bind]
  rcases p s with ⟨_ | _, _⟩ <;> rfl

/-! ## Readers at one state -/

theorem get_bind (f : State → Parse γ) : (get >>= f) s = f s s := rfl

theorem peek_bind (f : Token → Parse γ) : (peek >>= f) s = f s.peek s := rfl

theorem kind_bind (f : TokenKind → Parse γ) : (kind >>= f) s = f s.kind s := rfl

theorem here_bind (f : Span → Parse γ) : (here >>= f) s = f s.here s := rfl

theorem advance_bind (f : Token → Parse γ) : (advance >>= f) s = f s.peek s.next := rfl

/-- Readers that do the same at two states do the same there with what follows them. -/
theorem bind_congr_eq {q : Parse α} {t : State} (h : p s = q t) (f : α → Parse γ) :
    (p >>= f) s = (q >>= f) t := by
  have hruns : (p >>= f).run s = (q >>= f).run t := by
    have hrun : p.run s = q.run t := h
    rw [run_bind, run_bind, hrun]
  exact hruns

theorem bind_of_eq_pure {a : α} {t : State} (h : p s = (pure a : Parse α) t)
    (f : α → Parse γ) : (p >>= f) s = f a t :=
  bind_congr_eq h f

theorem eat_bind_of_eq {token : TokenKind} (h : s.kind = token) (f : Bool → Parse γ) :
    (eat token >>= f) s = f true s.next := by
  have heat : eat token s = (pure true : Parse Bool) s.next := by
    unfold eat
    rw [get_bind, if_pos h]
    rfl
  exact bind_of_eq_pure heat f

theorem eat_bind_of_ne {token : TokenKind} (h : s.kind ≠ token) (f : Bool → Parse γ) :
    (eat token >>= f) s = f false s := by
  have heat : eat token s = (pure false : Parse Bool) s := by
    unfold eat
    rw [get_bind, if_neg h]
  exact bind_of_eq_pure heat f

theorem expect_bind {token : TokenKind} {expected : Expected} (h : s.kind = token)
    (f : Token → Parse γ) : (expect token expected >>= f) s = f s.peek s.next := by
  have hexpect : expect token expected s = (pure s.peek : Parse Token) s.next := by
    unfold expect
    rw [get_bind, if_pos h]
    rfl
  exact bind_of_eq_pure hexpect f

/-! ## Readers side by side -/

/-- Two ends of reading that are alike: both succeed, with `m` between what they give, or fail with
one problem. They leave a pair of states, with at most `n` tokens to come. -/
inductive Alike (B : State → State → Prop) (m : α → β) (n : Nat) :
    Except Problem α × State → Except Problem β × State → Prop
  | ok {s t : State} (a : α) (hst : B s t) (hn : s.rest.length ≤ n) :
      Alike B m n (.ok a, s) (.ok (m a), t)
  | error {s t : State} (e : Problem) (hst : B s t) (hn : s.rest.length ≤ n) :
      Alike B m n (.error e, s) (.error e, t)

/-- `p` at `s` and `q` at `t` end alike, and no token comes back. -/
def Beside (B : State → State → Prop) (m : α → β) (p : Parse α) (q : Parse β) (s t : State) :
    Prop :=
  Alike B m s.rest.length (p.run s) (q.run t)

theorem Alike.mono {n n' : Nat} {x : Except Problem α × State} {y : Except Problem β × State}
    (h : Alike B m n x y) (hn : n ≤ n') : Alike B m n' x y := by
  cases h with
  | ok a hst hle => exact .ok a hst (Nat.le_trans hle hn)
  | error e hst hle => exact .error e hst (Nat.le_trans hle hn)

theorem beside_pure (hst : B s t) (a : α) : Beside B m (pure a) (pure (m a)) s t :=
  .ok a hst (Nat.le_refl _)

theorem beside_throw (hst : B s t) (e : Problem) : Beside B m (throw e) (throw e) s t :=
  .error e hst (Nat.le_refl _)

/-- Two readers in a row on either side. -/
theorem beside_bind {f : α → Parse γ} {g : β → Parse δ} (hp : Beside B m p q s t)
    (hf : ∀ a s' t', B s' t' → s'.rest.length ≤ s.rest.length →
      Beside B m' (f a) (g (m a)) s' t') : Beside B m' (p >>= f) (q >>= g) s t := by
  unfold Beside at hp ⊢
  rw [run_bind, run_bind]
  generalize p.run s = x at hp
  generalize q.run t = y at hp
  cases hp with
  | ok a hst' hle => exact (hf a _ _ hst' hle).mono hle
  | error e hst' hle => exact .error e hst' hle

/-- Two readers that are known to give something good may lead from the pairs of one relation to
those of another. -/
theorem beside_bind_gives {B' : State → State → Prop} {f : α → Parse γ} {g : β → Parse δ}
    {good : α → State → Prop} {good' : β → State → Prop} (hp : Beside B m p q s t)
    (hs : Gives good p s) (ht : Gives good' q t)
    (hf : ∀ a s' t', B s' t' → good a s' → good' (m a) t' → s'.rest.length ≤ s.rest.length →
      Beside B' m' (f a) (g (m a)) s' t') : Beside B' m' (p >>= f) (q >>= g) s t := by
  unfold Beside Gives Ends at *
  rw [run_bind, run_bind]
  generalize p.run s = x at hp hs
  generalize q.run t = y at hp ht
  cases hp with
  | ok a hst' hle => exact (hf a _ _ hst' hs ht hle).mono hle
  | error e _ _ => exact hs.elim

theorem beside_map {f : α → γ} {g : β → δ} (hp : Beside B m p q s t)
    (hf : ∀ a, g (m a) = m' (f a)) : Beside B m' (f <$> p) (g <$> q) s t := by
  rw [map_eq_pure_bind, map_eq_pure_bind]
  apply beside_bind hp
  intro a s' t' hst' _
  rw [hf]
  exact beside_pure hst' (f a)

/-- One of two readers on either side, and the same after either. -/
theorem beside_ite_bind {c : Prop} [Decidable c] {p' : Parse α} {q' : Parse β}
    {f : α → Parse γ} {g : β → Parse δ} (hp : Beside B m p q s t) (hp' : Beside B m p' q' s t)
    (hf : ∀ a s' t', B s' t' → s'.rest.length ≤ s.rest.length →
      Beside B m' (f a) (g (m a)) s' t') :
    Beside B m' (if c then p >>= f else p' >>= f) (if c then q >>= g else q' >>= g) s t := by
  split
  · exact beside_bind hp hf
  · exact beside_bind hp' hf

/-- Readers that are chosen by looking at the states end as the chosen ones do. -/
theorem Beside.of_eq {p' : Parse α} {q' : Parse β} (h : Beside B m p' q' s t) (hp : p s = p' s)
    (hq : q t = q' t) : Beside B m p q s t := by
  have hrunp : p.run s = p'.run s := hp
  have hrunq : q.run t = q'.run t := hq
  unfold Beside at *
  rw [hrunp, hrunq]
  exact h

theorem beside_attempt_bind {B' : State → State → Prop} {f : Except Problem α → Parse γ}
    {g : Except Problem β → Parse δ} (hp : Beside B m p q s t)
    (hok : ∀ a s' t', B s' t' → s'.rest.length ≤ s.rest.length →
      Beside B' m' (f (.ok a)) (g (.ok (m a))) s' t')
    (herror : ∀ e s' t', B s' t' → s'.rest.length ≤ s.rest.length →
      Beside B' m' (f (.error e)) (g (.error e)) s' t') :
    Beside B' m' (attempt p >>= f) (attempt q >>= g) s t := by
  have hrunp : (attempt p).run s = (.ok (p.run s).1, (p.run s).2) := rfl
  have hrunq : (attempt q).run t = (.ok (q.run t).1, (q.run t).2) := rfl
  unfold Beside at hp ⊢
  rw [run_bind, run_bind, hrunp, hrunq]
  generalize p.run s = x at hp
  generalize q.run t = y at hp
  cases hp with
  | ok a hst' hle => exact (hok a _ _ hst' hle).mono hle
  | error e hst' hle => exact (herror e _ _ hst' hle).mono hle

/-- The turn of the second loop, from that of the first. -/
def Turn.map {β' α' : Type} (f : β → β') (g : α → α') : Turn β α → Turn β' α'
  | .again b => .again (f b)
  | .done a => .done (g a)

theorem beside_again {β' : Type} {k : δ → β'} (hst : B s t) (c : δ) :
    Beside B (Turn.map k m) (pure (.again c)) (pure (.again (k c))) s t :=
  beside_pure hst (Turn.again c)

theorem beside_done {β' : Type} {k : δ → β'} (hst : B s t) (a : α) :
    Beside B (Turn.map k m) (pure (.done a)) (pure (.done (m a))) s t :=
  beside_pure hst (Turn.done a)

/-! ## Looking at the states -/

theorem beside_get_bind {f : State → Parse γ} {g : State → Parse δ}
    (h : Beside B m' (f s) (g t) s t) : Beside B m' (get >>= f) (get >>= g) s t := h

variable [Pairing B ν]

include ν

theorem beside_peek_bind {f : Token → Parse γ} {g : Token → Parse δ} (hst : B s t)
    (h : Beside B m' (f s.peek) (g s.peek) s t) : Beside B m' (peek >>= f) (peek >>= g) s t := by
  have hends : Beside B m' (f s.peek) (g t.peek) s t := (Pairing.peek hst).symm ▸ h
  exact hends

theorem beside_kind_bind {f : TokenKind → Parse γ} {g : TokenKind → Parse δ} (hst : B s t)
    (h : Beside B m' (f s.kind) (g s.kind) s t) : Beside B m' (kind >>= f) (kind >>= g) s t := by
  have hends : Beside B m' (f s.kind) (g t.kind) s t := (Pairing.kind hst).symm ▸ h
  exact hends

theorem beside_here_bind {f : Span → Parse γ} {g : Span → Parse δ} (hst : B s t)
    (h : Beside B m' (f s.here) (g s.here) s t) : Beside B m' (here >>= f) (here >>= g) s t := by
  have hends : Beside B m' (f s.here) (g t.here) s t := (Pairing.here hst).symm ▸ h
  exact hends

theorem beside_spanFrom_bind {start : Span} {f : Span → Parse γ} {g : Span → Parse δ}
    (hst : B s t) (h : Beside B m' (f (s.spanFrom start)) (g (s.spanFrom start)) s t) :
    Beside B m' (spanFrom start >>= f) (spanFrom start >>= g) s t := by
  have hends : Beside B m' (f (s.spanFrom start)) (g (t.spanFrom start)) s t :=
    (Pairing.spanFrom hst start).symm ▸ h
  exact hends

theorem beside_fail (hst : B s t) (cause : Cause) :
    Beside B m (fail cause) (fail cause) s t := by
  have hends : Beside B m (throw (.ofSpan cause s.here)) (throw (.ofSpan cause t.here)) s t := by
    rw [Pairing.here hst]
    exact beside_throw hst _
  exact hends

theorem beside_unexpected (hst : B s t) (expected : Expected) :
    Beside B m (unexpected expected) (unexpected expected) s t := by
  have hends : Beside B m (fail (.unexpected expected s.found))
      (fail (.unexpected expected t.found)) s t := by
    rw [Pairing.found hst]
    exact beside_fail hst _
  exact hends

/-! ## Taking tokens and numbering nodes -/

theorem beside_advance_bind {f : Token → Parse γ} {g : Token → Parse δ} (hst : B s t)
    (h : B s.next t.next → Beside B m' (f s.peek) (g s.peek) s.next t.next) :
    Beside B m' (advance >>= f) (advance >>= g) s t := by
  have hle := State.length_rest_next s
  have hnext := h (Pairing.next hst)
  rw [← Pairing.peek hst] at hnext
  have hends : Beside B m' (advance >>= fun _ => f t.peek) (advance >>= g) s t :=
    hnext.mono (by omega)
  rw [Pairing.peek hst] at hends
  exact hends

theorem beside_eat_bind {kind : TokenKind} {f : Bool → Parse γ} {g : Bool → Parse δ}
    (hst : B s t)
    (htaken : s.kind = kind → B s.next t.next → Beside B m' (f true) (g true) s.next t.next)
    (hleft : s.kind ≠ kind → Beside B m' (f false) (g false) s t) :
    Beside B m' (eat kind >>= f) (eat kind >>= g) s t := by
  have hkind := Pairing.kind hst
  have hle := State.length_rest_next s
  unfold eat
  rw [bind_assoc, bind_assoc]
  apply beside_get_bind
  rw [hkind]
  split
  next h => exact (htaken h (Pairing.next hst)).mono (by omega)
  next h => exact hleft h

/-- Both take the next token or both leave it. -/
theorem beside_eat {kind : TokenKind} (hst : B s t) : Beside B id (eat kind) (eat kind) s t := by
  rw [← bind_pure (eat kind)]
  apply beside_eat_bind hst
  · intro _ hnext
    exact beside_pure hnext true
  · intro _
    exact beside_pure hst false

/-- The next token is taken and the readers go on with `p` and `q`, or they go on with `p'` and
`q'`. -/
theorem beside_eat_if {kind : TokenKind} {p' : Parse α} {q' : Parse β} (hst : B s t)
    (htaken : s.kind = kind → B s.next t.next → Beside B m p q s.next t.next)
    (hleft : s.kind ≠ kind → Beside B m p' q' s t) :
    Beside B m (eat kind >>= fun taken => if taken = true then p else p')
      (eat kind >>= fun taken => if taken = true then q else q') s t :=
  beside_eat_bind hst (fun h hnext => by simpa using htaken h hnext) fun h => by
    simpa using hleft h

theorem beside_expect_bind {kind : TokenKind} {expected : Expected} {f : Token → Parse γ}
    {g : Token → Parse δ} (hst : B s t)
    (h : s.kind = kind → B s.next t.next → Beside B m' (f s.peek) (g s.peek) s.next t.next) :
    Beside B m' (expect kind expected >>= f) (expect kind expected >>= g) s t := by
  unfold expect
  rw [bind_assoc, bind_assoc]
  apply beside_get_bind
  rw [Pairing.kind hst]
  split
  next hkind => exact beside_advance_bind hst (h hkind)
  next => exact (beside_unexpected hst expected).of_eq rfl rfl

theorem beside_expectIdentifier_bind {expected : Expected} {f : String → Parse γ}
    {g : String → Parse δ} (hst : B s t)
    (h : s.kind = .identifier → B s.next t.next →
      Beside B m' (f s.peek.lexeme) (g s.peek.lexeme) s.next t.next) :
    Beside B m' (expectIdentifier expected >>= f) (expectIdentifier expected >>= g) s t := by
  unfold expectIdentifier
  rw [bind_assoc, bind_assoc]
  exact beside_expect_bind hst h

theorem beside_node_bind {span : Span} {f : Node → Parse γ} {g : Node → Parse δ} (hst : B s t)
    (h : ∀ node s' t', B s' t' → s'.rest = s.rest →
      Beside B m' (f node) (g (ν node)) s' t') :
    Beside B m' (node span >>= f) (node span >>= g) s t := by
  have hends := h ⟨s.nextId, span⟩ _ _ (Pairing.numbered hst) rfl
  rw [← Pairing.node span hst] at hends
  exact hends

/-! ## Readers made from readers -/

theorem beside_withHead {inHead : Bool} (hst : B s t)
    (h : B { s with inHead } { t with inHead } →
      Beside B m p q { s with inHead } { t with inHead }) :
    Beside B m (withHead inHead p) (withHead inHead q) s t := by
  have hends := h (Pairing.headed inHead hst)
  have hhead := Pairing.inHead hst
  unfold Beside at *
  have hrunp : (withHead inHead p).run s = ((p.run { s with inHead }).1,
      { (p.run { s with inHead }).2 with inHead := s.inHead }) := rfl
  have hrunq : (withHead inHead q).run t = ((q.run { t with inHead }).1,
      { (q.run { t with inHead }).2 with inHead := t.inHead }) := rfl
  rw [hrunp, hrunq, hhead]
  generalize p.run { s with inHead } = x at hends
  generalize q.run { t with inHead } = y at hends
  cases hends with
  | ok a hst' hle => exact .ok a (Pairing.headed _ hst') hle
  | error e hst' hle => exact .error e (Pairing.headed _ hst') hle

theorem beside_nested (hst : B s t)
    (h : B { s with inHead := false } { t with inHead := false } →
      Beside B m p q { s with inHead := false } { t with inHead := false }) :
    Beside B m (nested p) (nested q) s t :=
  beside_withHead hst h

/-- One of two readers after the next token is looked at, and the same after either. -/
theorem beside_eat_ite_bind {kind : TokenKind} {p' : Parse α} {q' : Parse β} {f : α → Parse γ}
    {g : β → Parse δ} (hst : B s t)
    (hp : s.kind = kind → B s.next t.next → Beside B m p q s.next t.next)
    (hp' : Beside B m p' q' s t)
    (hf : ∀ a s' t', B s' t' → s'.rest.length ≤ s.rest.length →
      Beside B m' (f a) (g (m a)) s' t') :
    Beside B m' (eat kind >>= fun taken => if taken = true then p >>= f else p' >>= f)
      (eat kind >>= fun taken => if taken = true then q >>= g else q' >>= g) s t := by
  have hle := State.length_rest_next s
  apply beside_eat_if hst
  · intro hkind hnext
    apply beside_bind (hp hkind hnext)
    intro a s' t' hst' hle'
    exact hf a s' t' hst' (by omega)
  · intro _
    exact beside_bind hp' hf

/-! ## Loops -/

theorem beside_iterateFor {β' : Type} {k : γ → β'} {turn : γ → Parse (Turn γ α)}
    {turn' : β' → Parse (Turn β' β)} (n : Nat)
    (hturn : ∀ c s' t', B s' t' → s'.rest.length ≤ n →
      Beside B (Turn.map k m) (turn c) (turn' (k c)) s' t')
    (turns : Nat) (c : γ) (hst : B s t) (hn : s.rest.length ≤ n) :
    Beside B m (iterateFor turn turns c) (iterateFor turn' turns (k c)) s t := by
  induction turns generalizing c s t with
  | zero => exact beside_fail hst _
  | succ turns ih =>
      unfold iterateFor
      apply beside_bind (hturn c s t hst hn)
      intro turned s' t' hst' hle
      cases turned with
      | again c => exact ih c hst' (by omega)
      | done a => exact beside_pure hst' a

/-- Two loops whose turns end alike end alike. -/
theorem beside_iterate {β' : Type} {k : γ → β'} {turn : γ → Parse (Turn γ α)}
    {turn' : β' → Parse (Turn β' β)} (hst : B s t)
    (hturn : ∀ c s' t', B s' t' → s'.rest.length ≤ s.rest.length →
      Beside B (Turn.map k m) (turn c) (turn' (k c)) s' t') (c : γ) :
    Beside B m (iterate turn c) (iterate turn' (k c)) s t := by
  have hloops := beside_iterateFor _ hturn (s.rest.length + 1) c hst (Nat.le_refl _)
  have hends : Beside B m (iterateFor turn (s.rest.length + 1) c)
      (iterateFor turn' (t.rest.length + 1) (k c)) s t := by
    rw [Pairing.rest hst]
    exact hloops
  exact hends

theorem beside_commaSeparated {close : TokenKind} (hst : B s t)
    (hitem : ∀ s' t', B s' t' → s'.rest.length ≤ s.rest.length → Beside B m p q s' t') :
    Beside B (List.map m) (commaSeparated close p) (commaSeparated close q) s t := by
  unfold commaSeparated
  apply beside_iterate (k := List.map m) hst
  intro items s' t' hst' hle
  apply beside_get_bind
  rw [Pairing.kind hst', Pairing.atEnd hst']
  split
  · exact beside_done hst' items
  · apply beside_bind (hitem s' t' hst' hle)
    intro a u v huv _
    have hconcat : items.map m ++ [m a] = (items ++ [a]).map m := by simp
    rw [hconcat]
    apply beside_eat_if huv
    · intro _ hnext
      exact beside_again hnext (items ++ [a])
    · intro _
      exact beside_done huv (items ++ [a])

end Parse
end ComponentLang.Grammar
