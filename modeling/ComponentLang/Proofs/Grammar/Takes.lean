import ComponentLang.Grammar.Parse

/-!
# What a reader does to the state

Readers are followed by a relation between the state before them and the state after them, which
may be any relation that the single steps of a reader respect. `Takes` says that a reader keeps to
it whether it succeeds or fails, that what it gives is as described, and that its problem is not
the bound of a loop or of a recursion. There is one lemma for each way of making a reader, and the
lemmas about the grammar apply them in the order in which the reader itself is written.
-/
namespace ComponentLang.Grammar

/-- A relation that the single steps of reading respect and that never goes back. -/
class Travel (R : State → State → Prop) : Prop where
  refl (s : State) : R s s
  trans {s t u : State} : R s t → R t u → R s u
  next (s : State) : R s s.next
  numbered (s : State) (nextId : Nat) : R s { s with nextId }
  headed (s : State) (inHead : Bool) : R s { s with inHead }
  shrinks {s t : State} : R s t → t.rest.length ≤ s.rest.length

namespace State

theorem kind_of_nil {s : State} (h : s.rest = []) : s.kind = .eof := by
  unfold kind peek
  rw [h]
  rfl

theorem rest_ne_nil_of_kind {s : State} (h : s.kind ≠ .eof) : s.rest ≠ [] :=
  fun hnil => h (kind_of_nil hnil)

theorem length_pos_of_kind {s : State} (h : s.kind ≠ .eof) : 0 < s.rest.length :=
  List.length_pos_iff.2 (rest_ne_nil_of_kind h)

/-- Before the end of the input, the token after the next is the next one once that is taken. -/
theorem secondKind_eq {s : State} (h : s.rest ≠ []) : s.secondKind = s.next.kind := by
  unfold secondKind kind peek next
  cases hrest : s.rest with
  | nil => exact absurd hrest h
  | cons first rest => cases rest <;> rfl

theorem next_kind_of_second {s : State} {second : TokenKind} (hkind : s.kind ≠ .eof)
    (hsecond : s.secondKind = second) : s.next.kind = second := by
  rw [← secondKind_eq (rest_ne_nil_of_kind hkind), hsecond]

theorem length_next_lt {s : State} (h : s.kind ≠ .eof) :
    s.next.rest.length < s.rest.length := by
  have hpos := length_pos_of_kind h
  rw [length_rest_next]
  omega

@[simp] theorem atEnd_iff {s : State} : s.atEnd = true ↔ s.rest = [] := by
  simp [atEnd]

theorem length_pos_of_not_atEnd {s : State} (h : ¬ s.atEnd = true) : 0 < s.rest.length := by
  rw [List.length_pos_iff]
  intro hnil
  exact h (atEnd_iff.2 hnil)

end State

namespace Parse

variable {α β : Type} {s : State}

/-! ## How a reader ends -/

/-- `p` ends at `s` with a value and a state that are `good`, or with a problem and a state that
are `bad`. -/
def Ends (good : α → State → Prop) (bad : Problem → State → Prop) (p : Parse α) (s : State) :
    Prop :=
  match p.run s with
  | (.ok a, t) => good a t
  | (.error e, t) => bad e t

/-- `p` succeeds at `s`, with a value and a state that are `good`. -/
abbrev Gives (good : α → State → Prop) (p : Parse α) (s : State) : Prop :=
  Ends good (fun _ _ => False) p s

variable {good : α → State → Prop} {bad : Problem → State → Prop}

@[simp] theorem ends_pure (a : α) : Ends good bad (pure a) s ↔ good a s := Iff.rfl

@[simp] theorem ends_throw (e : Problem) : Ends good bad (throw e) s ↔ bad e s := Iff.rfl

theorem ends_bind {p : Parse β} {f : β → Parse α} :
    Ends good bad (p >>= f) s ↔ Ends (fun b t => Ends good bad (f b) t) bad p s := by
  have hbind : (p >>= f).run s =
      match p.run s with
      | (.ok b, t) => (f b).run t
      | (.error e, t) => (.error e, t) := by
    simp only [run, bind, ExceptT.bind, ExceptT.mk, StateT.bind]
    rcases p s with ⟨_ | _, _⟩ <;> rfl
  unfold Ends
  rw [hbind]
  rcases p.run s with ⟨_ | _, _⟩ <;> rfl

@[simp] theorem ends_get_bind {f : State → Parse α} :
    Ends good bad (get >>= f) s ↔ Ends good bad (f s) s := Iff.rfl

@[simp] theorem ends_kind_bind {f : TokenKind → Parse α} :
    Ends good bad (kind >>= f) s ↔ Ends good bad (f s.kind) s := Iff.rfl

@[simp] theorem ends_here_bind {f : Span → Parse α} :
    Ends good bad (here >>= f) s ↔ Ends good bad (f s.here) s := Iff.rfl

@[simp] theorem ends_advance_bind {f : Token → Parse α} :
    Ends good bad (advance >>= f) s ↔ Ends good bad (f s.peek) s.next := Iff.rfl

@[simp] theorem ends_modify_bind {change : State → State} {f : PUnit → Parse α} :
    Ends good bad ((modify change : Parse PUnit) >>= f) s ↔ Ends good bad (f ⟨⟩) (change s) :=
  Iff.rfl

theorem ends_eat_bind {kind : TokenKind} {f : Bool → Parse α} :
    Ends good bad (eat kind >>= f) s ↔
      if s.kind = kind then Ends good bad (f true) s.next else Ends good bad (f false) s := by
  unfold eat
  rw [bind_assoc, ends_get_bind]
  split
  · rw [bind_assoc]
    exact Iff.rfl
  · exact Iff.rfl

theorem Ends.mono {good' : α → State → Prop} {bad' : Problem → State → Prop} {p : Parse α}
    (h : Ends good bad p s) (hgood : ∀ a t, good a t → good' a t)
    (hbad : ∀ e t, bad e t → bad' e t) : Ends good' bad' p s := by
  unfold Ends at *
  split <;> simp_all

/-- How a reader ends can be said in two ways at once. -/
theorem Ends.and {good' : α → State → Prop} {bad' : Problem → State → Prop} {p : Parse α}
    (h : Ends good bad p s) (h' : Ends good' bad' p s) :
    Ends (fun a t => good a t ∧ good' a t) (fun e t => bad e t ∧ bad' e t) p s := by
  unfold Ends at *
  split <;> simp_all

theorem Gives.mono {good' : α → State → Prop} {p : Parse α} (h : Gives good p s)
    (hgood : ∀ a t, good a t → good' a t) : Gives good' p s :=
  Ends.mono h hgood fun _ _ hfalse => hfalse

theorem Gives.exists_ok {p : Parse α} (h : Gives good p s) :
    ∃ a, (p.run s).1 = .ok a ∧ good a (p.run s).2 := by
  unfold Gives Ends at h
  split at h
  next a t hrun => exact ⟨a, by rw [hrun], by rw [hrun]; exact h⟩
  next => exact h.elim

theorem Ends.good_of_ok {p : Parse α} {a : α} (h : Ends good bad p s)
    (hok : (p.run s).1 = .ok a) : good a (p.run s).2 := by
  unfold Ends at h
  split at h
  next b t hrun =>
    rw [hrun] at hok ⊢
    cases hok
    exact h
  next e t hrun =>
    rw [hrun] at hok
    cases hok

theorem ends_withHead {inHead : Bool} {p : Parse α} :
    Ends good bad (withHead inHead p) s ↔
      Ends (fun a t => good a { t with inHead := s.inHead })
        (fun e t => bad e { t with inHead := s.inHead }) p { s with inHead } := by
  have hrun : (withHead inHead p).run s = ((p.run { s with inHead }).1,
      { (p.run { s with inHead }).2 with inHead := s.inHead }) := rfl
  unfold Ends
  rw [hrun]
  rcases p.run { s with inHead } with ⟨_ | _, _⟩ <;> exact Iff.rfl

theorem ends_attempt {good : Except Problem α → State → Prop} {p : Parse α} :
    Ends good bad (attempt p) s ↔
      Ends (fun a t => good (.ok a) t) (fun e t => good (.error e) t) p s := by
  have hrun : (attempt p).run s = (.ok (p.run s).1, (p.run s).2) := rfl
  unfold Ends
  rw [hrun]
  rcases p.run s with ⟨_ | _, _⟩ <;> exact Iff.rfl

theorem ends_attempt_bind {goodB : β → State → Prop} {badB : Problem → State → Prop}
    {p : Parse β} {f : Except Problem β → Parse α} (hp : Ends goodB badB p s)
    (hok : ∀ b t, goodB b t → Ends good bad (f (.ok b)) t)
    (herror : ∀ e t, badB e t → Ends good bad (f (.error e)) t) :
    Ends good bad (attempt p >>= f) s := by
  rw [ends_bind, ends_attempt]
  exact hp.mono hok herror

/-- A loop keeps an invariant of the states between its turns. Every turn but the last takes a
token, so a bound beyond the number of tokens is never what ends the loop. -/
theorem ends_iterateFor {I : State → Prop} {turn : β → Parse (Turn β α)}
    (hturn : ∀ b t, I t → Ends (fun r u => match r with
      | .again _ => I u ∧ u.rest.length < t.rest.length
      | .done a => good a u) bad (turn b) t)
    {turns : Nat} (hturns : s.rest.length < turns) (b : β) (h : I s) :
    Ends good bad (iterateFor turn turns b) s := by
  induction turns generalizing b s with
  | zero => omega
  | succ turns ih =>
      unfold iterateFor
      rw [ends_bind]
      refine (hturn b s h).mono ?_ fun _ _ hbad => hbad
      intro r u hu
      match r, hu with
      | .again b, ⟨hI, hless⟩ => exact ih (by omega) b hI
      | .done a, hdone => exact hdone

theorem ends_iterate {I : State → Prop} {turn : β → Parse (Turn β α)}
    (hturn : ∀ b t, I t → Ends (fun r u => match r with
      | .again _ => I u ∧ u.rest.length < t.rest.length
      | .done a => good a u) bad (turn b) t)
    (b : β) (h : I s) : Ends good bad (iterate turn b) s :=
  ends_iterateFor hturn (Nat.lt_succ_self _) b h

/-! ## Readers along a relation -/

variable {R : State → State → Prop} {Q : α → State → Prop}

/-- `p` keeps to `R` at `s`, what it gives satisfies `Q`, and no bound stops it. -/
def Takes (R : State → State → Prop) (Q : α → State → Prop) (p : Parse α) (s : State) : Prop :=
  Ends (fun a t => R s t ∧ Q a t) (fun e t => R s t ∧ e.cause ≠ .iterationLimit) p s

/-- `p` keeps to `R` at `s`. -/
abbrev Skims (R : State → State → Prop) (p : Parse α) (s : State) : Prop :=
  Takes R (fun _ _ => True) p s

/-- `p` keeps to `R` wherever fewer than `m` tokens are to come. -/
abbrev SkimsBelow (R : State → State → Prop) (m : Nat) (p : Parse α) : Prop :=
  ∀ t : State, t.rest.length < m → Skims R p t

/-- `p` keeps to `R` at `s` and takes a token when it succeeds. -/
abbrev Reads (R : State → State → Prop) (p : Parse α) (s : State) : Prop :=
  Takes R (fun _ t => t.rest.length < s.rest.length) p s

/-- After a turn that another follows there are fewer than `n` tokens to come, and the last turn
gives what satisfies `Q`. -/
def Onward (n : Nat) (Q : α → State → Prop) : Turn β α → State → Prop
  | .again _, t => t.rest.length < n
  | .done a, t => Q a t

@[simp] theorem onward_again {n : Nat} {b : β} {t : State} :
    Onward n Q (.again b : Turn β α) t ↔ t.rest.length < n := Iff.rfl

@[simp] theorem onward_done {n : Nat} {a : α} {t : State} :
    Onward n Q (.done a : Turn β α) t ↔ Q a t := Iff.rfl

/-- The turn `p` of a loop keeps to `R` at `s` and takes a token if another turn follows it. -/
abbrev Turns (R : State → State → Prop) (p : Parse (Turn β α)) (s : State) : Prop :=
  Takes R (Onward s.rest.length fun _ _ => True) p s

theorem SkimsBelow.mono {m m' : Nat} {p : Parse α} (h : SkimsBelow R m p) (hm : m' ≤ m) :
    SkimsBelow R m' p :=
  fun t ht => h t (Nat.lt_of_lt_of_le ht hm)

/-- Whatever a reader is known to give, it keeps to the relation. -/
theorem Takes.skims {p : Parse α} (h : Takes R Q p s) : Skims R p s :=
  Ends.mono h (fun _ _ ⟨hR, _⟩ => ⟨hR, trivial⟩) fun _ _ hbad => hbad

/-- A reader that is chosen by looking at the state does there what the chosen one does. -/
theorem Takes.of_eq {p q : Parse α} (h : Takes R Q q s) (heq : p s = q s) : Takes R Q p s := by
  have hrun : p.run s = q.run s := heq
  unfold Takes Ends at *
  rw [hrun]
  exact h

/-! ## Looking at the state -/

@[simp] theorem takes_get_bind {f : State → Parse α} :
    Takes R Q (get >>= f) s ↔ Takes R Q (f s) s := Iff.rfl

@[simp] theorem takes_peek_bind {f : Token → Parse α} :
    Takes R Q (peek >>= f) s ↔ Takes R Q (f s.peek) s := Iff.rfl

@[simp] theorem takes_kind_bind {f : TokenKind → Parse α} :
    Takes R Q (kind >>= f) s ↔ Takes R Q (f s.kind) s := Iff.rfl

@[simp] theorem takes_here_bind {f : Span → Parse α} :
    Takes R Q (here >>= f) s ↔ Takes R Q (f s.here) s := Iff.rfl

@[simp] theorem takes_spanFrom_bind {start : Span} {f : Span → Parse α} :
    Takes R Q (spanFrom start >>= f) s ↔ Takes R Q (f (s.spanFrom start)) s := Iff.rfl

@[simp] theorem takes_pure_bind {a : β} {f : β → Parse α} :
    Takes R Q (pure a >>= f) s ↔ Takes R Q (f a) s := Iff.rfl

@[simp] theorem takes_map {p : Parse β} {f : β → α} :
    Takes R Q (f <$> p) s ↔ Takes R (fun b t => Q (f b) t) p s := by
  rw [map_eq_pure_bind]
  unfold Takes
  rw [ends_bind]
  exact Iff.rfl

theorem skims_map {p : Parse β} {f : β → α} (h : Skims R p s) : Skims R (f <$> p) s :=
  takes_map.2 h

/-! ## Keeping to the relation -/

variable [Travel R]

@[simp] theorem takes_pure {a : α} : Takes R Q (pure a) s ↔ Q a s := by
  simp [Takes, Travel.refl]

@[simp] theorem takes_throw {e : Problem} :
    Takes R Q (throw e : Parse α) s ↔ e.cause ≠ .iterationLimit := by
  simp [Takes, Travel.refl]

/-- What keeps to the relation from a later state on does so from an earlier one. -/
theorem takes_from {p : Parse α} {t : State} (hst : R s t) (h : Takes R Q p t) :
    Ends (fun a u => R s u ∧ Q a u) (fun e u => R s u ∧ e.cause ≠ .iterationLimit) p t :=
  Ends.mono h (fun _ _ ⟨hR, hQ⟩ => ⟨Travel.trans hst hR, hQ⟩)
    fun _ _ ⟨hR, hcause⟩ => ⟨Travel.trans hst hR, hcause⟩

/-- Two readers in a row keep to the relation if each of them does. -/
theorem takes_bind {P : β → State → Prop} {p : Parse β} {f : β → Parse α}
    (hp : Takes R P p s) (hf : ∀ b t, R s t → P b t → Takes R Q (f b) t) :
    Takes R Q (p >>= f) s := by
  unfold Takes
  rw [ends_bind]
  refine Ends.mono hp ?_ fun _ _ hbad => hbad
  intro b t ⟨hst, hP⟩
  exact takes_from hst (hf b t hst hP)

theorem takes_seq {p : Parse β} {f : β → Parse α}
    (h : Takes R (fun b t => Takes R Q (f b) t) p s) : Takes R Q (p >>= f) s :=
  takes_bind h fun _ _ _ hf => hf

@[simp] theorem takes_spanFrom {Q : Span → State → Prop} {start : Span} :
    Takes R Q (spanFrom start) s ↔ Q (s.spanFrom start) s := takes_pure

@[simp] theorem takes_fail {cause : Cause} :
    Takes R Q (fail cause : Parse α) s ↔ cause ≠ .iterationLimit := by
  unfold fail
  rw [takes_get_bind, takes_throw]
  exact Iff.rfl

@[simp] theorem takes_unexpected {expected : Expected} :
    Takes R Q (unexpected expected : Parse α) s := by
  unfold unexpected
  rw [takes_get_bind, takes_fail]
  simp

/-! ## Taking tokens -/

@[simp] theorem takes_advance {Q : Token → State → Prop} :
    Takes R Q advance s ↔ Q s.peek s.next :=
  and_iff_right (Travel.next s)

@[simp] theorem takes_node {Q : Node → State → Prop} {span : Span} :
    Takes R Q (node span) s ↔ Q ⟨s.nextId, span⟩ { s with nextId := s.nextId + 1 } :=
  and_iff_right (Travel.numbered s _)

@[simp] theorem takes_eat {Q : Bool → State → Prop} {kind : TokenKind} :
    Takes R Q (eat kind) s ↔ if s.kind = kind then Q true s.next else Q false s := by
  unfold eat
  rw [takes_get_bind]
  split
  · exact and_iff_right (Travel.next s)
  · exact takes_pure

theorem skims_eat {kind : TokenKind} : Skims R (eat kind) s := by
  simp

@[simp] theorem takes_expect {Q : Token → State → Prop} {kind : TokenKind}
    {expected : Expected} :
    Takes R Q (expect kind expected) s ↔ (s.kind = kind → Q s.peek s.next) := by
  unfold expect
  rw [takes_get_bind]
  split
  next hkind => simp [hkind]
  next hkind => simp [hkind]

@[simp] theorem takes_expectIdentifier {Q : String → State → Prop} {expected : Expected} :
    Takes R Q (expectIdentifier expected) s ↔
      (s.kind = .identifier → Q s.peek.lexeme s.next) := by
  unfold expectIdentifier
  simp

theorem takes_advance_bind {f : Token → Parse α} (h : Takes R Q (f s.peek) s.next) :
    Takes R Q (advance >>= f) s :=
  takes_seq (takes_advance.2 h)

theorem takes_node_bind {span : Span} {f : Node → Parse α}
    (h : Takes R Q (f ⟨s.nextId, span⟩) { s with nextId := s.nextId + 1 }) :
    Takes R Q (node span >>= f) s :=
  takes_seq (takes_node.2 h)

theorem takes_expect_bind {kind : TokenKind} {expected : Expected} {f : Token → Parse α}
    (h : s.kind = kind → Takes R Q (f s.peek) s.next) :
    Takes R Q (expect kind expected >>= f) s :=
  takes_seq (takes_expect.2 h)

theorem takes_expectIdentifier_bind {expected : Expected} {f : String → Parse α}
    (h : s.kind = .identifier → Takes R Q (f s.peek.lexeme) s.next) :
    Takes R Q (expectIdentifier expected >>= f) s :=
  takes_seq (takes_expectIdentifier.2 h)

theorem takes_eat_bind {kind : TokenKind} {f : Bool → Parse α}
    (htaken : s.kind = kind → Takes R Q (f true) s.next)
    (hleft : s.kind ≠ kind → Takes R Q (f false) s) : Takes R Q (eat kind >>= f) s := by
  apply takes_seq
  rw [takes_eat]
  split
  next hkind => exact htaken hkind
  next hkind => exact hleft hkind

/-- The next token is taken and the reader goes on with `p`, or it goes on with `q`. -/
theorem takes_eat_if {kind : TokenKind} {p q : Parse α}
    (htaken : s.kind = kind → Takes R Q p s.next)
    (hleft : s.kind ≠ kind → Takes R Q q s) :
    Takes R Q (eat kind >>= fun taken => if taken = true then p else q) s :=
  takes_eat_bind (fun h => by simpa using htaken h) fun h => by simpa using hleft h

/-! ## Readers made from readers -/

/-- One of two readers, and the same after either. -/
theorem takes_ite_bind {c : Prop} [Decidable c] {P : β → State → Prop} {p q : Parse β}
    {f : β → Parse α} (hp : Takes R P p s) (hq : Takes R P q s)
    (hf : ∀ b t, R s t → P b t → Takes R Q (f b) t) :
    Takes R Q (if c then p >>= f else q >>= f) s := by
  split
  · exact takes_bind hp hf
  · exact takes_bind hq hf

/-- One of two readers after the next token is looked at, and the same after either. -/
theorem takes_eat_ite_bind {kind : TokenKind} {P : β → State → Prop} {p q : Parse β}
    {f : β → Parse α} (hp : s.kind = kind → Takes R P p s.next) (hq : Takes R P q s)
    (hf : ∀ b t, R s t → P b t → Takes R Q (f b) t) :
    Takes R Q (eat kind >>= fun taken => if taken = true then p >>= f else q >>= f) s := by
  apply takes_eat_if
  · intro hkind
    apply takes_bind (hp hkind)
    intro b t hst hP
    exact hf b t (Travel.trans (Travel.next s) hst) hP
  · intro _
    exact takes_bind hq hf

theorem takes_withHead {inHead : Bool} {p : Parse α}
    (h : Takes R (fun a t => Q a { t with inHead := s.inHead }) p { s with inHead }) :
    Takes R Q (withHead inHead p) s := by
  have hfrom := takes_from (Travel.headed s inHead) h
  unfold Takes
  rw [ends_withHead]
  apply Ends.mono hfrom
  · rintro a t ⟨hst, hQ⟩
    exact ⟨Travel.trans hst (Travel.headed t _), hQ⟩
  · rintro e t ⟨hst, hcause⟩
    exact ⟨Travel.trans hst (Travel.headed t _), hcause⟩

theorem skims_nested {p : Parse α} (h : Skims R p { s with inHead := false }) :
    Skims R (nested p) s :=
  takes_withHead h

theorem takes_attempt_bind {P : β → State → Prop} {p : Parse β}
    {f : Except Problem β → Parse α} (hp : Takes R P p s)
    (hok : ∀ b t, R s t → P b t → Takes R Q (f (.ok b)) t)
    (herror : ∀ e t, R s t → e.cause ≠ .iterationLimit → Takes R Q (f (.error e)) t) :
    Takes R Q (attempt p >>= f) s := by
  apply ends_attempt_bind hp
  · intro b t ⟨hst, hP⟩
    exact takes_from hst (hok b t hst hP)
  · intro e t ⟨hst, hcause⟩
    exact takes_from hst (herror e t hst hcause)

/-- A loop keeps to the relation if each of its turns does, and if every turn after which there
is another takes a token. -/
theorem takes_iterate {turn : β → Parse (Turn β α)}
    (hturn : ∀ b t, R s t → Takes R (Onward t.rest.length Q) (turn b) t) (b : β) :
    Takes R Q (iterate turn b) s := by
  refine ends_iterate (I := R s) ?_ b (Travel.refl s)
  intro b t hst
  refine (takes_from hst (hturn b t hst)).mono ?_ fun _ _ hbad => hbad
  intro r u ⟨hsu, honward⟩
  match r, honward with
  | .again b, hless => exact ⟨hsu, hless⟩
  | .done _, hdone => exact ⟨hsu, hdone⟩

theorem skims_iterate {turn : β → Parse (Turn β α)}
    (hturn : ∀ b t, R s t → Turns R (turn b) t) (b : β) : Skims R (iterate turn b) s :=
  takes_iterate hturn b

theorem skims_commaSeparated {close : TokenKind} {item : Parse α}
    (hitem : ∀ t, R s t → Skims R item t) : Skims R (commaSeparated close item) s := by
  unfold commaSeparated
  apply skims_iterate
  intro items t hst
  simp only [takes_get_bind]
  split
  · simp
  · apply takes_bind (hitem t hst)
    intro a u htu _
    apply takes_eat_if
    · intro hcomma
      have hless := State.length_next_lt (s := u) (by simp [hcomma])
      have hle := Travel.shrinks htu
      rw [takes_pure, onward_again]
      omega
    · simp

end Parse
end ComponentLang.Grammar
