import ComponentLang.Grammar.Block
import ComponentLang.Proofs.Grammar.Takes

/-!
# The turns of statement loops

A statement loop counts a turn only when there are fewer tokens to come than when the turn began,
and the loops within the turn begin theirs in between. No two turns therefore begin at one place.
A turn reports at most one problem, and a problem is reported only in a turn.
-/
namespace ComponentLang.Grammar

open Parse

namespace State

/-- The turns counted so far, when at most `n` tokens were to come at the start: they began at
different places that all lie behind, and every problem reported belongs to one of them. -/
structure Paced (n : Nat) (s : State) : Prop where
  within : s.rest.length ≤ n
  limited : n ≤ s.iterationLimit
  counted : s.iterations = s.turns.length
  distinct : s.turns.Nodup
  behind : ∀ b ∈ s.turns, s.rest.length < b ∧ b ≤ n
  reported : s.diagnostics.length ≤ s.turns.length
  unlimited : ∀ d ∈ s.diagnostics, d.message ≠ Cause.iterationLimit.message

/-- The second state may come after the first: no token comes back, and what is counted and reported
stays so. -/
structure Follows (s t : State) : Prop where
  rest : t.rest <:+ s.rest
  iterations : s.iterations ≤ t.iterations
  turns : s.turns <:+ t.turns
  diagnostics : s.diagnostics <:+ t.diagnostics

/-- Only tokens are taken and nodes numbered. -/
structure Drops (s t : State) : Prop where
  rest : t.rest <:+ s.rest
  iterations : t.iterations = s.iterations
  iterationLimit : t.iterationLimit = s.iterationLimit
  turns : t.turns = s.turns
  diagnostics : t.diagnostics = s.diagnostics

/-- The turns counted between the two states began with fewer than `slack` more tokens to come than
there are in the first, and the account of turns stays in order. -/
structure Moves (n slack : Nat) (s t : State) : Prop extends Follows s t where
  since : ∀ b ∈ t.turns, b ∈ s.turns ∨ b < s.rest.length + slack
  paced : s.Paced n → t.Paced n

theorem suffix_next (s : State) : s.next.rest <:+ s.rest := by
  unfold next
  split
  next t rest hrest => simp [hrest]
  next => exact List.suffix_refl _

theorem Follows.trans {s t u : State} (h : Follows s t) (h' : Follows t u) : Follows s u where
  rest := h'.rest.trans h.rest
  iterations := Nat.le_trans h.iterations h'.iterations
  turns := h.turns.trans h'.turns
  diagnostics := h.diagnostics.trans h'.diagnostics

instance : Travel Drops where
  refl s := ⟨List.suffix_refl _, rfl, rfl, rfl, rfl⟩
  trans h h' := {
    rest := h'.rest.trans h.rest
    iterations := h'.iterations.trans h.iterations
    iterationLimit := h'.iterationLimit.trans h.iterationLimit
    turns := h'.turns.trans h.turns
    diagnostics := h'.diagnostics.trans h.diagnostics }
  next s := by
    constructor
    · exact s.suffix_next
    all_goals
      unfold next
      split <;> rfl
  numbered s _ := ⟨List.suffix_refl _, rfl, rfl, rfl, rfl⟩
  headed s _ := ⟨List.suffix_refl _, rfl, rfl, rfl, rfl⟩
  shrinks h := h.rest.length_le

variable {n slack : Nat} {s t u : State}

theorem Drops.paced (h : Drops s t) (hs : s.Paced n) : t.Paced n := by
  have hle := h.rest.length_le
  constructor
  · have hwithin := hs.within
    omega
  · rw [h.iterationLimit]
    exact hs.limited
  · rw [h.iterations, h.turns]
    exact hs.counted
  · rw [h.turns]
    exact hs.distinct
  · rw [h.turns]
    intro b hb
    have hbehind := hs.behind b hb
    omega
  · rw [h.diagnostics, h.turns]
    exact hs.reported
  · rw [h.diagnostics]
    exact hs.unlimited

theorem Drops.follows (h : Drops s t) : Follows s t where
  rest := h.rest
  iterations := Nat.le_of_eq h.iterations.symm
  turns := h.turns ▸ List.suffix_refl _
  diagnostics := h.diagnostics ▸ List.suffix_refl _

theorem Drops.moves (h : Drops s t) : Moves n slack s t where
  toFollows := h.follows
  since b hb := by
    rw [h.turns] at hb
    exact .inl hb
  paced := h.paced

theorem Moves.trans (h : Moves n slack s t) (h' : Moves n slack t u) : Moves n slack s u where
  toFollows := h.toFollows.trans h'.toFollows
  since b hb := by
    have hle := h.rest.length_le
    rcases h'.since b hb with hb | hb
    · exact h.since b hb
    · right
      omega
  paced hs := h'.paced (h.paced hs)

instance : Travel (Moves n slack) where
  refl s := (Travel.refl (R := Drops) s).moves
  trans := Moves.trans
  next s := (Travel.next (R := Drops) s).moves
  numbered s nextId := (Travel.numbered (R := Drops) s nextId).moves
  headed s inHead := (Travel.headed (R := Drops) s inHead).moves
  shrinks h := h.rest.length_le

/-- Once a token is taken, a loop of statements may begin where the next one stands. -/
theorem Moves.strict (h : Moves n 0 s t) (hless : t.rest.length < s.rest.length)
    (h' : Moves n 1 t u) : Moves n 0 s u where
  toFollows := h.toFollows.trans h'.toFollows
  since b hb := by
    rcases h'.since b hb with hb | hb
    · exact h.since b hb
    · right
      omega
  paced hs := h'.paced (h.paced hs)

end State

/-! ## What is reported -/

theorem head_toList_append {a b : String} {c : Char} (h : a.toList.head? = some c) :
    (a ++ b).toList.head? = some c := by
  rw [String.toList_append, List.head?_append, h]
  rfl

/-- No message but that of the limit begins with its letter. -/
theorem Cause.head_message {cause : Cause} (h : cause ≠ .iterationLimit) :
    ∃ c ∈ ['e', 'i', 'm', 'u'], cause.message.toList.head? = some c := by
  cases cause with
  | unexpected expected found =>
      refine ⟨'e', by decide, ?_⟩
      exact head_toList_append (head_toList_append (head_toList_append (by decide)))
  | invalidTarget => exact ⟨'i', by decide, by decide⟩
  | mismatchedTag opened closed =>
      refine ⟨'m', by decide, ?_⟩
      exact head_toList_append (head_toList_append (head_toList_append (head_toList_append
        (by decide))))
  | unclosedTag name =>
      refine ⟨'u', by decide, ?_⟩
      exact head_toList_append (head_toList_append (by decide))
  | iterationLimit => exact absurd rfl h

theorem Cause.message_ne {cause : Cause} (h : cause ≠ .iterationLimit) :
    cause.message ≠ Cause.iterationLimit.message := by
  intro heq
  obtain ⟨c, hc, hhead⟩ := head_message h
  have hlimit : Cause.iterationLimit.message.toList.head? = some 'p' := by decide
  rw [heq, hlimit] at hhead
  cases hhead
  simp at hc

/-! ## Recovery -/

variable {n : Nat} {s t u : State}

/-- Dropping tokens never fails, and keeps what taking a token keeps. -/
theorem gives_synchronize_of {I : State → Prop} (hs : I s) (hnext : ∀ t, I t → I t.next) :
    Gives (fun _ t => I t) synchronize s := by
  refine ends_iterate (I := I) ?_ () hs
  intro _ t ht
  unfold synchronizeStep
  rw [ends_get_bind]
  split
  next => exact ht
  next hend =>
    have hpos : 0 < t.rest.length := by
      apply State.length_pos_of_not_atEnd
      intro hatEnd
      exact hend (by rw [hatEnd, Bool.true_or])
    rw [ends_advance_bind]
    split
    next => exact hnext t ht
    next =>
      refine ⟨hnext t ht, ?_⟩
      rw [State.length_rest_next]
      omega

theorem gives_synchronize : Gives (fun _ t => s.Drops t) synchronize s :=
  gives_synchronize_of (Travel.refl s) fun t hst => Travel.trans hst (Travel.next t)

theorem gives_recover {problem : Problem} :
    Gives (fun _ t => (s.report problem).Drops t) (recover problem) s := by
  unfold Gives recover
  rw [ends_here_bind, ends_modify_bind, ends_bind]
  apply gives_synchronize.mono
  intro _ t hst
  exact hst

/-- Tokens are dropped, and at most one problem is reported. -/
structure State.Settles (s t : State) : Prop where
  rest : t.rest <:+ s.rest
  iterations : t.iterations = s.iterations
  iterationLimit : t.iterationLimit = s.iterationLimit
  turns : t.turns = s.turns
  diagnostics : t.diagnostics = s.diagnostics ∨ ∃ problem : Problem,
    problem.cause ≠ .iterationLimit ∧ t.diagnostics = problem.diagnostic :: s.diagnostics

theorem State.Drops.settles (h : s.Drops t) : s.Settles t :=
  ⟨h.rest, h.iterations, h.iterationLimit, h.turns, .inl h.diagnostics⟩

theorem State.Drops.settles_report {problem : Problem} (h : (s.report problem).Drops t)
    (hcause : problem.cause ≠ .iterationLimit) : s.Settles t :=
  ⟨h.rest, h.iterations, h.iterationLimit, h.turns, .inr ⟨problem, hcause, h.diagnostics⟩⟩

theorem State.Settles.drops (h : s.Settles t) (h' : t.Drops u) : s.Settles u := by
  constructor
  · exact h'.rest.trans h.rest
  · rw [h'.iterations, h.iterations]
  · rw [h'.iterationLimit, h.iterationLimit]
  · rw [h'.turns, h.turns]
  · rw [h'.diagnostics]
    exact h.diagnostics

theorem State.Settles.follows (h : s.Settles t) : s.Follows t where
  rest := h.rest
  iterations := Nat.le_of_eq h.iterations.symm
  turns := h.turns ▸ List.suffix_refl _
  diagnostics := by
    rcases h.diagnostics with hsame | ⟨problem, -, hadded⟩
    · exact hsame ▸ List.suffix_refl _
    · exact hadded ▸ List.suffix_cons _ _

/-- From `s` to `t` an item of a statement loop is read, or its problem is reported and tokens are
dropped. -/
def State.Attempts (n : Nat) (s t : State) : Prop :=
  ∃ u, s.Moves n 0 u ∧ u.Settles t

theorem gives_recover_attempts {problem : Problem} (hst : s.Moves n 0 t)
    (hcause : problem.cause ≠ .iterationLimit) :
    Gives (fun _ u => s.Attempts n u) (recover problem) t := by
  apply gives_recover.mono
  intro _ u hdrops
  exact ⟨t, hst, hdrops.settles_report hcause⟩

theorem gives_recovering {statement : Parse Stmt} (h : Skims (State.Moves n 0) statement s) :
    Gives (fun _ t => s.Attempts n t) (recovering statement) s := by
  unfold recovering
  apply ends_attempt_bind h
  · intro stmt t ⟨hst, _⟩
    exact ⟨t, hst, (Travel.refl (R := State.Drops) t).settles⟩
  · intro problem t ⟨hst, hcause⟩
    exact gives_recover_attempts hst hcause

/-! ## Counting a turn -/

/-- Different numbers between nothing and `n` are at most `n`. -/
theorem length_le_of_distinct {turns : List Nat} (hdistinct : turns.Nodup)
    (hbounds : ∀ b ∈ turns, 0 < b ∧ b ≤ n) : turns.length ≤ n := by
  have hsubset : turns ⊆ List.range' 1 n := by
    intro b hb
    have hbound := hbounds b hb
    rw [List.mem_range'_1]
    omega
  have hlength := hdistinct.length_le_of_subset hsubset
  rwa [List.length_range'] at hlength

theorem State.Paced.length_turns_le (h : s.Paced n) : s.turns.length ≤ n := by
  apply length_le_of_distinct h.distinct
  intro b hb
  have hbehind := h.behind b hb
  omega

/-- The turn that began with `before` tokens to come is counted. -/
def State.count (before : Nat) (s : State) : State :=
  { s with iterations := s.iterations + 1, turns := before :: s.turns }

namespace State.Attempts

theorem follows (h : s.Attempts n t) : s.Follows t := by
  obtain ⟨u, hmoves, hsettles⟩ := h
  exact hmoves.toFollows.trans hsettles.follows

theorem drops (h : s.Attempts n t) (h' : t.Drops u) : s.Attempts n u := by
  obtain ⟨v, hmoves, hsettles⟩ := h
  exact ⟨v, hmoves, hsettles.drops h'⟩

/-- The turn began where no turn counted before it did. -/
theorem distinct (h : s.Attempts n t) (hs : s.Paced n) :
    (s.rest.length :: t.turns).Nodup := by
  obtain ⟨u, hmoves, hsettles⟩ := h
  rw [hsettles.turns, List.nodup_cons]
  constructor
  · intro hmem
    rcases hmoves.since _ hmem with hold | hnew
    · have hbehind := hs.behind _ hold
      omega
    · omega
  · exact (hmoves.paced hs).distinct

/-- The turns counted, this one included, are no more than there were tokens at the start. -/
theorem length_le (h : s.Attempts n t) (hs : s.Paced n) (hpos : 0 < s.rest.length) :
    t.turns.length + 1 ≤ n := by
  have hdistinct := h.distinct hs
  have hbounds : ∀ b ∈ s.rest.length :: t.turns, 0 < b ∧ b ≤ n := by
    obtain ⟨u, hmoves, hsettles⟩ := h
    intro b hb
    rw [hsettles.turns, List.mem_cons] at hb
    rcases hb with rfl | hb
    · exact ⟨hpos, hs.within⟩
    · have hbehind := (hmoves.paced hs).behind b hb
      omega
  have hlength := length_le_of_distinct hdistinct hbounds
  rwa [List.length_cons] at hlength

/-- The limit of turns is not passed. -/
theorem count_le (h : s.Attempts n t) (hs : s.Paced n) (hpos : 0 < s.rest.length) :
    (t.count s.rest.length).iterations ≤ (t.count s.rest.length).iterationLimit := by
  have hlength := h.length_le hs hpos
  obtain ⟨u, hmoves, hsettles⟩ := h
  have hu := hmoves.paced hs
  have hcounted := hu.counted
  have hlimited := hu.limited
  have hiterations := hsettles.iterations
  have hlimit := hsettles.iterationLimit
  rw [hsettles.turns] at hlength
  show t.iterations + 1 ≤ t.iterationLimit
  omega

/-- With the turn counted and a token taken the account is in order again. -/
theorem paced_count (h : s.Attempts n t) (hs : s.Paced n)
    (hdrops : (t.count s.rest.length).Drops u) (hless : u.rest.length < s.rest.length) :
    u.Paced n := by
  have hdistinct := h.distinct hs
  obtain ⟨v, hmoves, hsettles⟩ := h
  have hv := hmoves.paced hs
  have hwithin := hs.within
  constructor
  · omega
  · rw [hdrops.iterationLimit]
    show n ≤ t.iterationLimit
    rw [hsettles.iterationLimit]
    exact hv.limited
  · rw [hdrops.iterations, hdrops.turns]
    show t.iterations + 1 = t.turns.length + 1
    rw [hsettles.iterations, hsettles.turns, hv.counted]
  · rw [hdrops.turns]
    exact hdistinct
  · rw [hdrops.turns]
    intro b hb
    have hle : u.rest.length ≤ v.rest.length :=
      Nat.le_trans hdrops.rest.length_le hsettles.rest.length_le
    rcases List.mem_cons.1 hb with rfl | hb
    · omega
    · rw [hsettles.turns] at hb
      have hbehind := hv.behind b hb
      omega
  · rw [hdrops.diagnostics, hdrops.turns]
    show t.diagnostics.length ≤ t.turns.length + 1
    have hreported := hv.reported
    rw [hsettles.turns]
    rcases hsettles.diagnostics with hsame | ⟨problem, -, hadded⟩
    · rw [hsame]
      omega
    · rw [hadded, List.length_cons]
      omega
  · rw [hdrops.diagnostics]
    show ∀ d ∈ t.diagnostics, d.message ≠ Cause.iterationLimit.message
    rcases hsettles.diagnostics with hsame | ⟨problem, hcause, hadded⟩
    · rw [hsame]
      exact hv.unlimited
    · rw [hadded]
      intro d hd
      rcases List.mem_cons.1 hd with rfl | hd
      · exact Cause.message_ne hcause
      · exact hv.unlimited d hd

/-- Whatever the account says, the turn moves on and begins where it is said to. -/
theorem moves_count (h : s.Attempts n t) (hfollows : (t.count s.rest.length).Follows u)
    (hturns : u.turns = s.rest.length :: t.turns) (hpaced : s.Paced n → u.Paced n) :
    s.Moves n 1 u := by
  have hcount : t.Follows (t.count s.rest.length) :=
    ⟨List.suffix_refl _, Nat.le_succ _, List.suffix_cons _ _, List.suffix_refl _⟩
  refine ⟨(h.follows.trans hcount).trans hfollows, ?_, hpaced⟩
  obtain ⟨v, hmoves, hsettles⟩ := h
  intro b hb
  rw [hturns, hsettles.turns] at hb
  rcases List.mem_cons.1 hb with rfl | hb
  · right
    omega
  · rcases hmoves.since b hb with hb | hb
    · exact .inl hb
    · right
      omega

end State.Attempts

/-- A turn of a statement loop that began at `s` ends with its count. It has then moved on, and the
limit of turns is not what moved it on. -/
theorem gives_ensureProgress (h : s.Attempts n t) (hpos : 0 < s.rest.length) :
    Gives (fun _ u => s.Moves n 1 u ∧ u.rest.length < s.rest.length)
      (ensureProgress s.rest.length) t := by
  have hle := h.follows.rest.length_le
  have hmoves : ∀ {u : State}, (t.count s.rest.length).Drops u →
      u.rest.length < s.rest.length → s.Moves n 1 u := by
    intro u hdrops hless
    exact h.moves_count hdrops.follows hdrops.turns fun hs => h.paced_count hs hdrops hless
  unfold Gives ensureProgress
  rw [ends_modify_bind, ends_get_bind]
  change Ends _ _ _ (t.count s.rest.length)
  split
  next hover =>
    -- The limit is passed only when the account was not in order before the turn.
    refine ⟨h.moves_count ?_ rfl ?_, hpos⟩
    · exact ⟨List.nil_suffix, Nat.le_refl _, List.suffix_refl _, List.suffix_cons _ _⟩
    · intro hs
      have hwithin := h.count_le hs hpos
      have hbeyond : (t.count s.rest.length).iterations >
          (t.count s.rest.length).iterationLimit := by
        simp only [Bool.and_eq_true, decide_eq_true_eq] at hover
        exact hover.1
      omega
  next =>
    split
    next hstays =>
      have hless : (t.count s.rest.length).next.rest.length < s.rest.length := by
        rw [State.length_rest_next]
        change t.rest.length - 1 < s.rest.length
        omega
      exact ⟨hmoves (Travel.next _) hless, hless⟩
    next hmoved =>
      have hless : t.rest.length < s.rest.length := by
        apply Nat.lt_of_le_of_ne hle
        intro heq
        have hrest : t.rest ≠ [] := by
          rw [← List.length_pos_iff, heq]
          exact hpos
        simp [State.atEnd, heq, hrest] at hmoved
      exact ⟨hmoves (Travel.refl _) hless, hless⟩

/-- One item of a statement loop and its count move on, and nothing makes them fail. -/
theorem gives_turn {α β : Type} {item : Parse α} {result : α → β} {good : β → State → Prop}
    (hpos : 0 < s.rest.length)
    (hitem : Gives (fun _ t => s.Attempts n t) item s)
    (hgood : ∀ a t, s.Moves n 1 t → t.rest.length < s.rest.length → good (result a) t) :
    Gives good (do
      let a ← item
      ensureProgress s.rest.length
      return result a) s := by
  unfold Gives
  rw [ends_bind]
  apply hitem.mono
  intro a t hattempt
  rw [ends_bind]
  apply (gives_ensureProgress hattempt hpos).mono
  intro _ u ⟨hmoves, hless⟩
  exact hgood a u hmoves hless

/-- A turn of a statement loop keeps to the account. -/
theorem turns_item {α β γ : Type} {item : Parse α} {result : α → β} (hpos : 0 < s.rest.length)
    (hitem : Gives (fun _ t => s.Attempts n t) item s) :
    Turns (State.Moves n 1) (do
      let a ← item
      ensureProgress s.rest.length
      return (.again (result a) : Turn β γ)) s :=
  Ends.mono (gives_turn hpos hitem fun _ _ hmoves hless => ⟨hmoves, hless⟩)
    (fun _ _ hgood => hgood) fun _ _ hfalse => hfalse.elim

/-- A statement loop may follow what has taken a token. -/
theorem takes_bind_loop {α β : Type} {Q : α → State → Prop} {p : Parse β} {f : β → Parse α}
    (h : Takes (State.Moves n 0) (fun b t => Takes (State.Moves n 0) Q (f b) t ∨
      (t.rest.length < s.rest.length ∧ Takes (State.Moves n 1) Q (f b) t)) p s) :
    Takes (State.Moves n 0) Q (p >>= f) s := by
  unfold Takes at h ⊢
  rw [ends_bind]
  refine h.mono ?_ fun _ _ hbad => hbad
  rintro b t ⟨hst, hrest | ⟨hless, hloop⟩⟩
  · exact takes_from hst hrest
  · apply hloop.mono
    · intro a u ⟨htu, hQ⟩
      exact ⟨hst.strict hless htu, hQ⟩
    · intro e u ⟨htu, hcause⟩
      exact ⟨hst.strict hless htu, hcause⟩

/-! ## Blocks -/

theorem closing_ne_eof (bracket : Bracket) : bracket.closing ≠ .eof := by
  cases bracket <;> nofun

theorem turns_blockStep {statement : Parse Stmt} {close : TokenKind} {stmts : List Stmt}
    (h : Skims (State.Moves n 0) statement s) :
    Turns (State.Moves n 1) (blockStep statement close stmts) s := by
  unfold blockStep
  simp only [takes_get_bind]
  split
  next => simp
  next hend =>
    have hpos : 0 < s.rest.length := by
      apply State.length_pos_of_not_atEnd
      intro hatEnd
      exact hend (by rw [hatEnd, Bool.or_true])
    apply takes_eat_if
    · intro hkind
      have hless := State.length_next_lt (s := s) (by simp [hkind])
      simpa using hless
    · intro _
      exact turns_item hpos (gives_recovering h)

theorem opening_ne_eof (bracket : Bracket) : bracket.opening ≠ .eof := by
  cases bracket <;> decide

theorem skims_block {statement : Parse Stmt} {bracket : Bracket}
    (h : SkimsBelow (State.Moves n 0) s.rest.length statement) :
    Skims (State.Moves n 0) (block statement bracket) s := by
  unfold block
  simp only [takes_here_bind]
  apply takes_bind_loop
  rw [takes_eat]
  split
  next hkind =>
    have hless : s.next.rest.length < s.rest.length := by
      apply State.length_next_lt
      rw [hkind]
      exact opening_ne_eof bracket
    right
    refine ⟨hless, ?_⟩
    rw [if_pos rfl]
    refine takes_bind (skims_iterate ?_ _) ?_
    · intro stmts t hst
      have hle := Travel.shrinks hst
      exact turns_blockStep (h t (by omega))
    · intro statements t _ _
      apply takes_expect_bind
      simp
  next =>
    left
    simp

theorem skims_body {statement : Parse Stmt}
    (h : SkimsBelow (State.Moves n 0) s.rest.length statement) :
    Skims (State.Moves n 0) (body statement) s := by
  unfold body
  simp only [takes_kind_bind]
  split
  · exact skims_block h
  · exact skims_block h
  · simp

end ComponentLang.Grammar
