import ComponentLang.Proofs.Grammar.Provenance
import ComponentLang.Proofs.Grammar.Recovery

/-!
# Readers that keep what they take

`Retains moves hand k p s` says that a hand that tallies when `p` begins at `s` is followed by one
that does: by `k a` when `p` ends with `a`. If `moves a` holds, then a token was taken on the way;
once one is, nothing more has to be said about it. As in `Takes` there is one lemma for each way of
making a reader.
-/
namespace ComponentLang.Grammar

open State

namespace Parse

variable {α β : Type} {s : State} {moves : α → Bool} {also : β → Bool} {hand : Hand}
  {k : α → Hand} {n : β → Hand} {m : α → Yield} {q : β → Yield} {opened : List Opening}
  {g : Yield}

def Retains (moves : α → Bool) (hand : Hand) (k : α → Hand) (p : Parse α) (s : State) : Prop :=
  ∀ s₀, Tallies hand s₀ s →
    Ends (fun a t => s.Precedes t ∧ (moves a = true → t.rest.length < s.rest.length) ∧
      Tallies (k a) s₀ t) (fun _ t => s.Precedes t) p s

/-- What `p` gives keeps all that `p` takes, and closes what it opens. -/
abbrev Gathers (m : α → Yield) (p : Parse α) (s : State) : Prop :=
  Retains (fun _ => false) ⟨[], 0⟩ (fun a => ⟨[], m a⟩) p s

/-- And `p` takes at least one token. -/
abbrev Harvests (m : α → Yield) (p : Parse α) (s : State) : Prop :=
  Retains (fun _ => true) ⟨[], 0⟩ (fun a => ⟨[], m a⟩) p s

/-- Nothing is kept of what `p` takes. -/
abbrev Passes (p : Parse α) (s : State) : Prop := Gathers (fun _ => 0) p s

theorem retains_pure_of {a : α} (hmoves : moves a = false) (h : hand = k a) :
    Retains moves hand k (pure a) s := by
  intro s₀ hs
  rw [ends_pure, ← h]
  refine ⟨.refl s, fun htrue => ?_, hs⟩
  rw [hmoves] at htrue
  cases htrue

theorem retains_pure {a : α} (h : hand = k a) :
    Retains (fun _ => false) hand k (pure a) s :=
  retains_pure_of rfl h

theorem retains_throw {e : Problem} : Retains moves hand k (throw e : Parse α) s :=
  fun _ _ => .refl s

theorem Retains.mono {p : Parse α} {k' : α → Hand} (h : Retains moves hand k p s)
    (hk : ∀ a, k a = k' a) : Retains moves hand k' p s := by
  rwa [← funext hk]

/-- It may be left out that a token was taken. -/
theorem Retains.of_moves {p : Parse α} {moves' : α → Bool} (h : Retains moves hand k p s)
    (hmoves : ∀ a, moves' a = true → moves a = true) : Retains moves' hand k p s := by
  intro s₀ hs
  refine (h s₀ hs).mono (fun a t ⟨hst, hless, ht⟩ => ?_) fun _ _ ht => ht
  exact ⟨hst, fun htrue => hless (hmoves a htrue), ht⟩

theorem Retains.still {p : Parse α} (h : Retains moves hand k p s) :
    Retains (fun _ => false) hand k p s :=
  h.of_moves fun _ hfalse => absurd hfalse Bool.false_ne_true

/-- A reader that is chosen by looking at the state does there what the chosen one does. -/
theorem Retains.of_eq {p p' : Parse α} (h : Retains moves hand k p' s) (heq : p s = p' s) :
    Retains moves hand k p s := by
  intro s₀ hs
  have hrun : p.run s = p'.run s := heq
  have hends := h s₀ hs
  unfold Ends at *
  rw [hrun]
  exact hends

/-- Two readers in a row, of which the second takes a token if one has to be taken. -/
theorem retains_bind {p : Parse β} {f : β → Parse α} (hp : Retains also hand n p s)
    (hf : ∀ b t, Retains moves (n b) k (f b) t) : Retains moves hand k (p >>= f) s := by
  intro s₀ hs
  rw [ends_bind]
  refine (hp s₀ hs).mono (fun b t ⟨hst, _, ht⟩ => ?_) fun _ _ ht => ht
  refine (hf b t s₀ ht).mono (fun a u ⟨htu, hless, hu⟩ => ?_) fun _ u htu => hst.trans htu
  refine ⟨hst.trans htu, fun hmoves => ?_, hu⟩
  exact Nat.lt_of_lt_of_le (hless hmoves) hst.rest.length_le

/-- Two readers in a row, of which the first takes a token. -/
theorem retains_bind_moved {p : Parse β} {f : β → Parse α}
    (hp : Retains (fun _ => true) hand n p s)
    (hf : ∀ b t, Retains (fun _ => false) (n b) k (f b) t) :
    Retains moves hand k (p >>= f) s := by
  intro s₀ hs
  rw [ends_bind]
  refine (hp s₀ hs).mono (fun b t ⟨hst, hless, ht⟩ => ?_) fun _ _ ht => ht
  refine (hf b t s₀ ht).mono (fun a u ⟨htu, _, hu⟩ => ?_) fun _ u htu => hst.trans htu
  exact ⟨hst.trans htu, fun _ => Nat.lt_of_le_of_lt htu.rest.length_le (hless rfl), hu⟩

/-- What is in hand stays in hand while something else is read. -/
theorem Retains.frame {p : Parse α} (hp : Retains moves ⟨[], 0⟩ (fun a => ⟨[], m a⟩) p s) :
    Retains moves ⟨opened, g⟩ (fun a => ⟨opened, g + m a⟩) p s := by
  intro s₀ hs
  refine (hp s (tallies_refl s)).mono (fun a t ⟨hst, hless, ht⟩ => ?_) fun _ _ ht => ht
  exact ⟨hst, hless, hs.trans ht⟩

theorem retains_then {p : Parse β} {f : β → Parse α}
    (hp : Retains also ⟨[], 0⟩ (fun b => ⟨[], q b⟩) p s)
    (hf : ∀ b t, Retains moves ⟨opened, g + q b⟩ k (f b) t) :
    Retains moves ⟨opened, g⟩ k (p >>= f) s :=
  retains_bind hp.frame hf

theorem retains_then_moved {p : Parse β} {f : β → Parse α} (hp : Harvests q p s)
    (hf : ∀ b t, Retains (fun _ => false) ⟨opened, g + q b⟩ k (f b) t) :
    Retains moves ⟨opened, g⟩ k (p >>= f) s :=
  retains_bind_moved hp.frame hf

theorem retains_passes_bind {p : Parse β} {f : β → Parse α} (hp : Passes p s)
    (hf : ∀ b t, Retains moves ⟨opened, g⟩ k (f b) t) :
    Retains moves ⟨opened, g⟩ k (p >>= f) s := by
  refine retains_then hp fun b t => ?_
  rw [add_zero]
  exact hf b t

theorem retains_map {p : Parse β} {f : β → α}
    (h : Retains (fun b => moves (f b)) hand (fun b => k (f b)) p s) :
    Retains moves hand k (f <$> p) s := by
  rw [map_eq_pure_bind]
  intro s₀ hs
  rw [ends_bind]
  exact h s₀ hs

/-- What may be missing is kept in a list of at most one part. -/
theorem gathers_some {part : α → TreePart} {p : Parse α}
    (h : Gathers (fun a => yield (part a)) p s) :
    Gathers (fun found => yields (found.toList.map part)) (some <$> p) s :=
  retains_map (h.mono fun a => by simp)

theorem gathers_none (part : α → TreePart) :
    Gathers (fun found => yields (found.toList.map part)) (pure none : Parse (Option α)) s :=
  retains_pure rfl

/-! ### Looking at the state -/

theorem retains_get_bind {f : State → Parse α} :
    Retains moves hand k (get >>= f) s ↔ Retains moves hand k (f s) s := Iff.rfl

theorem retains_peek_bind {f : Token → Parse α} :
    Retains moves hand k (peek >>= f) s ↔ Retains moves hand k (f s.peek) s := Iff.rfl

theorem retains_kind_bind {f : TokenKind → Parse α} :
    Retains moves hand k (kind >>= f) s ↔ Retains moves hand k (f s.peek.kind) s := Iff.rfl

theorem retains_here_bind {f : Span → Parse α} :
    Retains moves hand k (here >>= f) s ↔ Retains moves hand k (f s.peek.span) s := Iff.rfl

theorem retains_spanFrom_bind {start : Span} {f : Span → Parse α} :
    Retains moves hand k (spanFrom start >>= f) s ↔
      Retains moves hand k (f (s.spanFrom start)) s := Iff.rfl

theorem retains_fail {cause : Cause} : Retains moves hand k (fail cause : Parse α) s :=
  fun _ _ => .refl s

theorem retains_unexpected {expected : Expected} :
    Retains moves hand k (unexpected expected : Parse α) s :=
  fun _ _ => .refl s

/-! ### Taking tokens and numbering nodes -/

/-- After a token is taken it need not be said again that one is. -/
theorem retains_next {p : Parse α} {hand' : Hand} (hs : s.peek.kind ≠ .eof)
    (hnext : ∀ s₀, Tallies hand s₀ s → Tallies hand' s₀ s.next)
    (hp : Retains (fun _ => false) hand' k p s.next) (s₀ : State) (h : Tallies hand s₀ s) :
    Ends (fun a t => s.Precedes t ∧ (moves a = true → t.rest.length < s.rest.length) ∧
      Tallies (k a) s₀ t) (fun _ t => s.Precedes t) p s.next := by
  have hless := length_next_lt (s := s) hs
  refine (hp s₀ (hnext s₀ h)).mono (fun a t ⟨hst, _, ht⟩ => ?_)
    fun _ t hst => s.precedes_next.trans hst
  exact ⟨s.precedes_next.trans hst, fun _ => Nat.lt_of_le_of_lt hst.rest.length_le hless, ht⟩

theorem Tallies.passed {opened' : List Opening} (ht : Passed s.peek opened opened') (s₀ : State)
    (hs : Tallies ⟨opened, g⟩ s₀ s) : Tallies ⟨opened', g⟩ s₀ s.next := by
  have htaken : Tallies ⟨opened', g + (0 : Yield)⟩ s₀ s.next :=
    hs.take ht fun w hw => absurd hw (Multiset.notMem_zero w)
  rwa [add_zero] at htaken

theorem retains_advance_bind {f : Token → Parse α} {opened' : List Opening}
    (ht : Passed s.peek opened opened')
    (hf : Retains (fun _ => false) ⟨opened', g⟩ k (f s.peek) s.next) :
    Retains moves ⟨opened, g⟩ k (advance >>= f) s :=
  retains_next ht.read (Tallies.passed ht) hf

/-- A name that is taken may be used any number of times. -/
theorem Tallies.named {names : Multiset Word} (ht : s.peek.kind = .identifier)
    (hnames : ∀ w ∈ names, w = (s.peek.lexeme, s.peek.span)) (s₀ : State)
    (hs : Tallies ⟨opened, g⟩ s₀ s) : Tallies ⟨opened, g + ⟨0, names, true⟩⟩ s₀ s.next :=
  hs.take (passed_silent ht rfl) fun w hw => ⟨ht, hnames w hw⟩

theorem retains_advance_name_bind {f : Token → Parse α} (ht : s.peek.kind = .identifier)
    (hf : Retains (fun _ => false) ⟨opened, g + .ofName (s.peek.lexeme, s.peek.span)⟩ k
      (f s.peek) s.next) :
    Retains moves ⟨opened, g⟩ k (advance >>= f) s := by
  have hname : ∀ w ∈ ({(s.peek.lexeme, s.peek.span)} : Multiset Word), w = _ :=
    fun _ => Multiset.mem_singleton.1
  exact retains_next (by rw [ht]; decide) (Tallies.named ht hname) hf

/-- The name is dropped if what is read does not use it. -/
theorem retains_drop {p : Parse α} {names : Multiset Word}
    (h : Retains moves ⟨opened, g⟩ k p s) :
    Retains moves ⟨opened, g + ⟨0, names, true⟩⟩ k p s :=
  fun s₀ hs => h s₀ hs.drop

theorem retains_eat_bind {kind : TokenKind} {f : Bool → Parse α} {opened' : List Opening}
    (ht : s.peek.kind = kind → Passed s.peek opened opened')
    (htaken : s.peek.kind = kind → Retains (fun _ => false) ⟨opened', g⟩ k (f true) s.next)
    (hleft : Retains moves ⟨opened, g⟩ k (f false) s) :
    Retains moves ⟨opened, g⟩ k (eat kind >>= f) s := by
  intro s₀ hs
  rw [ends_eat_bind]
  split
  next hkind =>
    exact retains_next (ht hkind).read (Tallies.passed (ht hkind)) (htaken hkind) s₀ hs
  next => exact hleft s₀ hs

/-- The next token is taken and the reader goes on with `p`, or it goes on with `p'`. -/
theorem retains_eat_if {kind : TokenKind} {p p' : Parse α} {opened' : List Opening}
    (ht : s.peek.kind = kind → Passed s.peek opened opened')
    (hp : Retains (fun _ => false) ⟨opened', g⟩ k p s.next)
    (hp' : Retains moves ⟨opened, g⟩ k p' s) :
    Retains moves ⟨opened, g⟩ k (eat kind >>= fun taken => if taken = true then p else p') s :=
  retains_eat_bind ht (fun _ => hp) hp'

/-- What is read after a token of some kind, which must be there. -/
theorem retains_expect_bind {kind : TokenKind} {expected : Expected} {f : Token → Parse α}
    {opened' : List Opening} (ht : s.peek.kind = kind → Passed s.peek opened opened')
    (hf : s.peek.kind = kind → Retains (fun _ => false) ⟨opened', g⟩ k (f s.peek) s.next) :
    Retains moves ⟨opened, g⟩ k (expect kind expected >>= f) s := by
  unfold expect
  rw [bind_assoc, retains_get_bind]
  split
  next hkind => exact retains_advance_bind (ht hkind) (hf hkind)
  next => exact fun _ _ => .refl s

theorem retains_expect {kind : TokenKind} {expected : Expected} {opened' : List Opening}
    (ht : s.peek.kind = kind → Passed s.peek opened opened') :
    Retains (fun _ => true) ⟨opened, g⟩ (fun _ => ⟨opened', g⟩) (expect kind expected) s := by
  rw [← bind_pure (expect kind expected)]
  exact retains_expect_bind ht fun _ => retains_pure rfl

theorem passes_eat {kind : TokenKind} (h : isSilent kind = true) : Passes (eat kind) s := by
  rw [← bind_pure (eat kind)]
  exact retains_eat_bind (fun hkind => passed_silent hkind h) (fun _ => retains_pure rfl)
    (retains_pure rfl)

theorem retains_expectIdentifier_bind {expected : Expected} {f : String → Parse α}
    (hf : ∀ name, Retains (fun _ => false) ⟨opened, g⟩ k (f name) s.next) :
    Retains moves ⟨opened, g⟩ k (expectIdentifier expected >>= f) s := by
  unfold expectIdentifier
  rw [bind_assoc]
  exact retains_expect_bind (fun hkind => passed_silent hkind rfl) fun _ => hf s.peek.lexeme

/-- A name that is used any number of times. -/
theorem retains_expectName_bind {expected : Expected} {f : String → Parse α}
    {names : Multiset Word} (hnames : ∀ w ∈ names, w = (s.peek.lexeme, s.peek.span))
    (hf : Retains (fun _ => false) ⟨opened, g + ⟨0, names, true⟩⟩ k (f s.peek.lexeme) s.next) :
    Retains moves ⟨opened, g⟩ k (expectIdentifier expected >>= f) s := by
  unfold expectIdentifier expect
  rw [bind_assoc, bind_assoc, retains_get_bind]
  split
  next hkind =>
    have hread : s.peek.kind ≠ .eof := by
      rw [show s.peek.kind = .identifier from hkind]
      decide
    exact retains_next hread (Tallies.named hkind hnames) hf
  next => exact fun _ _ => .refl s

theorem retains_node_bind {span : Span} {f : Node → Parse α}
    (hf : ∀ node t, node.span = span → Retains moves hand k (f node) t) :
    Retains moves hand k (node span >>= f) s := by
  intro s₀ hs
  have hnumbered : s.Precedes { s with nextId := s.nextId + 1 } :=
    ⟨List.suffix_refl _, Nat.le_succ _, List.suffix_refl _⟩
  have ht := hs.of_same (u := { s with nextId := s.nextId + 1 }) rfl (Nat.le_succ _) rfl
  refine (hf ⟨s.nextId, span⟩ _ rfl s₀ ht).mono (fun a t ⟨hst, hless, ht⟩ => ?_)
    fun _ t hst => hnumbered.trans hst
  exact ⟨hnumbered.trans hst, hless, ht⟩

/-! ### Readers made from readers -/

/-- One of two readers, and the same after either. -/
theorem retains_ite_bind {c : Prop} [Decidable c] {p p' : Parse β} {f : β → Parse α}
    (hp : Gathers q p s) (hp' : Gathers q p' s)
    (hf : ∀ b t, Retains moves ⟨opened, g + q b⟩ k (f b) t) :
    Retains moves ⟨opened, g⟩ k (if c then p >>= f else p' >>= f) s := by
  split
  · exact retains_then hp hf
  · exact retains_then hp' hf

theorem retains_withHead {inHead : Bool} {p : Parse α}
    (h : ∀ t : State, t.peek = s.peek → Retains moves hand k p t) :
    Retains moves hand k (withHead inHead p) s := by
  intro s₀ hs
  rw [ends_withHead]
  refine (h { s with inHead } rfl s₀ (hs.of_same rfl (Nat.le_refl _) rfl)).mono
    (fun a t ⟨hst, hless, ht⟩ => ?_) fun _ t hst => ⟨hst.rest, hst.numbers, hst.diagnostics⟩
  exact ⟨⟨hst.rest, hst.numbers, hst.diagnostics⟩, hless, ht.of_same rfl (Nat.le_refl _) rfl⟩

theorem retains_nested {p : Parse α} (h : ∀ t : State, t.peek = s.peek → Retains moves hand k p t) :
    Retains moves hand k (nested p) s :=
  retains_withHead h

/-- After a failure what was taken on the way is missing. -/
theorem retains_attempt_bind {p : Parse β} {f : Except Problem β → Parse α}
    (hp : Retains (fun _ => true) ⟨opened, g⟩ n p s)
    (hok : ∀ b t, Retains (fun _ => false) (n b) k (f (.ok b)) t)
    (herror : ∀ e t, Retains moves ⟨opened, g.torn⟩ k (f (.error e)) t) :
    Retains moves ⟨opened, g⟩ k (attempt p >>= f) s := by
  intro s₀ hs
  refine ends_attempt_bind (hp s₀ hs) (fun b t ⟨hst, hless, ht⟩ => ?_) fun e t hst => ?_
  · refine (hok b t s₀ ht).mono (fun a u ⟨htu, _, hu⟩ => ?_) fun _ u htu => hst.trans htu
    exact ⟨hst.trans htu, fun _ => Nat.lt_of_le_of_lt htu.rest.length_le (hless rfl), hu⟩
  · refine (herror e t s₀ (hs.torn hst opened)).mono (fun a u ⟨htu, hless, hu⟩ => ?_)
      fun _ u htu => hst.trans htu
    refine ⟨hst.trans htu, fun hmoves => ?_, hu⟩
    exact Nat.lt_of_lt_of_le (hless hmoves) hst.rest.length_le

/-- Brackets need not match where something is missing. -/
theorem retains_torn {p : Parse α} {opened' : List Opening}
    (h : Retains moves ⟨opened', g.torn⟩ k p s) : Retains moves ⟨opened, g.torn⟩ k p s :=
  fun s₀ hs => h s₀ (hs.torn (.refl s) opened')

/-- There any token may be taken. -/
theorem retains_torn_advance_bind {f : Token → Parse α}
    (hf : ∀ t, Retains moves ⟨opened, g.torn⟩ k (f s.peek) t) :
    Retains moves ⟨opened, g.torn⟩ k (advance >>= f) s := by
  intro s₀ hs
  refine (hf s.next s₀ (hs.torn s.precedes_next opened)).mono (fun a t ⟨hst, hless, ht⟩ => ?_)
    fun _ t hst => s.precedes_next.trans hst
  refine ⟨s.precedes_next.trans hst, fun hmoves => ?_, ht⟩
  exact Nat.lt_of_lt_of_le (hless hmoves) s.precedes_next.rest.length_le

/-- The hand after a turn of a loop. -/
def turnHand (n : β → Hand) (k : α → Hand) : Turn β α → Hand
  | .again b => n b
  | .done a => k a

theorem retains_iterate {turn : β → Parse (Turn β α)}
    (hturn : ∀ b t, Retains (fun _ => false) (n b) (turnHand n k) (turn b) t) (b : β) :
    Retains (fun _ => false) (n b) k (iterate turn b) s := by
  have hfor : ∀ turns b t, Retains (fun _ => false) (n b) k (iterateFor turn turns b) t := by
    intro turns
    induction turns with
    | zero => exact fun _ _ => retains_fail
    | succ turns ih =>
        intro b t
        unfold iterateFor
        refine retains_bind (hturn b t) fun r u => ?_
        cases r with
        | again b => exact ih b u
        | done a => exact retains_pure rfl
  exact hfor _ b s

/-- Lists of items keep what their items keep. -/
theorem gathers_commaSeparated {close : TokenKind} {item : Parse α} {ms : List α → Yield}
    (hitem : ∀ t, Gathers m item t) (hnil : ms [] = 0)
    (happend : ∀ items a, ms (items ++ [a]) = ms items + m a) :
    Gathers ms (commaSeparated close item) s := by
  have hempty : (⟨[], 0⟩ : Hand) = ⟨[], ms []⟩ := by rw [hnil]
  unfold commaSeparated Gathers
  rw [hempty]
  refine retains_iterate (n := fun items => ⟨[], ms items⟩) (fun items t => ?_) []
  rw [retains_get_bind]
  split
  · exact retains_pure rfl
  · refine retains_then (hitem t) fun a u => ?_
    rw [← happend]
    exact retains_eat_if (fun hkind => passed_silent hkind rfl) (retains_pure rfl)
      (retains_pure rfl)

end Parse

/-! ## Recovery -/

open Parse

variable {α : Type} {s : State} {moves : α → Bool} {k : α → Hand} {opened : List Opening}
  {g : Yield}

/-- The placeholder says that something was dropped. -/
theorem retains_recover_bind {problem : Problem} {f : Stmt → Parse α}
    (hf : ∀ placeholder t, yield (.stmt placeholder) = .damage →
      Retains moves ⟨opened, g + .damage⟩ k (f placeholder) t) :
    Retains moves ⟨opened, g.torn⟩ k (recover problem >>= f) s := by
  intro s₀ hs
  have hreport : s.Precedes (s.report problem) :=
    ⟨List.suffix_refl _, Nat.le_refl _, List.suffix_cons _ _⟩
  have hdropped : Gives (fun placeholder t => yield (.stmt placeholder) = .damage ∧
      s.Precedes t) (recover problem) s := by
    unfold Gives recover
    rw [ends_here_bind, ends_modify_bind, ends_bind]
    have hsync := gives_synchronize_of (I := s.Precedes) hreport fun t ht =>
      ht.trans t.precedes_next
    refine hsync.mono fun _ t ht => ⟨?_, ht⟩
    rw [yield_eq]
    rfl
  rw [ends_bind]
  refine Ends.mono hdropped (fun placeholder t ⟨hplaceholder, hst⟩ => ?_)
    fun _ _ hfalse => hfalse.elim
  have htorn := hs.torn hst opened
  rw [Yield.torn_of_whole (g := g.torn) rfl, Yield.torn_eq_add_damage] at htorn
  refine (hf placeholder t hplaceholder s₀ htorn).mono (fun a u ⟨htu, hless, hu⟩ => ?_)
    fun _ u htu => hst.trans htu
  refine ⟨hst.trans htu, fun hmoves => ?_, hu⟩
  exact Nat.lt_of_lt_of_le (hless hmoves) hst.rest.length_le

/-- What a statement keeps, or the placeholder for it: if nothing is missing, a token was taken. -/
theorem gathers_recovering {statement : Parse Stmt}
    (h : Harvests (fun stmt => yield (.stmt stmt)) statement s) :
    Retains (fun stmt => (yield (.stmt stmt)).whole) ⟨[], 0⟩ (fun stmt => ⟨[], yield (.stmt stmt)⟩)
      (recovering statement) s := by
  unfold recovering
  refine retains_attempt_bind h (fun stmt t => retains_pure rfl) fun problem t => ?_
  dsimp only
  rw [← bind_pure (recover problem)]
  refine retains_recover_bind fun placeholder u hyield => retains_pure_of ?_ ?_
  · rw [hyield]
    rfl
  · rw [hyield, zero_add]

/-- Counting a turn drops a token if the turn took none, but then something is missing already. -/
theorem Tallies.counted {hand : Hand} {s₀ t : State}
    (hless : hand.content.whole = true → t.rest.length < s.rest.length)
    (ht : Tallies hand s₀ t) :
    Gives (fun _ u => t.Precedes u ∧ Tallies hand s₀ u) (ensureProgress s.rest.length) t := by
  unfold Gives ensureProgress
  rw [ends_modify_bind, ends_get_bind]
  have hcounted : Tallies hand s₀ (t.count s.rest.length) := ht.of_same rfl (Nat.le_refl _) rfl
  have hcount : t.Precedes (t.count s.rest.length) :=
    ⟨List.suffix_refl _, Nat.le_refl _, List.suffix_refl _⟩
  change Ends _ _ _ (t.count s.rest.length)
  split
  · have hreport : (t.count s.rest.length).Precedes
        { (t.count s.rest.length).report
            (.ofSpan .iterationLimit (t.count s.rest.length).here) with rest := [] } :=
      ⟨List.nil_suffix, Nat.le_refl _, List.suffix_cons _ _⟩
    refine ⟨hcount.trans hreport, hcounted.limited hreport ?_ _⟩
    exact ⟨_, problem_mem_entries.2 List.mem_cons_self, rfl⟩
  · split
    next hlength =>
      have hdropped : hand.content.whole = false := by
        have hsame : t.rest.length = s.rest.length := by simp_all [State.count]
        by_contra hwhole
        have := hless (by simpa using hwhole)
        omega
      have hnext := (t.count s.rest.length).precedes_next
      refine ⟨hcount.trans hnext, ?_⟩
      have htorn := hcounted.torn hnext hand.opened
      rwa [Yield.torn_of_whole hdropped] at htorn
    next => exact ⟨hcount, hcounted⟩

theorem retains_turn {β : Type} {item : Parse β} {n : β → Hand} {f : β → Parse α}
    (hitem : Retains (fun b => (n b).content.whole) ⟨opened, g⟩ n item s)
    (hf : ∀ b t, Retains (fun _ => false) (n b) k (f b) t) :
    Retains (fun _ => false) ⟨opened, g⟩ k (item >>= fun b => do
      ensureProgress s.rest.length
      f b) s := by
  intro s₀ hs
  rw [ends_bind]
  refine (hitem s₀ hs).mono (fun b t ⟨hst, hless, ht⟩ => ?_) fun _ _ ht => ht
  rw [ends_bind]
  refine Ends.mono (Tallies.counted hless ht) (fun _ u ⟨htu, hu⟩ => ?_)
    fun _ _ hfalse => hfalse.elim
  refine (hf b u s₀ hu).mono (fun a v ⟨huv, _, hv⟩ => ?_) fun _ v huv => hst.trans (htu.trans huv)
  exact ⟨hst.trans (htu.trans huv), fun hmoves => (nomatch hmoves), hv⟩

end ComponentLang.Grammar
