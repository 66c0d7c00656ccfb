import ComponentLang.Proofs.Grammar.Abreast
import ComponentLang.Proofs.Grammar.Ledger.Statement
import ComponentLang.Proofs.Grammar.Starts

/-!
# Blocks, abreast

A block is followed where nothing has been reported at its end.
-/

/-! ## Readers that report nothing

A statement that cannot be read is left out of a block and reported, so a reader of statements is
followed only if nothing has been reported at its end. No reader takes back what has been reported:
if there is nothing at the end there was nothing on the way. -/

namespace ComponentLang.Grammar

open Parse
open State (Abreast Open)

variable {word : String → Prop} {more : Beyond} {s t u v : State}

namespace Parse

variable {α β γ δ : Type} {C D : State → State → Prop} {Q : α → β → Prop} {R : γ → δ → Prop}
variable {p p' : Parse α} {q q' : Parse β}

/-- What has been reported before `p` has been reported after it. -/
def Keeps (p : Parse α) : Prop :=
  ∀ s : State, (p.run s).2.diagnostics = [] → s.diagnostics = []

theorem keeps_of_builds {m : α → Holding} (h : Builds 0 m p) : Keeps p := by
  intro s hsilent
  have hle : s.entries ≤ (p.run s).2.entries := by
    have hends := h s s s (State.accounts_refl s) le_rfl
    unfold Ends at hends
    split at hends
    next hrun =>
      rw [hrun]
      exact hends.2
    next hrun =>
      rw [hrun]
      exact hends
  rw [List.eq_nil_iff_forall_not_mem]
  intro d hd
  have hmem := Multiset.mem_of_le hle (State.problem_mem_entries.2 hd)
  rw [State.problem_mem_entries, hsilent] at hmem
  cases hmem

theorem keeps_pure (a : α) : Keeps (pure a) := fun _ h => h

theorem keeps_unexpected {expected : Expected} : Keeps (unexpected expected : Parse α) :=
  fun _ h => h

theorem keeps_bind {f : α → Parse γ} (hp : Keeps p) (hf : ∀ a, Keeps (f a)) :
    Keeps (p >>= f) := by
  intro s hsilent
  rw [run_bind] at hsilent
  apply hp
  split at hsilent
  next a t hrun =>
    rw [hrun]
    exact hf a t hsilent
  next e t hrun =>
    rw [hrun]
    exact hsilent

theorem keeps_map {f : α → γ} (hp : Keeps p) : Keeps (f <$> p) := by
  rw [map_eq_pure_bind]
  exact keeps_bind hp fun _ => keeps_pure _

theorem keeps_get_bind {f : State → Parse α} (h : ∀ s, Keeps (f s)) : Keeps (get >>= f) :=
  fun s => h s s

theorem keeps_kind_bind {f : TokenKind → Parse α} (h : ∀ kind, Keeps (f kind)) :
    Keeps (kind >>= f) :=
  fun s => h s.kind s

theorem keeps_attempt (hp : Keeps p) : Keeps (attempt p) := fun s h => hp s h

theorem keeps_advance_bind {f : Token → Parse α} (h : ∀ token, Keeps (f token)) :
    Keeps (advance >>= f) := by
  intro s hsilent
  have hnext : s.next.diagnostics = [] := h s.peek s.next hsilent
  rwa [(Travel.next (R := State.Drops) s).diagnostics] at hnext

theorem keeps_spanFrom_bind {start : Span} {f : Span → Parse α} (h : ∀ span, Keeps (f span)) :
    Keeps (spanFrom start >>= f) :=
  fun s => h (s.spanFrom start) s

theorem keeps_eat_bind {kind : TokenKind} {f : Bool → Parse α} (h : ∀ b, Keeps (f b)) :
    Keeps (eat kind >>= f) := by
  apply keeps_bind _ h
  apply keeps_of_builds (m := fun _ => 0)
  rw [← bind_pure (eat kind)]
  exact builds_eat_bind fun _ => builds_pure rfl

theorem keeps_eat_if {kind : TokenKind} {p p' : Parse α} (hp : Keeps p) (hp' : Keeps p') :
    Keeps (eat kind >>= fun taken => if taken = true then p else p') := by
  apply keeps_eat_bind
  intro taken
  split
  · exact hp
  · exact hp'

theorem keeps_expect_bind {kind : TokenKind} {expected : Expected} {f : Token → Parse α}
    (h : ∀ token, Keeps (f token)) : Keeps (expect kind expected >>= f) :=
  keeps_bind (keeps_of_builds idle_expect) h

theorem keeps_stmtFrom {start : Span} {build : Span → Stmt} : Keeps (stmtFrom start build) :=
  fun _ h => h

theorem keeps_iterateFor {turn : γ → Parse (Turn γ α)} (hturn : ∀ c, Keeps (turn c)) (turns : Nat)
    (c : γ) : Keeps (iterateFor turn turns c) := by
  induction turns generalizing c with
  | zero => exact fun _ h => h
  | succ turns ih =>
      unfold iterateFor
      apply keeps_bind (hturn c)
      intro turned
      cases turned with
      | again c => exact ih c
      | done a => exact keeps_pure a

/-- Two readers in a row, the second of which keeps what has been reported. -/
theorem tracks_bind_silent {E : γ → State → Prop} {f : α → Parse γ} {g : β → Parse δ}
    (hp : Tracks Silent C Q p q s t) (hE : ∀ {c u}, E c u → u.diagnostics = [])
    (hkeep : ∀ a, Keeps (f a))
    (hf : ∀ {a b s' t'}, Q a b → C s' t' → Tracks E D R (f a) (g b) s' t') :
    Tracks E D R (p >>= f) (q >>= g) s t := by
  apply tracks_bind_if hp _ hf
  intro a s' c u hrun hend
  apply hkeep a s'
  rw [hrun]
  exact hE hend

theorem keeps_ite_bind {c : Prop} [Decidable c] {f : α → Parse γ} (hp : Keeps p) (hp' : Keeps p')
    (hf : ∀ a, Keeps (f a)) : Keeps (if c then p >>= f else p' >>= f) := by
  split
  · exact keeps_bind hp hf
  · exact keeps_bind hp' hf

theorem keeps_node_bind {span : Span} {f : Node → Parse α} (h : ∀ node, Keeps (f node)) :
    Keeps (node span >>= f) :=
  fun s => h ⟨s.nextId, span⟩ { s with nextId := s.nextId + 1 }

theorem tracks_some {A : α → β → Prop} (h : Tracks Silent C A p q s t) :
    Tracks Silent C (Option.Rel A) (some <$> p) (some <$> q) s t :=
  tracks_map (F := Silent) h .some

/-- One of two readers on either side, and the same after either, which keeps what has been
reported. -/
theorem tracks_ite_bind_silent {c : Prop} [Decidable c] {f : α → Parse γ} {g : β → Parse δ}
    (hp : Tracks Silent C Q p q s t) (hp' : Tracks Silent C Q p' q' s t)
    (hkeep : ∀ a, Keeps (f a))
    (hf : ∀ {a b s' t'}, Q a b → C s' t' → Tracks Silent D R (f a) (g b) s' t') :
    Tracks Silent D R (if c then p >>= f else p' >>= f) (if c then q >>= g else q' >>= g) s t := by
  split
  · exact tracks_bind_silent hp id hkeep hf
  · exact tracks_bind_silent hp' id hkeep hf

theorem mirrors_eat {kind : TokenKind} (hst : Open word more s t) (hkind : kind ≠ .semicolon) :
    Mirrors word more Eq (eat kind) (eat kind) s t := by
  rw [← bind_pure (eat kind)]
  apply tracks_eat_bind hst
  · intro h _
    exact tracks_pure (hst.next_of_ne (h ▸ hkind)) rfl
  · intro _
    exact tracks_pure hst rfl

/-- What is behind a semicolon of a statement begins with a token, so there is one. -/
theorem tracks_expect_semicolon_bind {expected : Expected} {E : α → State → Prop}
    {f : Token → Parse α} {g : Token → Parse β} (hst : Open word more s t)
    (hstarts : Starts (f s.peek) s.next)
    (h : ∀ {token}, s.peek.Respells word token → Open word more s.next t.next →
      Tracks E C Q (f s.peek) (g token) s.next t.next) :
    Tracks E C Q (expect .semicolon expected >>= f) (expect .semicolon expected >>= g) s t := by
  by_cases hnext : s.kind = .semicolon
  · have hleft : (expect .semicolon expected >>= f) s = f s.peek s.next := expect_bind hnext f
    by_cases hrest : s.next.rest = []
    · intro a s' hrun
      exact absurd (hleft.symm.trans hrun) (hstarts.fails hrest)
    · have hopen : Open word more s.next t.next := ⟨hst.next, fun _ => hrest⟩
      exact (h hst.peek hopen).of_eq_at hleft (expect_bind (hst.kind.trans hnext) g)
        (State.inHead_next s)
  · intro a s' hrun
    obtain ⟨token, u, hexpect, -⟩ := run_bind_ok.1 hrun
    exact absurd (kind_of_expect hexpect) hnext

end Parse

end ComponentLang.Grammar

/-! ## Blocks of statements, abreast

A statement may take the semicolon that ends it, and this may be the last token that there is. In a
block that cannot be, since its bracket is still to come. An export that is exported again takes
every semicolon that follows, one for each export, so it does not end with its own tokens when what
comes behind them begins with another. -/

namespace ComponentLang

def Stmt.isExport : Stmt → Bool
  | .exportDecl .. => true
  | _ => false

def ExportItem.isExport : ExportItem → Bool
  | .statement stmt => stmt.isExport
  | _ => false

namespace Grammar

open Parse
open State (Abreast Open)

variable {word : String → Prop} {more : Beyond} {s t u v : State}

/-! ### The end of a statement -/

/-- Nothing has been reported, and if `again` is set there are more tokens to come before `more`
when that begins with a semicolon. -/
def Parted (more : Beyond) (again : Bool) (u : State) : Prop :=
  u.diagnostics = [] ∧
    (again = true → more.tokens.head?.map Token.kind = some .semicolon → u.rest ≠ [])

/-- A statement was read from `s` without a problem. If it is an export that stood there, it may
need the semicolon that comes next. -/
abbrev Finished (more : Beyond) (s : State) (stmt : Stmt) (u : State) : Prop :=
  Parted more (stmt.isExport && s.kind = .keyword .exportKw) u

/-- Nothing has been reported, and if there is more to come it is not what comes next. -/
def Shut {α : Type} (more : Beyond) (_ : α) (u : State) : Prop :=
  u.diagnostics = [] ∧ (more.fenced → u.rest ≠ [])

/-- The states are abreast, and what comes behind the first is not a semicolon that comes next. -/
def Severed (word : String → Prop) (more : Beyond) (u v : State) : Prop :=
  Abreast word more u v ∧ (more.tokens.head?.map Token.kind = some .semicolon → u.rest ≠ [])

theorem Beyond.fenced_of_head (h : more.tokens.head?.map Token.kind = some .semicolon) :
    more.fenced := by
  apply more.fenced_of_ne
  intro hnil
  rw [hnil] at h
  cases h

theorem State.Open.severed (h : Open word more u v) : Severed word more u v :=
  ⟨h.toAbreast, fun hhead => h.goesOn (Beyond.fenced_of_head hhead)⟩

theorem Shut.parted {α : Type} {a : α} {again : Bool} (h : Shut more a u) : Parted more again u :=
  ⟨h.1, fun _ hhead => h.2 (Beyond.fenced_of_head hhead)⟩

theorem parted_of_eat {again : Bool} (h : Parted more again (eat .semicolon |>.run u).2) :
    Parted more again u := by
  have hkeep : Keeps (eat .semicolon) := by
    rw [← bind_pure (eat .semicolon)]
    exact keeps_eat_bind fun _ => keeps_pure _
  refine ⟨hkeep u h.1, fun hagain hhead hnil => h.2 hagain hhead ?_⟩
  have hkind : u.kind ≠ .semicolon := by simp [State.kind_of_nil hnil]
  have heat : (eat .semicolon).run u = (.ok false, u) := by
    rw [← bind_pure (eat .semicolon)]
    exact eat_bind_of_ne hkind pure
  rw [heat]
  exact hnil

/-- The semicolon that ends a statement is taken from both tokens lists or from neither. -/
theorem tracks_eat_semicolon (hst : Severed word more u v) :
    Tracks Whatever (Abreast word more) Eq (eat .semicolon) (eat .semicolon) u v := by
  obtain ⟨hst, hhead⟩ := hst
  by_cases hopen : more.fenced → u.rest ≠ []
  · have hst' : Open word more u v := ⟨hst, hopen⟩
    rw [← bind_pure (eat .semicolon)]
    apply tracks_eat_bind hst'
    · intro _ hnext
      exact tracks_pure hnext rfl
    · intro _
      exact tracks_pure hst rfl
  · have hnil : u.rest = [] := by
      by_contra hne
      exact hopen fun _ => hne
    have hkind : u.kind ≠ .semicolon := by simp [State.kind_of_nil hnil]
    have hkind' : v.kind ≠ .semicolon := by
      intro hkind'
      obtain ⟨ahead, hrest, htokens⟩ := hst.rest
      rw [hnil] at htokens
      cases htokens
      rw [List.nil_append] at hrest
      cases hmore : more.tokens with
      | nil =>
          rw [State.kind_of_nil (hrest.trans hmore)] at hkind'
          cases hkind'
      | cons first rest =>
          rw [State.kind_of_rest (hrest.trans hmore)] at hkind'
          exact hhead (by rw [hmore, List.head?_cons, Option.map_some, hkind']) hnil
    have hends : Tracks Whatever (Abreast word more) Eq (pure false) (pure false) u v :=
      tracks_pure hst rfl
    rw [← bind_pure (eat .semicolon)]
    exact hends.of_eq (eat_bind_of_ne hkind _) (eat_bind_of_ne hkind' _)

/-! ### Turns of statement loops -/

/-- A reader of statements and one that follows it. -/
structure Pursued (word : String → Prop) (more : Beyond) (statement statement' : Parse Stmt) :
    Prop where
  tracks {s t : State} (hst : Open word more s t) :
    Tracks (Finished more s) (Abreast word more) (Agrees word .stmt)
      statement statement' s t
  builds : Builds 0 heldStmt statement

/-- A problem that is recovered from has been reported. -/
theorem not_silent_recover (problem : Problem) (s : State) :
    ((recover problem).run s).2.diagnostics ≠ [] := by
  have hgives : Gives (fun _ u => (s.report problem).Drops u) (recover problem) s := gives_recover
  obtain ⟨_, -, hreported⟩ := hgives.exists_ok
  rw [hreported.diagnostics]
  exact List.cons_ne_nil _ _

theorem keeps_recover {problem : Problem} : Keeps (recover problem) :=
  fun s hsilent => absurd hsilent (not_silent_recover problem s)

theorem tracks_recovering {statement statement' : Parse Stmt}
    (h : Pursued word more statement statement') (hst : Open word more s t) :
    Tracks (Shut more) (Abreast word more) (Agrees word .stmt) (recovering statement)
      (recovering statement') s t := by
  unfold recovering
  apply tracks_attempt_bind (h.tracks hst)
  · intro stmt s' _ u hrun hend
    cases hrun
    exact hend.parted
  · intro stmt stmt' s' t' hstmt hst'
    exact tracks_pure hst' hstmt
  · intro e s' stmt u hrun hend
    apply not_silent_recover e s'
    rw [show (recover e).run s' = (.ok stmt, u) from hrun]
    exact hend.1

/-- A turn that is counted in silence was within the limit, or it was the last. -/
theorem within_of_silent {before : Nat} (hsilent : ((ensureProgress before).run u).2.diagnostics = [])
    (hrest : u.rest ≠ []) : u.iterations < u.iterationLimit := by
  by_contra hover
  have hbeyond : ((u.count before).iterations > (u.count before).iterationLimit &&
      !(u.count before).atEnd) = true := by
    rw [Bool.and_eq_true, Bool.not_eq_true', Bool.eq_false_iff, decide_eq_true_iff, Ne,
      State.atEnd_iff]
    refine ⟨?_, hrest⟩
    show u.iterations + 1 > u.iterationLimit
    omega
  have hrun : (ensureProgress before).run u =
      (.ok (), { (u.count before).report (.ofSpan .iterationLimit (u.count before).here) with
        rest := [] }) := by
    show ensureProgress before u = _
    rw [ensureProgress_apply, if_pos hbeyond]
    rfl
  rw [hrun] at hsilent
  cases hsilent

theorem State.Abreast.counted (h : Abreast word more u v) (before before' : Nat) :
    Abreast word more (u.count before) (v.count before') :=
  ⟨h.rest, h.last, h.stop, h.previous, h.inHead, h.nextId, congrArg (· + 1) h.iterations, h.limit,
    h.silent, h.silent'⟩

/-- A turn that took no token drops one from both token lists. -/
theorem State.Abreast.turned {before : Nat} (h : Abreast word more u v) (hbefore : 0 < before) :
    Abreast word more (u.turned before) (v.turned (before + more.tokens.length)) := by
  have hlength := h.length
  unfold State.turned
  by_cases hstays : u.rest.length = before
  · have hpos : 0 < u.rest.length := hstays ▸ hbefore
    have hne : u.rest ≠ [] := List.ne_nil_of_length_pos hpos
    have hne' : v.rest ≠ [] := List.ne_nil_of_length_pos (by omega)
    have hopen : Open word more (u.count before) (v.count (before + more.tokens.length)) :=
      ⟨h.counted _ _, fun _ => hne⟩
    rw [if_pos (by simp [hstays, State.atEnd, hne]),
      if_pos (by simp [hlength, hstays, State.atEnd, hne'])]
    exact hopen.next
  · rw [if_neg (by simp [hstays]), if_neg (by simp [hlength, hstays])]
    exact h.counted _ _

theorem State.inHead_turned (before : Nat) (s : State) : (s.turned before).inHead = s.inHead := by
  unfold State.turned
  split
  · exact State.inHead_next _
  · rfl

/-- Turns are counted alike, unless the count of the first passes the limit. -/
theorem tracks_ensureProgress {before : Nat} (hst : Abreast word more u v) (hbefore : 0 < before)
    (hlast : u.rest = [] → more.fenced → u.iterations < u.iterationLimit) :
    Tracks Silent (Abreast word more) (fun _ _ => True) (ensureProgress before)
      (ensureProgress (before + more.tokens.length)) u v := by
  intro _ s' hrun hsilent
  have hwithin : u.rest ≠ [] → u.iterations < u.iterationLimit :=
    within_of_silent (by rw [hrun]; exact hsilent)
  have hwithin' : v.rest ≠ [] → v.iterations < v.iterationLimit := by
    intro hrest
    rw [hst.iterations]
    refine Nat.lt_of_lt_of_le ?_ hst.limit
    by_cases hnil : u.rest = []
    · refine hlast hnil (more.fenced_of_ne fun htokens => hrest ?_)
      have hlength := hst.length
      rw [hnil, htokens] at hlength
      exact List.eq_nil_of_length_eq_zero hlength
    · exact hwithin hnil
  have hleft : (ensureProgress before).run u = (.ok (), u.turned before) :=
    ensureProgress_of_within hwithin
  have hright : (ensureProgress (before + more.tokens.length)).run v =
      (.ok (), v.turned (before + more.tokens.length)) := ensureProgress_of_within hwithin'
  rw [hleft] at hrun
  cases hrun
  exact ⟨(), _, hright, trivial, hst.turned hbefore, State.inHead_turned before u⟩

theorem keeps_ensureProgress (before : Nat) : Keeps (ensureProgress before) :=
  keeps_of_builds idle_ensureProgress

theorem rest_ensureProgress (before : Nat) (h : ((ensureProgress before).run u).2.rest ≠ []) :
    u.rest ≠ [] := by
  intro hnil
  have hfollows : u.Follows ((ensureProgress before).run u).2 := follows_ensureProgress
  have hrest := hfollows.rest
  rw [hnil, List.suffix_nil] at hrest
  exact h hrest

/-- An item of a statement loop and the count of its turn. The last token is not taken, since
something must follow that closes the loop. -/
theorem tracks_turn {α β γ δ : Type} {item : Parse α} {item' : Parse β} {Q : α → β → Prop}
    {R : γ → δ → Prop} {result : α → γ} {result' : β → δ} (hst : Open word more s t)
    (hpos : 0 < s.rest.length)
    (hitem : Tracks (Shut more) (Abreast word more) Q item item' s t)
    (hresult : ∀ {a b}, Q a b → R (result a) (result' b)) :
    Tracks (Shut more) (Open word more) R (do
      let a ← item
      ensureProgress s.rest.length
      return result a) (do
      let b ← item'
      ensureProgress t.rest.length
      return result' b) s t := by
  have hback : ∀ {a : α} {s' : State} {c : γ} {u : State},
      (do ensureProgress s.rest.length; return result a : Parse γ).run s' = (.ok c, u) →
      Shut more c u → (ensureProgress s.rest.length).run s' = (.ok (), u) := by
    intro a s' c u hrun _
    obtain ⟨_, w, hcount, hpure⟩ := run_bind_ok.1 hrun
    cases hpure
    exact hcount
  apply tracks_bind_if hitem
  · intro a s' c u hrun hend
    have hcount := hback hrun hend
    constructor
    · apply keeps_ensureProgress s.rest.length s'
      rw [hcount]
      exact hend.1
    · intro hmore
      apply rest_ensureProgress s.rest.length
      rw [hcount]
      exact hend.2 hmore
  · intro a b s' t' hab hst'
    rw [hst.length]
    intro c u hrun hend
    have hcount := hback hrun hend
    have hnot : s'.rest = [] → more.fenced → s'.iterations < s'.iterationLimit := by
      intro hnil hmore
      refine absurd hnil (rest_ensureProgress s.rest.length ?_)
      rw [hcount]
      exact hend.2 hmore
    obtain ⟨_, v, hright, -, huv, hhead⟩ :=
      tracks_ensureProgress hst' hpos hnot () u hcount hend.1
    obtain ⟨_, w, hcount', hpure⟩ := run_bind_ok.1 hrun
    rw [hcount] at hcount'
    cases hcount'
    cases hpure
    exact ⟨result' b, v, run_bind_ok.2 ⟨(), v, hright, rfl⟩, hresult hab, ⟨huv, hend.2⟩, hhead⟩

/-- A loop of statements that something must close. At the end it is done, so no turn of it takes
the last token. -/
theorem tracks_closedLoop {α β γ δ : Type} {turn : γ → Parse (Turn γ α)}
    {turn' : δ → Parse (Turn δ β)} {R : γ → δ → Prop} {Q : α → β → Prop}
    (hst : Open word more s t)
    (hturn : ∀ {c d s t}, R c d → Open word more s t →
      Tracks (Shut more) (Open word more) (Turn.Rel R Q) (turn c) (turn' d) s t)
    (hkeep : ∀ c, Keeps (turn c))
    (hdone : ∀ c s, s.rest = [] → ∃ a, (turn c).run s = (.ok (.done a), s)) {c : γ} {d : δ}
    (hcd : R c d) :
    Tracks (Shut more) (Open word more) Q (iterate turn c) (iterate turn' d) s t := by
  have hloop : ∀ turns turns' c d {s t}, turns ≤ turns' → Open word more s t → R c d →
      Tracks (Shut more) (Open word more) Q (iterateFor turn turns c) (iterateFor turn' turns' d)
        s t := by
    intro turns
    induction turns with
    | zero => exact fun _ _ _ _ _ _ _ _ => tracks_fail
    | succ turns ih =>
        intro turns' c d s t hle hst hcd
        obtain ⟨turns', rfl⟩ : ∃ n, turns' = n + 1 := ⟨turns' - 1, by omega⟩
        unfold iterateFor
        apply tracks_bind_if (hturn hcd hst)
        · intro turned s' a u hrun hend
          cases turned with
          | done a =>
              cases hrun
              exact hend
          | again c =>
              refine ⟨keeps_iterateFor hkeep turns c s' (by rw [hrun]; exact hend.1), ?_⟩
              intro hmore hnil
              have hstays : u = s' := by
                cases turns with
                | zero => cases hrun
                | succ turns =>
                    obtain ⟨turned, w, hturned, hrest⟩ := run_bind_ok.1 hrun
                    obtain ⟨a, ha⟩ := hdone c s' hnil
                    rw [ha] at hturned
                    cases hturned
                    cases hrest
                    rfl
              rw [hstays] at hend
              exact hend.2 hmore hnil
        · intro turned turned' s' t' hturned hst'
          cases hturned with
          | again hcd => exact ih turns' _ _ (by omega) hst' hcd
          | done hab => exact tracks_pure hst' hab
  exact hloop _ _ c d hst.length_le hst hcd

/-- What closes a loop stands before everything else that is to come. -/
theorem shut_of_expect {α β : Type} {a : β} {c : α} {kind : TokenKind} {expected : Expected}
    {f : Token → Parse α} (hkind : kind ≠ .eof) (hkeep : ∀ token, Keeps (f token))
    (hrun : (expect kind expected >>= f).run s = (.ok c, u)) (hsilent : u.diagnostics = []) :
    Shut more a s := by
  refine ⟨keeps_expect_bind hkeep s (by rw [hrun]; exact hsilent), fun _ hnil => ?_⟩
  obtain ⟨token, w, hexpect, -⟩ := run_bind_ok.1 hrun
  exact hkind ((kind_of_expect hexpect).symm.trans (State.kind_of_nil hnil))

/-! ### Blocks -/

section Bodies

variable {statement statement' : Parse Stmt} (hstatement : Pursued word more statement statement')

include hstatement

theorem tracks_blockStep {close : TokenKind} {stmts stmts' : List Stmt}
    (hstmts : AgreesAll word .stmt stmts stmts') (hst : Open word more s t) :
    Tracks (Shut more) (Open word more)
      (Turn.Rel (AgreesAll word .stmt) (AgreesAll word .stmt))
      (blockStep statement close stmts) (blockStep statement' close stmts') s t := by
  unfold blockStep
  apply tracks_get_bind
  rw [hst.kind, hst.atEnd]
  split
  next => exact tracks_done hst hstmts
  next hend =>
    have hpos : 0 < s.rest.length := by
      apply State.length_pos_of_not_atEnd
      intro hatEnd
      exact hend (by rw [hatEnd, Bool.or_true])
    apply tracks_eat_bind hst
    · intro _ hnext
      rw [if_pos rfl, if_pos rfl]
      intro turned u hrun hshut
      cases hrun
      exact ⟨.again stmts', _, rfl, .again hstmts, ⟨hnext, hshut.2⟩, rfl⟩
    · intro _
      rw [if_neg Bool.false_ne_true, if_neg Bool.false_ne_true]
      exact tracks_turn hst hpos (tracks_recovering hstatement hst) fun hstmt =>
        .again (hstmts.concat hstmt)

theorem keeps_blockStep {close : TokenKind} {stmts : List Stmt} :
    Keeps (blockStep statement close stmts) := by
  unfold blockStep
  apply keeps_get_bind
  intro s
  split
  · exact keeps_pure _
  · apply keeps_eat_if (keeps_pure _)
    apply keeps_bind (keeps_of_builds (builds_recovering hstatement.builds))
    intro stmt
    exact keeps_bind (keeps_ensureProgress _) fun _ => keeps_pure _

theorem tracks_block {bracket : Bracket} (hst : Open word more s t) :
    Tracks Silent (Open word more) (Agrees word .block) (block statement bracket)
      (block statement' bracket) s t := by
  have hopening : bracket.opening ≠ .semicolon := by cases bracket <;> decide
  have hclosing : bracket.closing ≠ .semicolon ∧ bracket.closing ≠ .eof := by
    cases bracket <;> decide
  unfold block
  apply tracks_here_bind hst
  apply tracks_eat_if hst hopening
  · intro _ hnext
    refine tracks_bind_if (tracks_closedLoop (R := AgreesAll word .stmt) hnext
      (fun hstmts hst' => tracks_blockStep hstatement hstmts hst') ?_ ?_ fun _ => rfl) ?_ ?_
    · exact fun stmts => keeps_blockStep hstatement
    · intro stmts s' hnil
      refine ⟨stmts, ?_⟩
      unfold blockStep
      show (if _ then _ else _ : Parse _) s' = _
      rw [if_pos (by simp [State.atEnd, hnil])]
      rfl
    · intro stmts s' b u hrun hsilent
      exact shut_of_expect hclosing.2 (fun _ => keeps_spanFrom_bind fun _ => keeps_pure _) hrun
        hsilent
    · intro stmts stmts' s' t' hstmts hst'
      apply tracks_expect_bind hst' hclosing.1
      intro _ _ _ hnext'
      apply tracks_spanFrom_bind hnext'.toAbreast
      exact tracks_pure hnext' (agrees_statements hstmts)
  · intro _
    exact tracks_unexpected

theorem tracks_body (hst : Open word more s t) :
    Tracks Silent (Open word more) (Agrees word .block) (body statement) (body statement') s t := by
  unfold body
  apply tracks_kind_bind hst
  split
  · exact tracks_block hstatement hst
  · exact tracks_block hstatement hst
  · exact tracks_unexpected

end Bodies

end Grammar

end ComponentLang
