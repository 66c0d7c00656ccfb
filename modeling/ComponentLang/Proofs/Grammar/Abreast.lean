import ComponentLang.Proofs.Grammar.Ahead
import ComponentLang.Proofs.Grammar.Beside
import ComponentLang.Proofs.Grammar.Ledger
import ComponentLang.Proofs.Scan.Words
import ComponentLang.Proofs.Tree.Names

/-!
# A reader that follows another

Of two readers the first reads well what it reads. The second has the same tokens to come, but that
words of the language may have other texts and that there may be `more` behind them. `Tracks` says
that it then reads the same: what it gives goes with what the first gives, and their states are
abreast again.

If something is fenced off behind the tokens of the first, the last of these is a semicolon. No
expression and no bracket goes beyond it, so neither reader looks past it while it has not been
taken. There is one rule for each way of making a reader.
-/
namespace ComponentLang

/-- The second token is the first, or the first is a word of the language whose text may be given
up. Neither of the two texts that are compared with a fixed one is lost or made. -/
structure Token.Respells (word : String → Prop) (t t' : Token) : Prop where
  kind : t'.kind = t.kind
  span : t'.span = t.span
  lexeme : t'.lexeme ≠ t.lexeme → t.kind.isWord = true ∧ word t.lexeme
  array : (t'.lexeme == "Array") = (t.lexeme == "Array")
  value : t.kind = .boolean → (t'.lexeme == "true") = (t.lexeme == "true")

namespace Token.Respells

variable {word : String → Prop} {t t' : Token}

theorem refl (t : Token) : t.Respells word t :=
  ⟨rfl, rfl, fun h => absurd rfl h, rfl, fun _ => rfl⟩

theorem lexeme_eq (h : t.Respells word t') (hkind : t.kind.isWord = false) :
    t'.lexeme = t.lexeme := by
  by_contra hne
  rw [(h.lexeme hne).1] at hkind
  cases hkind

theorem name_eq (h : t.Respells word t') (hword : ¬ word t.lexeme) : t'.lexeme = t.lexeme := by
  by_contra hne
  exact hword (h.lexeme hne).2

end Token.Respells

namespace Grammar

/-! ## States -/

/-- What the second reader has to come behind the tokens of the first, and the place where its input
ends. If this is fenced off, the tokens of the first end with a semicolon. -/
structure Beyond where
  tokens : List Token
  stop : Span
  fenced : Prop
  fenced_of_ne : tokens ≠ [] → fenced

namespace Beyond

/-- The readers come to the same end. -/
def nothing (stop : Span) : Beyond := ⟨[], stop, False, fun h => h rfl⟩

theorem tokens_eq_nil {more : Beyond} (h : ¬ more.fenced) : more.tokens = [] := by
  by_contra hne
  exact h (more.fenced_of_ne hne)

end Beyond

namespace State

/-- The second state has the tokens of the first to come, and then `more`. -/
structure Abreast (word : String → Prop) (more : Beyond) (s t : State) : Prop where
  rest : ∃ ahead, t.rest = ahead ++ more.tokens ∧
    List.Forall₂ (Token.Respells word) s.rest ahead
  last : more.fenced → ∀ final ∈ s.rest.getLast?, final.kind = .semicolon
  stop : t.stop = more.stop ∧ (¬ more.fenced → s.stop = more.stop)
  previous : t.previous = s.previous
  inHead : t.inHead = s.inHead
  nextId : t.nextId = s.nextId
  iterations : t.iterations = s.iterations
  limit : s.iterationLimit ≤ t.iterationLimit
  silent : s.diagnostics = []
  silent' : t.diagnostics = []

/-- Moreover the first state has not come to the end if there is more behind it. -/
structure Open (word : String → Prop) (more : Beyond) (s t : State) : Prop
    extends Abreast word more s t where
  goesOn : more.fenced → s.rest ≠ []

variable {word : String → Prop} {more : Beyond} {s t : State}

theorem inHead_next (s : State) : s.next.inHead = s.inHead := by
  unfold State.next
  split <;> rfl

theorem Abreast.length (h : Abreast word more s t) :
    t.rest.length = s.rest.length + more.tokens.length := by
  obtain ⟨ahead, hrest, htokens⟩ := h.rest
  rw [hrest, List.length_append, htokens.length_eq]

theorem Abreast.spanFrom (h : Abreast word more s t) (start : Span) :
    t.spanFrom start = s.spanFrom start := by
  unfold State.spanFrom
  rw [h.previous]

theorem Abreast.numbered (h : Abreast word more s t) :
    Abreast word more { s with nextId := s.nextId + 1 } { t with nextId := t.nextId + 1 } :=
  ⟨h.rest, h.last, h.stop, h.previous, h.inHead, congrArg (· + 1) h.nextId, h.iterations, h.limit,
    h.silent, h.silent'⟩

theorem Abreast.headed (h : Abreast word more s t) (inHead : Bool) :
    Abreast word more { s with inHead } { t with inHead } :=
  ⟨h.rest, h.last, h.stop, h.previous, rfl, h.nextId, h.iterations, h.limit, h.silent, h.silent'⟩

theorem Open.numbered (h : Open word more s t) :
    Open word more { s with nextId := s.nextId + 1 } { t with nextId := t.nextId + 1 } :=
  ⟨h.toAbreast.numbered, h.goesOn⟩

theorem Open.headed (h : Open word more s t) (inHead : Bool) :
    Open word more { s with inHead } { t with inHead } :=
  ⟨h.toAbreast.headed inHead, h.goesOn⟩

namespace Open

theorem length_le (h : Open word more s t) : s.rest.length + 1 ≤ t.rest.length + 1 := by
  have hlength := h.length
  omega

theorem not_fenced (h : Open word more s t) (hs : s.rest = []) : ¬ more.fenced :=
  fun hfenced => h.goesOn hfenced hs

theorem peek (h : Open word more s t) : s.peek.Respells word t.peek := by
  obtain ⟨ahead, hrest, htokens⟩ := h.rest
  unfold State.peek
  rw [hrest]
  generalize hs : s.rest = rest at htokens
  cases htokens with
  | nil =>
      have hmore := h.not_fenced hs
      rw [Beyond.tokens_eq_nil hmore]
      show Token.Respells word (.ofKind .eof "" s.stop) (.ofKind .eof "" t.stop)
      rw [h.stop.1, h.stop.2 hmore]
      exact .refl _
  | cons htoken _ => exact htoken

theorem kind (h : Open word more s t) : t.kind = s.kind := h.peek.kind

theorem here (h : Open word more s t) : t.here = s.here := h.peek.span

theorem atEnd (h : Open word more s t) : t.atEnd = s.atEnd := by
  have hlength := h.length
  unfold State.atEnd
  rw [Bool.eq_iff_iff, List.isEmpty_iff, List.isEmpty_iff, ← List.length_eq_zero_iff,
    ← List.length_eq_zero_iff]
  constructor
  · intro hnil
    omega
  · intro hnil
    have hmore := h.not_fenced (List.eq_nil_of_length_eq_zero hnil)
    rw [hlength, hnil, Beyond.tokens_eq_nil hmore]
    rfl

/-- Once a token is taken the states are abreast again. -/
theorem next (h : Open word more s t) : Abreast word more s.next t.next := by
  obtain ⟨ahead, hrest, htokens⟩ := h.rest
  unfold State.next
  rw [hrest]
  generalize hs : s.rest = rest at htokens
  cases htokens with
  | nil =>
      rw [Beyond.tokens_eq_nil (h.not_fenced hs)]
      exact h.toAbreast
  | @cons token token' rest ahead htoken htokens =>
      refine ⟨⟨ahead, rfl, htokens⟩, ?_, h.stop, congrArg some htoken.span, h.inHead, h.nextId,
        h.iterations, h.limit, h.silent, h.silent'⟩
      intro hmore final hfinal
      refine h.last hmore final ?_
      rw [hs]
      cases rest with
      | nil => cases hfinal
      | cons second rest => rwa [List.getLast?_cons_cons]

/-- What is not a semicolon is not the last token when there is more. -/
theorem next_of_ne (h : Open word more s t) (hkind : s.kind ≠ .semicolon) :
    Open word more s.next t.next where
  toAbreast := h.next
  goesOn hmore hnil := by
    have hrest := h.goesOn hmore
    cases hs : s.rest with
    | nil => exact hrest hs
    | cons token rest =>
        rw [State.next_eq hs] at hnil
        have hlast := h.last hmore token (by rw [hs, show rest = [] from hnil]; rfl)
        exact hkind (by rw [State.kind_of_rest hs, hlast])

theorem secondKind (h : Open word more s t) (hgoes : s.kind ≠ .eof) (hkind : s.kind ≠ .semicolon) :
    t.secondKind = s.secondKind := by
  have hgoes' : t.kind ≠ .eof := h.kind ▸ hgoes
  rw [secondKind_eq (rest_ne_nil_of_kind hgoes), secondKind_eq (rest_ne_nil_of_kind hgoes'),
    (h.next_of_ne hkind).kind]

/-- Whether two tokens come next of which the first is a bracket. -/
theorem bracketed (h : Open word more s t) (second : TokenKind) :
    (t.kind = .lbracket && t.secondKind = second : Bool) =
      (s.kind = .lbracket && s.secondKind = second : Bool) := by
  rw [h.kind]
  by_cases hkind : s.kind = .lbracket
  · rw [h.secondKind (by simp [hkind]) (by simp [hkind])]
  · simp [hkind]

end Open

end State

open State (Abreast Open)

/-! ## Readers -/

namespace Parse

variable {α β γ δ : Type} {word : String → Prop} {more : Beyond} {s t : State}
variable {E : α → State → Prop} {F : γ → State → Prop} {C D : State → State → Prop}
variable {Q : α → β → Prop} {R : γ → δ → Prop} {p : Parse α} {q : Parse β}

/-- If `p` succeeds at `s` and ends in `E`, then `q` succeeds at `t`: what they give goes together
by `Q`, and so do their states by `C`. A restriction of the head is as it was before. -/
def Tracks (E : α → State → Prop) (C : State → State → Prop) (Q : α → β → Prop) (p : Parse α)
    (q : Parse β) (s t : State) : Prop :=
  ∀ a s', p.run s = (.ok a, s') → E a s' →
    ∃ b t', q.run t = (.ok b, t') ∧ Q a b ∧ C s' t' ∧ s'.inHead = s.inHead

/-- Every end is as good as any. -/
abbrev Whatever (_ : α) (_ : State) : Prop := True

/-- No problem has been reported. -/
abbrev Silent (_ : α) (s : State) : Prop := s.diagnostics = []

/-- What a reader does that reports nothing. -/
abbrev Mirrors (word : String → Prop) (more : Beyond) (Q : α → β → Prop) (p : Parse α)
    (q : Parse β) (s t : State) : Prop :=
  Tracks Whatever (Open word more) Q p q s t

theorem tracks_pure {a : α} {b : β} (hst : C s t) (hab : Q a b) :
    Tracks E C Q (pure a) (pure b) s t := by
  intro a' s' hrun _
  cases hrun
  exact ⟨b, t, rfl, hab, hst, rfl⟩

theorem tracks_throw {e : Problem} : Tracks E C Q (throw e) q s t := by
  intro a s' hrun
  cases hrun

theorem tracks_fail {cause : Cause} : Tracks E C Q (fail cause) q s t := by
  intro a s' hrun
  cases hrun

theorem tracks_unexpected {expected : Expected} : Tracks E C Q (unexpected expected) q s t := by
  intro a s' hrun
  cases hrun

theorem Tracks.mono {E' : α → State → Prop} {C' : State → State → Prop} {Q' : α → β → Prop}
    (h : Tracks E C Q p q s t) (hE : ∀ {a s'}, E' a s' → E a s')
    (hC : ∀ {a s' t'}, E' a s' → C s' t' → C' s' t') (hQ : ∀ {a b}, Q a b → Q' a b) :
    Tracks E' C' Q' p q s t := by
  intro a s' hrun hend
  obtain ⟨b, t', hrun', hab, hst, hhead⟩ := h a s' hrun (hE hend)
  exact ⟨b, t', hrun', hQ hab, hC hend hst, hhead⟩

/-- What is known of every end is known of those that matter. -/
theorem Tracks.sure (h : Tracks Whatever C Q p q s t) : Tracks E C Q p q s t :=
  h.mono (fun _ => trivial) (fun _ h => h) fun h => h

/-- Readers that do what others do elsewhere follow each other if the others do there. -/
theorem Tracks.of_eq_at {p' : Parse α} {q' : Parse β} {u v : State} (h : Tracks E C Q p' q' u v)
    (hp : p s = p' u) (hq : q t = q' v) (hhead : u.inHead = s.inHead) : Tracks E C Q p q s t := by
  intro a s' hrun
  have hrun' : p'.run u = (.ok a, s') := hp.symm.trans hrun
  have hsame : q.run t = q'.run v := hq
  rw [hsame, ← hhead]
  exact h a s' hrun'

/-- Readers that are chosen by looking at the states do there what the chosen ones do. -/
theorem Tracks.of_eq {p' : Parse α} {q' : Parse β} (h : Tracks E C Q p' q' s t) (hp : p s = p' s)
    (hq : q t = q' t) : Tracks E C Q p q s t :=
  h.of_eq_at hp hq rfl

/-- Two readers in a row succeed if the first succeeds and then the second. -/
theorem run_bind_ok {f : α → Parse γ} {c : γ} {u : State} :
    (p >>= f).run s = (.ok c, u) ↔ ∃ a s', p.run s = (.ok a, s') ∧ (f a).run s' = (.ok c, u) := by
  rw [run_bind]
  rcases p.run s with ⟨e | a, s'⟩ <;> simp

/-- Two readers in a row, of which the first ends well if the second does. -/
theorem tracks_bind_if {f : α → Parse γ} {g : β → Parse δ} (hp : Tracks E C Q p q s t)
    (hback : ∀ {a s' c u}, (f a).run s' = (.ok c, u) → F c u → E a s')
    (hf : ∀ {a b s' t'}, Q a b → C s' t' → Tracks F D R (f a) (g b) s' t') :
    Tracks F D R (p >>= f) (q >>= g) s t := by
  intro c u hrun hend
  obtain ⟨a, s', hp', hf'⟩ := run_bind_ok.1 hrun
  obtain ⟨b, t', hq', hab, hst, hhead⟩ := hp a s' hp' (hback hf' hend)
  obtain ⟨d, v, hg', hcd, huv, hhead'⟩ := hf hab hst c u hf' hend
  exact ⟨d, v, run_bind_ok.2 ⟨b, t', hq', hg'⟩, hcd, huv, hhead'.trans hhead⟩

theorem tracks_bind {f : α → Parse γ} {g : β → Parse δ} (hp : Tracks Whatever C Q p q s t)
    (hf : ∀ {a b s' t'}, Q a b → C s' t' → Tracks F D R (f a) (g b) s' t') :
    Tracks F D R (p >>= f) (q >>= g) s t :=
  tracks_bind_if hp (fun _ _ => trivial) hf

theorem tracks_map {f : α → γ} {g : β → δ} (hp : Tracks (fun a => F (f a)) C Q p q s t)
    (hfg : ∀ {a b}, Q a b → R (f a) (g b)) : Tracks F C R (f <$> p) (g <$> q) s t := by
  rw [map_eq_pure_bind, map_eq_pure_bind]
  apply tracks_bind_if hp
  · intro a s' c u hrun hend
    cases hrun
    exact hend
  · intro a b s' t' hab hst
    exact tracks_pure hst (hfg hab)

/-- One of two readers on either side, and the same after either. -/
theorem tracks_ite_bind {c : Prop} [Decidable c] {p' : Parse α} {q' : Parse β} {f : α → Parse γ}
    {g : β → Parse δ} (hp : Tracks Whatever C Q p q s t) (hp' : Tracks Whatever C Q p' q' s t)
    (hf : ∀ {a b s' t'}, Q a b → C s' t' → Tracks F D R (f a) (g b) s' t') :
    Tracks F D R (if c then p >>= f else p' >>= f) (if c then q >>= g else q' >>= g) s t := by
  split
  · exact tracks_bind hp hf
  · exact tracks_bind hp' hf

/-! ### Looking at the states -/

theorem tracks_get_bind {f : State → Parse α} {g : State → Parse β}
    (h : Tracks E C Q (f s) (g t) s t) : Tracks E C Q (get >>= f) (get >>= g) s t := h

theorem tracks_peek_bind {f : Token → Parse α} {g : Token → Parse β} (hst : Open word more s t)
    (h : ∀ {token}, s.peek.Respells word token → Tracks E C Q (f s.peek) (g token) s t) :
    Tracks E C Q (peek >>= f) (peek >>= g) s t := h hst.peek

theorem tracks_kind_bind {f : TokenKind → Parse α} {g : TokenKind → Parse β}
    (hst : Open word more s t) (h : Tracks E C Q (f s.kind) (g s.kind) s t) :
    Tracks E C Q (kind >>= f) (kind >>= g) s t := by
  have hends : Tracks E C Q (f s.kind) (g t.kind) s t := hst.kind.symm ▸ h
  exact hends

theorem tracks_here_bind {f : Span → Parse α} {g : Span → Parse β} (hst : Open word more s t)
    (h : Tracks E C Q (f s.here) (g s.here) s t) : Tracks E C Q (here >>= f) (here >>= g) s t := by
  have hends : Tracks E C Q (f s.here) (g t.here) s t := hst.here.symm ▸ h
  exact hends

theorem tracks_spanFrom_bind {start : Span} {f : Span → Parse α} {g : Span → Parse β}
    (hst : Abreast word more s t)
    (h : Tracks E C Q (f (s.spanFrom start)) (g (s.spanFrom start)) s t) :
    Tracks E C Q (spanFrom start >>= f) (spanFrom start >>= g) s t := by
  have hends : Tracks E C Q (f (s.spanFrom start)) (g (t.spanFrom start)) s t :=
    (hst.spanFrom start).symm ▸ h
  exact hends

/-! ### Taking tokens and numbering nodes -/

theorem tracks_advance_bind {f : Token → Parse α} {g : Token → Parse β} (hst : Open word more s t)
    (hkind : s.kind ≠ .semicolon)
    (h : ∀ {token}, s.peek.Respells word token → Open word more s.next t.next →
      Tracks E C Q (f s.peek) (g token) s.next t.next) :
    Tracks E C Q (advance >>= f) (advance >>= g) s t :=
  (h hst.peek (hst.next_of_ne hkind)).of_eq_at rfl rfl (State.inHead_next s)

theorem tracks_eat_bind {kind : TokenKind} {f : Bool → Parse α} {g : Bool → Parse β}
    (hst : Open word more s t)
    (htaken : s.kind = kind → Abreast word more s.next t.next →
      Tracks E C Q (f true) (g true) s.next t.next)
    (hleft : s.kind ≠ kind → Tracks E C Q (f false) (g false) s t) :
    Tracks E C Q (eat kind >>= f) (eat kind >>= g) s t := by
  by_cases h : s.kind = kind
  · have hends := htaken h hst.next
    exact hends.of_eq_at (eat_bind_of_eq h f) (eat_bind_of_eq (hst.kind.trans h) g)
      (State.inHead_next s)
  · have hends := hleft h
    exact hends.of_eq (eat_bind_of_ne h f) (eat_bind_of_ne (hst.kind ▸ h) g)

/-- The next token is taken and the readers go on with `p` and `q`, or they go on with `p'` and
`q'`. -/
theorem tracks_eat_if {kind : TokenKind} {p' : Parse α} {q' : Parse β} (hst : Open word more s t)
    (hkind : kind ≠ .semicolon)
    (htaken : s.kind = kind → Open word more s.next t.next → Tracks E C Q p q s.next t.next)
    (hleft : s.kind ≠ kind → Tracks E C Q p' q' s t) :
    Tracks E C Q (eat kind >>= fun taken => if taken = true then p else p')
      (eat kind >>= fun taken => if taken = true then q else q') s t := by
  apply tracks_eat_bind hst
  · intro h _
    simpa using htaken h (hst.next_of_ne (h ▸ hkind))
  · intro h
    simpa using hleft h

/-- One of two readers after the next token is looked at, and the same after either. -/
theorem tracks_eat_ite_bind {kind : TokenKind} {p' : Parse α} {q' : Parse β} {f : α → Parse γ}
    {g : β → Parse δ} (hst : Open word more s t) (hkind : kind ≠ .semicolon)
    (hp : s.kind = kind → Open word more s.next t.next → Tracks Whatever D Q p q s.next t.next)
    (hp' : Tracks Whatever D Q p' q' s t)
    (hf : ∀ {a b s' t'}, Q a b → D s' t' → Tracks F C R (f a) (g b) s' t') :
    Tracks F C R (eat kind >>= fun taken => if taken = true then p >>= f else p' >>= f)
      (eat kind >>= fun taken => if taken = true then q >>= g else q' >>= g) s t :=
  tracks_eat_if hst hkind (fun h hnext => tracks_bind (hp h hnext) hf) fun _ => tracks_bind hp' hf

/-- What is expected stands there if it is found. -/
theorem kind_of_expect {kind : TokenKind} {expected : Expected} {token : Token} {u : State}
    (hrun : (expect kind expected).run s = (.ok token, u)) : s.kind = kind := by
  by_contra hne
  have hfails : (expect kind expected).run s = (unexpected expected : Parse Token).run s := by
    show (if s.kind = kind then advance else unexpected expected : Parse Token) s = _
    rw [if_neg hne]
    rfl
  rw [hfails] at hrun
  cases hrun

theorem tracks_expect_bind {kind : TokenKind} {expected : Expected} {f : Token → Parse α}
    {g : Token → Parse β} (hst : Open word more s t) (hkind : kind ≠ .semicolon)
    (h : ∀ {token}, s.kind = kind → s.peek.Respells word token → Open word more s.next t.next →
      Tracks E C Q (f s.peek) (g token) s.next t.next) :
    Tracks E C Q (expect kind expected >>= f) (expect kind expected >>= g) s t := by
  by_cases hnext : s.kind = kind
  · have hends := h hnext hst.peek (hst.next_of_ne (hnext ▸ hkind))
    exact hends.of_eq_at (expect_bind hnext f) (expect_bind (hst.kind.trans hnext) g)
      (State.inHead_next s)
  · intro a s' hrun
    obtain ⟨token, u, hexpect, -⟩ := run_bind_ok.1 hrun
    exact absurd (kind_of_expect hexpect) hnext

theorem tracks_expectIdentifier_bind {expected : Expected} {f : String → Parse α}
    {g : String → Parse β} (hst : Open word more s t)
    (h : s.kind = .identifier → Open word more s.next t.next →
      Tracks E C Q (f s.peek.lexeme) (g s.peek.lexeme) s.next t.next) :
    Tracks E C Q (expectIdentifier expected >>= f) (expectIdentifier expected >>= g) s t := by
  unfold expectIdentifier
  rw [bind_assoc, bind_assoc]
  apply tracks_expect_bind hst (by simp)
  intro token hkind htoken hnext
  have hplain : s.peek.kind.isWord = false := by
    rw [show s.peek.kind = .identifier from hkind]
    rfl
  have hends := h hkind hnext
  rw [← htoken.lexeme_eq hplain] at hends ⊢
  exact hends

theorem tracks_node_bind {span : Span} {f : Node → Parse α} {g : Node → Parse β}
    (hst : Open word more s t)
    (h : ∀ {node s' t'}, Open word more s' t' → Tracks E C Q (f node) (g node) s' t') :
    Tracks E C Q (node span >>= f) (node span >>= g) s t := by
  have hends := @h ⟨s.nextId, span⟩ _ _ hst.numbered
  have hnode : node span t = (pure ⟨s.nextId, span⟩ : Parse Node)
      { t with nextId := t.nextId + 1 } := by
    rw [← hst.nextId]
    rfl
  exact hends.of_eq_at rfl (bind_of_eq_pure hnode g) rfl

/-! ### Readers made from readers -/

theorem mirrors_withHead {inHead : Bool} (hst : Open word more s t)
    (h : Open word more { s with inHead } { t with inHead } →
      Mirrors word more Q p q { s with inHead } { t with inHead }) :
    Mirrors word more Q (withHead inHead p) (withHead inHead q) s t := by
  intro a s' hrun _
  have hrunp : (withHead inHead p).run s = ((p.run { s with inHead }).1,
      { (p.run { s with inHead }).2 with inHead := s.inHead }) := rfl
  rw [hrunp] at hrun
  obtain ⟨hok, rfl⟩ := Prod.mk.inj hrun
  obtain ⟨b, t', hq, hab, hst', -⟩ := h (hst.headed inHead) a _ (Prod.ext hok rfl) trivial
  have hrunq : (withHead inHead q).run t = ((q.run { t with inHead }).1,
      { (q.run { t with inHead }).2 with inHead := t.inHead }) := rfl
  refine ⟨b, { t' with inHead := t.inHead }, ?_, hab, ?_, rfl⟩
  · rw [hrunq, hq]
  · rw [hst.inHead]
    exact hst'.headed s.inHead

theorem mirrors_nested (hst : Open word more s t)
    (h : Open word more { s with inHead := false } { t with inHead := false } →
      Mirrors word more Q p q { s with inHead := false } { t with inHead := false }) :
    Mirrors word more Q (nested p) (nested q) s t :=
  mirrors_withHead hst h

/-- A failure that is given as a value may be left out when no end after it matters. -/
theorem tracks_attempt_bind {f : Except Problem α → Parse γ} {g : Except Problem β → Parse δ}
    (hp : Tracks E C Q p q s t)
    (hback : ∀ {a s' c u}, (f (.ok a)).run s' = (.ok c, u) → F c u → E a s')
    (hok : ∀ {a b s' t'}, Q a b → C s' t' → Tracks F D R (f (.ok a)) (g (.ok b)) s' t')
    (herror : ∀ {e s' c u}, (f (.error e)).run s' = (.ok c, u) → ¬ F c u) :
    Tracks F D R (attempt p >>= f) (attempt q >>= g) s t := by
  have hrunp : (attempt p).run s = (.ok (p.run s).1, (p.run s).2) := rfl
  have hrunq : (attempt q).run t = (.ok (q.run t).1, (q.run t).2) := rfl
  intro c u hrun hend
  obtain ⟨result, s', hresult, hf⟩ := run_bind_ok.1 hrun
  rw [hrunp] at hresult
  obtain ⟨hresult, rfl⟩ := Prod.mk.inj hresult
  cases hp' : (p.run s).1 with
  | error e =>
      rw [hp'] at hresult
      cases hresult
      exact absurd hend (herror hf)
  | ok a =>
      rw [hp'] at hresult
      cases hresult
      obtain ⟨b, t', hq, hab, hst, hhead⟩ := hp a _ (Prod.ext hp' rfl) (hback hf hend)
      obtain ⟨d, v, hg, hcd, huv, hhead'⟩ := hok hab hst c u hf hend
      refine ⟨d, v, run_bind_ok.2 ⟨.ok b, t', ?_, hg⟩, hcd, huv, hhead'.trans hhead⟩
      rw [hrunq, hq]

/-! ### Loops -/

/-- Both turns are followed by another, or both are the last. -/
inductive Turn.Rel (R : γ → δ → Prop) (Q : α → β → Prop) : Turn γ α → Turn δ β → Prop
  | again {c : γ} {d : δ} : R c d → Turn.Rel R Q (.again c) (.again d)
  | done {a : α} {b : β} : Q a b → Turn.Rel R Q (.done a) (.done b)

/-- The last turn of a loop ends as the loop does. -/
def Turn.Last (E : α → State → Prop) : Turn γ α → State → Prop
  | .again _, _ => True
  | .done a, s => E a s

theorem tracks_again {c : γ} {d : δ} {G : Turn γ α → State → Prop} (hst : C s t) (hcd : R c d) :
    Tracks G C (Turn.Rel R Q) (pure (.again c)) (pure (.again d)) s t :=
  tracks_pure hst (.again hcd)

theorem tracks_done {a : α} {b : β} {G : Turn γ α → State → Prop} (hst : C s t) (hab : Q a b) :
    Tracks G C (Turn.Rel R Q) (pure (.done a)) (pure (.done b)) s t :=
  tracks_pure hst (.done hab)

theorem tracks_iterateFor {turn : γ → Parse (Turn γ α)} {turn' : δ → Parse (Turn δ β)}
    (hturn : ∀ {c d s t}, R c d → Open word more s t →
      Tracks (Turn.Last E) (Open word more) (Turn.Rel R Q) (turn c) (turn' d) s t)
    {turns turns' : Nat} (hle : turns ≤ turns') {c : γ} {d : δ} (hst : Open word more s t)
    (hcd : R c d) :
    Tracks E (Open word more) Q (iterateFor turn turns c) (iterateFor turn' turns' d) s t := by
  induction turns generalizing turns' c d s t with
  | zero => exact tracks_fail
  | succ turns ih =>
      obtain ⟨turns', rfl⟩ : ∃ n, turns' = n + 1 := ⟨turns' - 1, by omega⟩
      unfold iterateFor
      apply tracks_bind_if (hturn hcd hst)
      · intro turned s' a u hrun hend
        cases turned with
        | again c => trivial
        | done a =>
            cases hrun
            exact hend
      · intro turned turned' s' t' hturned hst'
        cases hturned with
        | again hcd => exact ih (by omega) hst' hcd
        | done hab => exact tracks_pure hst' hab

/-- A loop follows another if each turn follows a turn. -/
theorem tracks_iterate {turn : γ → Parse (Turn γ α)} {turn' : δ → Parse (Turn δ β)}
    (hst : Open word more s t)
    (hturn : ∀ {c d s t}, R c d → Open word more s t →
      Tracks (Turn.Last E) (Open word more) (Turn.Rel R Q) (turn c) (turn' d) s t)
    {c : γ} {d : δ} (hcd : R c d) :
    Tracks E (Open word more) Q (iterate turn c) (iterate turn' d) s t := by
  exact tracks_iterateFor hturn hst.length_le hst hcd

theorem mirrors_commaSeparated {close : TokenKind} (hst : Open word more s t)
    (hitem : ∀ {s t}, Open word more s t → Mirrors word more Q p q s t) :
    Mirrors word more (List.Forall₂ Q) (commaSeparated close p) (commaSeparated close q) s t := by
  unfold commaSeparated
  apply tracks_iterate (R := List.Forall₂ Q) hst _ .nil
  intro items items' s t hitems hst
  apply tracks_get_bind
  rw [hst.kind, hst.atEnd]
  split
  · exact tracks_done hst hitems
  · apply tracks_bind (hitem hst).sure
    intro a b s' t' hab hst'
    apply tracks_eat_if hst' (by simp)
    · intro _ hnext
      exact tracks_again hnext (forall₂_concat hitems hab)
    · intro _
      exact tracks_done hst' (forall₂_concat hitems hab)

end Parse

end Grammar

end ComponentLang
