import ComponentLang.Proofs.Grammar.Texts
import ComponentLang.Proofs.Tree.Labels

/-!
# What problems quote

A problem of the form of a program shows the text of the token at its place, or none, and else no
texts but names of tags. The names that a tree keeps are texts of tokens as well: keys may be
quoted, the others are written as they are.

`Quotes tokens Q p` says that `p` takes its tokens from the end of `tokens`, that its problem and
those that it reports quote these tokens, and that what it gives satisfies `Q`.
-/
namespace ComponentLang

/-- Whether the text of a token of this kind is a name as it stands. -/
def TokenKind.isName : TokenKind → Bool
  | .tagOpen | .tagClose => true
  | kind => Grammar.isMemberName kind

namespace Grammar

open Parse

/-- The name of the tag in what is expected. -/
def Expected.tag? : Expected → Option String
  | .attributeOrEnd name | .content name => some name
  | _ => none

namespace Cause

/-- The names of tags that a problem shows. -/
def tags : Cause → List String
  | .unexpected expected _ => expected.tag?.toList
  | .mismatchedTag opened closed => [opened, closed]
  | .unclosedTag name => [name]
  | .invalidTarget | .iterationLimit => []

/-- The text of the token that a problem shows. -/
def quoted? : Cause → Option String
  | .unexpected _ (.token lexeme) => some lexeme
  | _ => none

end Cause

/-- The name is the text of one of the tokens. -/
def IsName (tokens : List Token) (name : String) : Prop :=
  ∃ t ∈ tokens, t.kind.isName = true ∧ t.lexeme = name

/-- The key is the text of one of the tokens. -/
def IsKey (tokens : List Token) (key : String) : Prop :=
  ∃ t ∈ tokens, isPropertyKey t.kind = true ∧ t.lexeme = key

/-- The tags in a problem are named by the tokens, and the text in it is that of the token at its
place. -/
structure Problem.Quotes (tokens : List Token) (p : Problem) : Prop where
  tags : ∀ name ∈ p.cause.tags, IsName tokens name
  quoted : ∀ lexeme ∈ p.cause.quoted?,
    ∃ t ∈ tokens, t.lexeme = lexeme ∧ t.span.line = p.line ∧ t.span.column = p.column

/-- The tokens to come end the tokens, and what was reported quotes them. -/
structure State.Quotes (tokens : List Token) (s : State) : Prop where
  rest : s.rest <:+ tokens
  reported : ∀ d ∈ s.diagnostics, ∃ p : Problem, p.Quotes tokens ∧ p.diagnostic = d

variable {tokens : List Token} {s : State} {cause : Cause}

theorem quotes_ofSpan (htags : ∀ name ∈ cause.tags, IsName tokens name)
    (hquoted : cause.quoted? = none) (span : Span) : (Problem.ofSpan cause span).Quotes tokens where
  tags := htags
  quoted := by
    intro lexeme hlexeme
    rw [Problem.ofSpan, hquoted] at hlexeme
    cases hlexeme

namespace State

theorem quotes_start (tokens : List Token) : (start tokens).Quotes (start tokens).rest :=
  ⟨List.suffix_refl _, List.forall_mem_nil _⟩

theorem Quotes.next (h : s.Quotes tokens) : s.next.Quotes tokens where
  rest := s.suffix_next.trans h.rest
  reported := by
    rw [diagnostics_next]
    exact h.reported

/-- The next token is one of the tokens, unless it is the end of the input. -/
theorem Quotes.peek_mem (h : s.Quotes tokens) (hkind : s.kind ≠ .eof) : s.peek ∈ tokens := by
  have hrest : s.rest = s.peek :: s.next.rest := rest_of_kind hkind
  exact h.rest.subset (hrest ▸ List.mem_cons_self)

theorem Quotes.report {problem : Problem} (h : s.Quotes tokens) (hproblem : problem.Quotes tokens) :
    (s.report problem).Quotes tokens :=
  ⟨h.rest, List.forall_mem_cons.2 ⟨⟨problem, hproblem, rfl⟩, h.reported⟩⟩

/-- The text that is found is that of the next token. -/
theorem Quotes.unexpected (h : s.Quotes tokens) {expected : Expected}
    (htag : ∀ name ∈ expected.tag?, IsName tokens name) :
    (Problem.ofSpan (.unexpected expected s.found) s.here).Quotes tokens where
  tags name hname := htag name (Option.mem_toList.1 hname)
  quoted := by
    intro lexeme hlexeme
    unfold found at hlexeme
    split at hlexeme
    · cases hlexeme
    next hkind =>
      obtain rfl := Option.some.inj hlexeme
      exact ⟨s.peek, h.peek_mem hkind, rfl, rfl, rfl⟩

theorem Quotes.drops {t : State} (h : s.Quotes tokens) (hdrops : s.Drops t) : t.Quotes tokens where
  rest := hdrops.rest.trans h.rest
  reported := hdrops.diagnostics ▸ h.reported

end State

/-! ## Readers that quote -/

namespace Parse

variable {α β : Type} {Q : α → Prop} {P : β → Prop}

/-- What `p` gives satisfies `Q`, and its problems quote the tokens. -/
def Quotes (tokens : List Token) (Q : α → Prop) (p : Parse α) : Prop :=
  ∀ s : State, s.Quotes tokens →
    Ends (fun a t => t.Quotes tokens ∧ Q a) (fun e t => t.Quotes tokens ∧ e.Quotes tokens) p s

/-- Nothing is said of what is given. -/
abbrev QuotesOnly (tokens : List Token) (p : Parse α) : Prop := Quotes tokens (fun _ => True) p

theorem quotes_pure {a : α} (h : Q a) : Quotes tokens Q (pure a) := fun _ hs => ⟨hs, h⟩

theorem quotes_throw {e : Problem} (h : e.Quotes tokens) : Quotes tokens Q (throw e : Parse α) :=
  fun _ hs => ⟨hs, h⟩

theorem quotes_bind {p : Parse β} {f : β → Parse α} (hp : Quotes tokens P p)
    (hf : ∀ b, P b → Quotes tokens Q (f b)) : Quotes tokens Q (p >>= f) := by
  intro s hs
  rw [ends_bind]
  exact (hp s hs).mono (fun b t ⟨ht, hb⟩ => hf b hb t ht) fun _ _ ht => ht

theorem quotes_map {p : Parse β} {f : β → α} (hp : Quotes tokens P p) (h : ∀ b, P b → Q (f b)) :
    Quotes tokens Q (f <$> p) := by
  rw [map_eq_pure_bind]
  exact quotes_bind hp fun b hb => quotes_pure (h b hb)

/-- A reader that is chosen by looking at the state quotes what the chosen one does. -/
theorem quotes_of_eq {p : Parse α} {choose : State → Parse α}
    (h : ∀ s, Quotes tokens Q (choose s)) (heq : ∀ s, p s = choose s s) : Quotes tokens Q p := by
  intro s hs
  have hrun : p.run s = (choose s).run s := heq s
  have hends := h s s hs
  unfold Ends at *
  rw [hrun]
  exact hends

/-! ### Single steps -/

theorem quotes_get_bind {f : State → Parse α} (h : ∀ t, Quotes tokens Q (f t)) :
    Quotes tokens Q (get >>= f) :=
  fun s => h s s

theorem quotes_peek_bind {f : Token → Parse α} (h : ∀ t, Quotes tokens Q (f t)) :
    Quotes tokens Q (peek >>= f) :=
  fun s => h s.peek s

theorem quotes_kind_bind {f : TokenKind → Parse α} (h : ∀ k, Quotes tokens Q (f k)) :
    Quotes tokens Q (kind >>= f) :=
  fun s => h s.kind s

theorem quotes_here_bind {f : Span → Parse α} (h : ∀ span, Quotes tokens Q (f span)) :
    Quotes tokens Q (here >>= f) :=
  fun s => h s.here s

theorem quotes_spanFrom_bind {start : Span} {f : Span → Parse α}
    (h : ∀ span, Quotes tokens Q (f span)) : Quotes tokens Q (spanFrom start >>= f) :=
  fun s => h (s.spanFrom start) s

theorem quotes_fail (htags : ∀ name ∈ cause.tags, IsName tokens name)
    (hquoted : cause.quoted? = none) : Quotes tokens Q (fail cause : Parse α) :=
  quotes_get_bind fun _ => quotes_throw (quotes_ofSpan htags hquoted _)

theorem quotes_unexpected_tag {expected : Expected}
    (h : ∀ name ∈ expected.tag?, IsName tokens name) :
    Quotes tokens Q (unexpected expected : Parse α) :=
  fun _ hs => ⟨hs, hs.unexpected h⟩

theorem quotes_unexpected {expected : Expected} (h : expected.tag? = none) :
    Quotes tokens Q (unexpected expected : Parse α) := by
  refine quotes_unexpected_tag fun name hname => ?_
  rw [h] at hname
  cases hname

/-- The next token is one of the tokens, unless it is the end of the input. -/
theorem quotes_token_bind {f : Token → Parse α}
    (h : ∀ t, (t.kind ≠ .eof → t ∈ tokens) → Quotes tokens Q (f t)) :
    Quotes tokens Q (peek >>= f) :=
  fun s hs => h s.peek hs.peek_mem s hs

theorem quotes_taken_bind {f : Token → Parse α}
    (h : ∀ t, (t.kind ≠ .eof → t ∈ tokens) → Quotes tokens Q (f t)) :
    Quotes tokens Q (advance >>= f) :=
  fun s hs => h s.peek hs.peek_mem s.next hs.next

theorem quotes_advance_bind {f : Token → Parse α} (h : ∀ t, Quotes tokens Q (f t)) :
    Quotes tokens Q (advance >>= f) :=
  quotes_taken_bind fun t _ => h t

theorem quotes_node_bind {span : Span} {f : Node → Parse α}
    (h : ∀ node, Quotes tokens Q (f node)) : Quotes tokens Q (node span >>= f) :=
  fun s hs => h ⟨s.nextId, span⟩ { s with nextId := s.nextId + 1 } ⟨hs.rest, hs.reported⟩

theorem quotes_node {span : Span} {finish : Node → α} (h : ∀ node, Q (finish node)) :
    Quotes tokens Q (do return finish (← node span)) :=
  quotes_node_bind fun node => quotes_pure (h node)

theorem quotes_eat_bind {kind : TokenKind} {f : Bool → Parse α}
    (h : ∀ b, Quotes tokens Q (f b)) : Quotes tokens Q (eat kind >>= f) := by
  intro s hs
  rw [ends_eat_bind]
  split
  · exact h true s.next hs.next
  · exact h false s hs

theorem quotes_eat_if {kind : TokenKind} {p q : Parse α} (hp : Quotes tokens Q p)
    (hq : Quotes tokens Q q) :
    Quotes tokens Q (eat kind >>= fun taken => if taken = true then p else q) := by
  apply quotes_eat_bind
  intro taken
  split
  · exact hp
  · exact hq

/-- A token that is expected is one of the tokens. -/
theorem quotes_expect {kind : TokenKind} {expected : Expected} (hkind : kind ≠ .eof)
    (htag : expected.tag? = none) :
    Quotes tokens (fun t => t.kind = kind ∧ t ∈ tokens) (expect kind expected) := by
  intro s hs
  unfold expect
  rw [ends_get_bind]
  split
  next heq => exact ⟨hs.next, heq, hs.peek_mem (heq ▸ hkind)⟩
  next => exact quotes_unexpected htag s hs

theorem quotes_expect_bind {kind : TokenKind} {expected : Expected} {f : Token → Parse α}
    (hkind : kind ≠ .eof) (htag : expected.tag? = none) (h : ∀ t, Quotes tokens Q (f t)) :
    Quotes tokens Q (expect kind expected >>= f) :=
  quotes_bind (quotes_expect hkind htag) fun t _ => h t

theorem quotes_expectIdentifier {expected : Expected} (htag : expected.tag? = none) :
    Quotes tokens (IsName tokens) (expectIdentifier expected) := by
  have hexpect : Quotes tokens (fun t => t.kind = .identifier ∧ t ∈ tokens)
      (expect .identifier expected) := quotes_expect nofun htag
  apply quotes_bind hexpect
  rintro t ⟨hkind, hmem⟩
  exact quotes_pure ⟨t, hmem, by rw [hkind]; rfl, rfl⟩

theorem quotes_expectIdentifier_bind {expected : Expected} {f : String → Parse α}
    (htag : expected.tag? = none) (h : ∀ name, IsName tokens name → Quotes tokens Q (f name)) :
    Quotes tokens Q (expectIdentifier expected >>= f) :=
  quotes_bind (quotes_expectIdentifier htag) h

/-! ### Readers made from readers -/

theorem quotes_ite_bind {c : Prop} [Decidable c] {p q : Parse β} {f : β → Parse α}
    (hp : Quotes tokens P p) (hq : Quotes tokens P q) (hf : ∀ b, P b → Quotes tokens Q (f b)) :
    Quotes tokens Q (if c then p >>= f else q >>= f) := by
  split
  · exact quotes_bind hp hf
  · exact quotes_bind hq hf

theorem quotes_some {p : Parse β} (hp : Quotes tokens P p) :
    Quotes tokens (fun o => ∀ b ∈ o, P b) (some <$> p) :=
  quotes_map hp fun _ hb => by simpa using hb

theorem quotes_none : Quotes tokens (fun o => ∀ b ∈ o, P b) (pure none : Parse (Option β)) :=
  quotes_pure nofun

theorem quotes_withHead {inHead : Bool} {p : Parse α} (h : Quotes tokens Q p) :
    Quotes tokens Q (withHead inHead p) := by
  intro s hs
  rw [ends_withHead]
  refine (h { s with inHead } ⟨hs.rest, hs.reported⟩).mono (fun a t ht => ?_) fun e t ht => ?_
  · exact ⟨⟨ht.1.rest, ht.1.reported⟩, ht.2⟩
  · exact ⟨⟨ht.1.rest, ht.1.reported⟩, ht.2⟩

theorem quotes_nested {p : Parse α} (h : Quotes tokens Q p) : Quotes tokens Q (nested p) :=
  quotes_withHead h

theorem quotes_attempt_bind {p : Parse β} {f : Except Problem β → Parse α}
    (hp : Quotes tokens P p) (hok : ∀ b, P b → Quotes tokens Q (f (.ok b)))
    (herror : ∀ e : Problem, e.Quotes tokens → Quotes tokens Q (f (.error e))) :
    Quotes tokens Q (attempt p >>= f) :=
  fun s hs => ends_attempt_bind (hp s hs) (fun b t ht => hok b ht.2 t ht.1)
    fun e t ht => herror e ht.2 t ht.1

theorem quotes_iterate {turn : β → Parse (Turn β α)}
    (hturn : ∀ b, P b → Quotes tokens (TurnIs P Q) (turn b)) {b : β} (hb : P b) :
    Quotes tokens Q (iterate turn b) := by
  intro s hs
  refine ends_iterate_of (J := fun b t => t.Quotes tokens ∧ P b) (fun b t ht => ?_)
    (fun _ _ ht => ⟨ht.1, quotes_ofSpan (List.forall_mem_nil _) rfl _⟩) b ⟨hs, hb⟩
  refine (hturn b ht.2 t ht.1).mono (fun r u hu => ?_) fun _ _ hu => hu
  cases r with
  | again b => exact hu
  | done a => exact hu

theorem quotes_commaSeparated {close : TokenKind} {item : Parse β}
    (hitem : Quotes tokens P item) :
    Quotes tokens (fun items => ∀ b ∈ items, P b) (commaSeparated close item) := by
  unfold commaSeparated
  refine quotes_iterate (P := fun items => ∀ b ∈ items, P b) (fun items hitems => ?_)
    (List.forall_mem_nil _)
  apply quotes_get_bind
  intro t
  split
  · exact quotes_pure hitems
  · apply quotes_bind hitem
    intro b hb
    have hadd : ∀ b' ∈ items ++ [b], P b' :=
      List.forall_mem_append.2 ⟨hitems, List.forall_mem_singleton.2 hb⟩
    exact quotes_eat_if (quotes_pure hadd) (quotes_pure hadd)

end Parse

/-! ## Recovery -/

theorem quotes_ensureProgress {before : Nat} : QuotesOnly tokens (ensureProgress before) := by
  intro s hs
  have hcounted : (s.count before).Quotes tokens := ⟨hs.rest, hs.reported⟩
  unfold ensureProgress
  rw [ends_modify_bind, ends_get_bind]
  split
  · have hlimit : (Problem.ofSpan .iterationLimit s.here).Quotes tokens :=
      quotes_ofSpan (List.forall_mem_nil _) rfl _
    exact ⟨⟨List.nil_suffix, (hcounted.report hlimit).reported⟩, trivial⟩
  · split
    · exact ⟨hcounted.next, trivial⟩
    · exact ⟨hcounted, trivial⟩

/-- A placeholder has no names. -/
theorem quotes_recover {problem : Problem} {N K : String → Prop} (h : problem.Quotes tokens) :
    Quotes tokens (fun s => (TreePart.stmt s).Spelled N K) (recover problem) := by
  intro s hs
  unfold recover
  rw [ends_here_bind, ends_modify_bind, ends_bind]
  refine Ends.mono gives_synchronize (fun _ t ht => ?_) fun _ _ hfalse => hfalse.elim
  exact ⟨(hs.report h).drops ht, spelled_error⟩

theorem quotes_recovering {statement : Parse Stmt} {N K : String → Prop}
    (h : Quotes tokens (fun s => (TreePart.stmt s).Spelled N K) statement) :
    Quotes tokens (fun s => (TreePart.stmt s).Spelled N K) (recovering statement) := by
  unfold recovering
  apply quotes_attempt_bind h
  · exact fun stmt hstmt => quotes_pure hstmt
  · exact fun problem hproblem => quotes_recover hproblem

end Grammar

end ComponentLang
