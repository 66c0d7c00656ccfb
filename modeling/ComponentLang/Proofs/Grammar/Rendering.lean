import ComponentLang.Proofs.Grammar.Abreast
import ComponentLang.Proofs.Grammar.Provenance
import ComponentLang.Proofs.Tree.Remap

/-!
# What was read, read elsewhere

The tokens that a reader has taken stand elsewhere again: their places are moved, the bodies of
some statements are in square brackets there, and other tokens come behind them. `Renders` says
that a second reader then takes just these tokens and gives the same, with other numbers and at
other places.

A second reader may look at what comes behind the tokens that it takes. `Follow` says what is asked
of that, and `Front` says what the tokens that were taken themselves begin with: a bracket that
opens a body may be another bracket elsewhere, so no reader but that of the body may depend on it.
-/
namespace ComponentLang.Grammar

open Parse

/-! ## Tokens that were taken -/

/-- One of the tokens `all` when it has been taken: it may have been found to open or to close the
body of a statement, which is known by its place. -/
inductive Taken (all : List Token) where
  | plain (token : Token)
  | opens (token : Token) (body : Span)
      (kind : token.kind = .lbrace ∨ token.kind = .lbracket) (place : body.start = token.span.start)
  | closes (token : Token) (body : Span)
      (kind : token.kind = .rbrace ∨ token.kind = .rbracket)
      (place : ∃ first, [first, token].Sublist all ∧ body = first.span.through token.span)

namespace Taken

variable {all : List Token}

def token : Taken all → Token
  | .plain token => token
  | .opens token .. => token
  | .closes token .. => token

/-- The body is opened and closed by two of the tokens, which are a pair of brackets. -/
def Marks (body : Span) (taken : List (Taken all)) : Prop :=
  ∃ first last kind kind' place place',
    [Taken.opens first body kind place, .closes last body kind' place'].Sublist taken ∧
      body = first.span.through last.span ∧ (first.kind = .lbrace ↔ last.kind = .rbrace)

theorem Marks.append_left {body : Span} {taken : List (Taken all)} (h : Marks body taken)
    (more : List (Taken all)) : Marks body (taken ++ more) := by
  obtain ⟨first, last, kind, kind', place, place', hsublist, hbody⟩ := h
  exact ⟨first, last, kind, kind', place, place',
    hsublist.trans (List.sublist_append_left taken more), hbody⟩

theorem Marks.append_right {body : Span} {taken : List (Taken all)} (h : Marks body taken)
    (before : List (Taken all)) : Marks body (before ++ taken) := by
  obtain ⟨first, last, kind, kind', place, place', hsublist, hbody⟩ := h
  exact ⟨first, last, kind, kind', place, place',
    hsublist.trans (List.sublist_append_right before taken), hbody⟩

end Taken

/-- What is known of the first of the tokens that were taken. -/
inductive Front where
  /-- Nothing. -/
  | any
  /-- If there is one it neither opens nor closes a body. -/
  | clear
  /-- There is one, which neither opens nor closes a body. -/
  | solid

/-- What a reader asks of the first of the tokens that come behind those that it takes. -/
inductive Follow where
  /-- Nothing. -/
  | any
  /-- That it does not open a body. -/
  | unopened
  /-- That it neither opens nor closes a body. -/
  | clear
  /-- That there is one, and that it neither opens nor closes a body. -/
  | solid

section Ends

variable {all : List Token}

def Solid (taken : List (Taken all)) : Prop := ∃ token rest, taken = .plain token :: rest

def Clear (taken : List (Taken all)) : Prop := taken = [] ∨ Solid taken

def Front.Holds : Front → List (Taken all) → Prop
  | .any, _ => True
  | .clear, taken => Clear taken
  | .solid, taken => Solid taken

/-- Where nothing is taken, the front asks for nothing. -/
class Front.Idle (front : Front) : Prop where
  holds (all : List Token) : front.Holds ([] : List (Taken all))

instance : Front.Idle .any := ⟨fun _ => trivial⟩
instance : Front.Idle .clear := ⟨fun _ => .inl rfl⟩

def Follow.Holds : Follow → List (Taken all) → Prop
  | .any, _ => True
  | .unopened, ahead =>
    ∀ token body kind place rest, ahead ≠ .opens token body kind place :: rest
  | .clear, ahead => Clear ahead
  | .solid, ahead => Solid ahead

theorem solid_cons (token : Token) (rest : List (Taken all)) : Solid (.plain token :: rest) :=
  ⟨token, rest, rfl⟩

theorem Front.holds_plain (front : Front) (token : Token) (rest : List (Taken all)) :
    front.Holds (.plain token :: rest) := by
  cases front with
  | any => trivial
  | clear => exact .inr (solid_cons token rest)
  | solid => exact solid_cons token rest

theorem Follow.holds_plain (follow : Follow) (token : Token) (rest : List (Taken all)) :
    follow.Holds (.plain token :: rest) := by
  cases follow with
  | any => trivial
  | unopened => rintro _ _ _ _ _ ⟨⟩
  | clear => exact .inr (solid_cons token rest)
  | solid => exact solid_cons token rest

theorem Follow.holds_solid (follow : Follow) {taken : List (Taken all)} (h : Solid taken)
    (ahead : List (Taken all)) : follow.Holds (taken ++ ahead) := by
  obtain ⟨token, rest, rfl⟩ := h
  exact follow.holds_plain token _

theorem Follow.holds_clear (follow : Follow) {taken ahead : List (Taken all)} (h : Clear taken)
    (hahead : follow.Holds ahead) : follow.Holds (taken ++ ahead) := by
  rcases h with rfl | h
  · exact hahead
  · exact follow.holds_solid h ahead

theorem Front.holds_append (front : Front) {taken more : List (Taken all)}
    (h : front.Holds taken) (hmore : Clear more) : front.Holds (taken ++ more) := by
  cases front with
  | any => trivial
  | clear =>
      rcases h with rfl | ⟨token, rest, rfl⟩
      · exact hmore
      · exact .inr (solid_cons token _)
  | solid =>
      obtain ⟨token, rest, rfl⟩ := h
      exact solid_cons token _

/-- What is known of a solid front is known of every other. -/
theorem Front.holds_of_solid (front : Front) {taken : List (Taken all)} (h : Solid taken) :
    front.Holds taken := by
  obtain ⟨token, rest, rfl⟩ := h
  exact front.holds_plain token rest

theorem Follow.unopened_of_clear {ahead : List (Taken all)} (h : Clear ahead) :
    Follow.unopened.Holds ahead := by
  rcases h with rfl | ⟨token, rest, rfl⟩
  · rintro _ _ _ _ _ ⟨⟩
  · exact Follow.unopened.holds_plain token rest

end Ends

/-! ## Renderings -/

/-- Whether an expression ends before every token of this kind. -/
def endsOperand : TokenKind → Bool
  | .comma | .semicolon | .rparen => true
  | _ => false

/-- Whether no token turns into one of this kind elsewhere, and no expression ends before it. -/
def isSteady : TokenKind → Bool
  | .lbracket | .rbracket | .comma | .semicolon | .rparen | .eof => false
  | _ => true

/-- Whether no token turns into one of this kind elsewhere or out of it, and no expression ends
before it. -/
def isFixed : TokenKind → Bool
  | .lbrace | .rbrace => false
  | kind => isSteady kind

/-- How the tokens `all` stand elsewhere: where they are, how far the numbers of nodes are moved,
which bodies are in square brackets instead of braces, and what comes behind. A square bracket that
opens a body does not stand directly behind one of the tokens. -/
structure Rendering (all : List Token) where
  span : Span → Span
  offset : Nat
  square : Span → Bool
  more : List Token
  through (a b : Span) : span (a.through b) = (span a).through (span b)
  meets (a b : Span) : (span a).start = (span b).stop ↔ a.start = b.stop
  detached (body : Span) : square body = true → ∀ token ∈ all, token.span.stop ≠ body.start
  apart (body : Span) : square body = true → ∀ first second, [first, second] <:+: all →
    first.kind = .lbracket → second.kind ≠ .rbrace
  halts : ∀ token ∈ more.head?, endsOperand token.kind = true

namespace Rendering

variable {all : List Token} (w : Rendering all)

abbrev moved (t : Token) : Token := { t with span := w.span t.span }

/-- A token where it stands elsewhere. -/
def token : Taken all → Token
  | .plain t => w.moved t
  | .opens t body _ _ =>
    if w.square body = true ∧ t.kind = .lbrace then .ofKind .lbracket "[" (w.span t.span)
    else w.moved t
  | .closes t body _ _ =>
    if w.square body = true ∧ t.kind = .rbrace then .ofKind .rbracket "]" (w.span t.span)
    else w.moved t

theorem span_token (x : Taken all) : (w.token x).span = w.span x.token.span := by
  cases x with
  | plain t => rfl
  | opens t body _ _ =>
      rw [token]
      split <;> rfl
  | closes t body _ _ =>
      rw [token]
      split <;> rfl

/-- A token is of the same kind elsewhere unless it is a bracket of a body. -/
theorem kind_token (x : Taken all) : (w.token x).kind = x.token.kind ∨
    (∃ t body kind place, x = .opens t body kind place ∧ w.square body = true ∧
      t.kind = .lbrace ∧ (w.token x).kind = .lbracket) ∨
    ∃ t body kind place, x = .closes t body kind place ∧ w.square body = true ∧
      t.kind = .rbrace ∧ (w.token x).kind = .rbracket := by
  cases x with
  | plain t => exact .inl rfl
  | opens t body kind place =>
      rw [token]
      split
      next h => exact .inr (.inl ⟨t, body, kind, place, rfl, h.1, h.2, rfl⟩)
      next => exact .inl rfl
  | closes t body kind place =>
      rw [token]
      split
      next h => exact .inr (.inr ⟨t, body, kind, place, rfl, h.1, h.2, rfl⟩)
      next => exact .inl rfl

end Rendering

/-- What a reader may give: how it is rendered, what is known of its places, and whether it is all
that was to be read. -/
class Renderable (α : Type) where
  reread {all : List Token} : Rendering all → α → α
  tame : List Token → α → Prop := fun _ _ => True
  whole : α → Prop := fun _ => True

/-- The span ends where one of the tokens ends. -/
def StopsIn (all : List Token) (span : Span) : Prop := ∃ t ∈ all, t.span.stop = span.stop

theorem StopsIn.through {all : List Token} {a b : Span} (ha : StopsIn all a)
    (hb : StopsIn all b) : StopsIn all (a.through b) := by
  rcases Nat.le_total a.stop b.stop with hle | hle
  · obtain ⟨t, ht, hstop⟩ := hb
    exact ⟨t, ht, hstop.trans (Nat.max_eq_left hle).symm⟩
  · obtain ⟨t, ht, hstop⟩ := ha
    exact ⟨t, ht, hstop.trans (Nat.max_eq_right hle).symm⟩

/-- Everything of the type is all that was to be read. -/
class AllWhole (α : Type) [Renderable α] : Prop where
  whole (a : α) : Renderable.whole a

namespace Renderable

variable {α β : Type} [Renderable α] [Renderable β]

instance : Renderable Unit := { reread := fun _ a => a }
instance : Renderable Bool := { reread := fun _ a => a }
instance : Renderable String := { reread := fun _ a => a }
instance : Renderable Token := { reread := Rendering.moved }
instance : Renderable Span := { reread := Rendering.span, tame := StopsIn }
instance : Renderable Node := { reread := fun w => Remap.node (· + w.offset) w.span }

instance : AllWhole Unit := ⟨fun _ => trivial⟩
instance : AllWhole Bool := ⟨fun _ => trivial⟩
instance : AllWhole String := ⟨fun _ => trivial⟩
instance : AllWhole Token := ⟨fun _ => trivial⟩
instance : AllWhole Span := ⟨fun _ => trivial⟩
instance : AllWhole Node := ⟨fun _ => trivial⟩

instance : Renderable Expr where
  reread w := Remap.expr (· + w.offset) w.span
  tame all e := StopsIn all e.span

instance : Renderable Property := { reread := fun w => Remap.property (· + w.offset) w.span }

instance : Renderable Tag where
  reread w := Remap.tag (· + w.offset) w.span
  tame all t := StopsIn all t.span

instance : Renderable Attribute := { reread := fun w => Remap.tagAttribute (· + w.offset) w.span }
instance : Renderable Markup := { reread := fun w => Remap.markup (· + w.offset) w.span }
instance : Renderable (List α) := { reread := fun w => List.map (reread w) }
instance : Renderable (Option α) := { reread := fun w => Option.map (reread w) }

instance : AllWhole Expr := ⟨fun _ => trivial⟩
instance : AllWhole Property := ⟨fun _ => trivial⟩
instance : AllWhole Tag := ⟨fun _ => trivial⟩
instance : AllWhole Attribute := ⟨fun _ => trivial⟩
instance : AllWhole Markup := ⟨fun _ => trivial⟩
instance : AllWhole (List α) := ⟨fun _ => trivial⟩
instance : AllWhole (Option α) := ⟨fun _ => trivial⟩

instance : Renderable (α × β) where
  reread w pair := (reread w pair.1, reread w pair.2)
  tame all pair := tame all pair.1 ∧ tame all pair.2
  whole pair := whole pair.1 ∧ whole pair.2

instance [AllWhole α] [AllWhole β] : AllWhole (α × β) :=
  ⟨fun pair => ⟨AllWhole.whole pair.1, AllWhole.whole pair.2⟩⟩

/-- A problem in place of what was to be read is not all of it. -/
instance : Renderable (Except Problem α) where
  reread w
    | .error e => .error e
    | .ok a => .ok (reread w a)
  tame all
    | .error _ => True
    | .ok a => tame all a
  whole
    | .error _ => False
    | .ok a => whole a

instance : Renderable (Turn β α) where
  reread w
    | .again b => .again (reread w b)
    | .done a => .done (reread w a)
  tame all
    | .again b => tame all b
    | .done a => tame all a
  whole
    | .again _ => True
    | .done a => whole a

@[simp] theorem render_strings {all : List Token} (w : Rendering all) (names : List String) :
    reread w names = names :=
  List.map_id names

theorem render_concat {all : List Token} (w : Rendering all) (items : List α) (a : α) :
    reread w items ++ [reread w a] = reread w (items ++ [a]) := by
  show items.map (reread w) ++ [reread w a] = (items ++ [a]).map (reread w)
  rw [List.map_append]
  rfl

@[simp] theorem span_expr {all : List Token} (w : Rendering all) (e : Expr) :
    (reread w e).span = w.span e.span :=
  Remap.span_expr _ _ e

@[simp] theorem span_tag {all : List Token} (w : Rendering all) (t : Tag) :
    (reread w t).span = w.span t.span :=
  Remap.span_tag _ _ t

end Renderable

open Renderable (reread tame whole)

/-! ## States -/

namespace State

/-- No token comes back and nothing that was reported is taken back; a restriction of a head is as
before, and the token taken last is a new one or that of before. -/
structure Proceeds (s t : State) : Prop where
  rest : t.rest <:+ s.rest
  previous : t.previous = s.previous ∨ ∃ token ∈ s.rest, t.previous = some token.span
  inHead : t.inHead = s.inHead
  silent : t.diagnostics = [] → s.diagnostics = []

/-- The tokens to come, and the one taken last, are of those given. -/
structure Fits (all : List Token) (s : State) : Prop where
  rest : s.rest <:+ all
  previous : ∀ span ∈ s.previous, ∃ token ∈ all, token.span = span

variable {all : List Token} {s t u : State}

theorem Proceeds.refl (s : State) : s.Proceeds s := ⟨List.suffix_refl _, .inl rfl, rfl, id⟩

theorem Proceeds.trans (h : s.Proceeds t) (h' : t.Proceeds u) : s.Proceeds u where
  rest := h'.rest.trans h.rest
  previous := by
    rcases h'.previous with hsame | ⟨token, htoken, hnew⟩
    · rw [hsame]
      exact h.previous
    · exact .inr ⟨token, h.rest.subset htoken, hnew⟩
  inHead := h'.inHead.trans h.inHead
  silent hsilent := h.silent (h'.silent hsilent)

theorem Proceeds.fits (h : s.Proceeds t) (hs : s.Fits all) : t.Fits all where
  rest := h.rest.trans hs.rest
  previous span hspan := by
    rcases h.previous with hsame | ⟨token, htoken, hnew⟩
    · rw [hsame] at hspan
      exact hs.previous span hspan
    · rw [hnew] at hspan
      cases hspan
      exact ⟨token, hs.rest.subset htoken, rfl⟩

theorem Proceeds.previous_ne (h : s.Proceeds t) (hs : s.previous ≠ none) : t.previous ≠ none := by
  rcases h.previous with hsame | ⟨token, -, hnew⟩
  · rwa [hsame]
  · rw [hnew]
    exact Option.some_ne_none _

theorem proceeds_next (s : State) : s.Proceeds s.next where
  rest := s.suffix_next
  previous := by
    unfold next
    split
    next token rest hrest => exact .inr ⟨token, by simp [hrest], rfl⟩
    next => exact .inl rfl
  inHead := s.inHead_next
  silent h := s.diagnostics_next ▸ h

theorem previous_next (h : s.kind ≠ .eof) : s.next.previous = some s.here := by
  unfold next here peek
  split
  next hrest => rfl
  next hrest => exact absurd (kind_of_nil hrest) h

theorem previous_next_ne (h : s.kind ≠ .eof) : s.next.previous ≠ none := by
  rw [previous_next h]
  exact Option.some_ne_none _

theorem peek_mem (h : s.kind ≠ .eof) : s.peek ∈ s.rest := by
  rw [rest_of_kind h]
  exact List.mem_cons_self

theorem Fits.here (hs : s.Fits all) (h : s.kind ≠ .eof) : StopsIn all s.here :=
  ⟨s.peek, hs.rest.subset (peek_mem h), rfl⟩

theorem Fits.spanFrom (hs : s.Fits all) {start : Span} (hstart : StopsIn all start) :
    StopsIn all (s.spanFrom start) := by
  unfold State.spanFrom
  split
  next span hspan =>
    obtain ⟨token, htoken, rfl⟩ := hs.previous span hspan
    exact hstart.through ⟨token, htoken, rfl⟩
  next => exact hstart

end State

namespace Rendering

variable {all : List Token}

/-- Nothing comes behind. -/
abbrev Final (w : Rendering all) : Prop := w.more = []

/-- The state in which all tokens to come stand elsewhere. -/
def view (w : Rendering all) (s : State) : State :=
  { s with rest := s.rest.map w.moved, stop := w.span s.stop }

@[simp] theorem inHead_view (w : Rendering all) (s : State) : (w.view s).inHead = s.inHead := rfl

@[simp] theorem kind_view (w : Rendering all) (s : State) : (w.view s).kind = s.kind := by
  unfold State.kind State.peek view
  cases s.rest <;> rfl

@[simp] theorem here_view (w : Rendering all) (s : State) : (w.view s).here = w.span s.here := by
  unfold State.here State.peek view
  cases s.rest <;> rfl

/-- In the first state the tokens `ahead` are to come. In the second they are to come as they stand
elsewhere, and then what comes behind them. -/
structure Sees (w : Rendering all) (ahead : List (Taken all)) (s t : State) : Prop where
  rest : s.rest = ahead.map Taken.token
  rest' : t.rest = ahead.map w.token ++ w.more
  previous : ∀ span ∈ s.previous, t.previous = some (w.span span)
  inHead : t.inHead = s.inHead
  nextId : t.nextId = s.nextId + w.offset
  iterations : t.iterations = s.iterations
  limit : s.iterationLimit ≤ t.iterationLimit
  silent : t.diagnostics = []

namespace Sees

variable {w : Rendering all} {ahead : List (Taken all)} {s t : State}

theorem length_le (h : w.Sees ahead s t) : s.rest.length ≤ t.rest.length := by
  rw [h.rest, h.rest', List.length_append, List.length_map, List.length_map]
  exact Nat.le_add_right _ _

theorem headed (h : w.Sees ahead s t) (inHead : Bool) :
    w.Sees ahead { s with inHead } { t with inHead } :=
  { h with inHead := rfl }

theorem numbered (h : w.Sees ahead s t) :
    w.Sees ahead { s with nextId := s.nextId + 1 } { t with nextId := t.nextId + 1 } :=
  { h with
    nextId := by
      show t.nextId + 1 = s.nextId + 1 + w.offset
      rw [h.nextId]
      omega }

theorem next {x : Taken all} (h : w.Sees (x :: ahead) s t) : w.Sees ahead s.next t.next := by
  have hs := State.next_eq h.rest
  have ht := State.next_eq h.rest'
  rw [hs, ht]
  refine { h with rest := rfl, rest' := rfl, previous := ?_ }
  rintro span ⟨⟩
  exact congrArg some (w.span_token x)

theorem spanFrom (h : w.Sees ahead s t) (hs : s.previous ≠ none) (start : Span) :
    t.spanFrom (w.span start) = w.span (s.spanFrom start) := by
  obtain ⟨span, hspan⟩ := Option.ne_none_iff_exists'.1 hs
  unfold State.spanFrom
  rw [h.previous span hspan, hspan]
  exact (w.through start span).symm

/-! ### The next token -/

theorem peek_cons {x : Taken all} (h : w.Sees (x :: ahead) s t) : t.peek = w.token x := by
  unfold State.peek
  rw [h.rest']
  rfl

/-- Every token of the first state stands where it does elsewhere. -/
theorem here_cons {x : Taken all} (h : w.Sees (x :: ahead) s t) : t.here = w.span s.here := by
  have hs : s.here = x.token.span := by
    unfold State.here State.peek
    rw [h.rest]
    rfl
  rw [hs, ← w.span_token]
  exact congrArg Token.span h.peek_cons

theorem peek_plain {token : Token} (h : w.Sees (.plain token :: ahead) s t) :
    t.peek = w.moved s.peek := by
  rw [h.peek_cons]
  unfold State.peek
  rw [h.rest]
  rfl

theorem peek (h : w.Sees ahead s t) (hahead : Solid ahead) : t.peek = w.moved s.peek := by
  obtain ⟨token, rest, rfl⟩ := hahead
  exact h.peek_plain

theorem kind (h : w.Sees ahead s t) (hahead : Solid ahead) : t.kind = s.kind := by
  unfold State.kind
  rw [h.peek hahead]

theorem here (h : w.Sees ahead s t) (hahead : Solid ahead) : t.here = w.span s.here := by
  obtain ⟨token, rest, rfl⟩ := hahead
  exact h.here_cons

/-- What the second state has next is of the kind of what the first has next, or it is the bracket
of a body, or the first has come to the end. -/
theorem kind_cases (h : w.Sees ahead s t) : t.kind = s.kind ∨
    (∃ token body kind place rest, ahead = .opens token body kind place :: rest ∧
      w.square body = true ∧ s.kind = .lbrace ∧ t.kind = .lbracket) ∨
    (∃ token body kind place rest, ahead = .closes token body kind place :: rest ∧
      w.square body = true ∧ s.kind = .rbrace ∧ t.kind = .rbracket) ∨
    (ahead = [] ∧ s.kind = .eof ∧ endsOperand t.kind = true) := by
  cases ahead with
  | nil =>
      have hs : s.kind = .eof := State.kind_of_nil h.rest
      cases hmore : w.more with
      | nil =>
          have ht : t.kind = .eof := State.kind_of_nil (by rw [h.rest', hmore]; rfl)
          exact .inl (ht.trans hs.symm)
      | cons token rest =>
          have hrest : t.rest = token :: rest := by
            rw [h.rest', hmore]
            rfl
          refine .inr (.inr (.inr ⟨rfl, hs, ?_⟩))
          rw [State.kind_of_rest hrest]
          exact w.halts token (by rw [hmore]; rfl)
  | cons x rest =>
      have hs : s.kind = x.token.kind := State.kind_of_rest h.rest
      have ht : t.kind = (w.token x).kind := congrArg Token.kind h.peek_cons
      rw [hs, ht]
      rcases w.kind_token x with hsame | ⟨token, body, kind, place, rfl, hsquare, hbrace, hkind⟩ |
        ⟨token, body, kind, place, rfl, hsquare, hbrace, hkind⟩
      · exact .inl hsame
      · exact .inr (.inl ⟨token, body, kind, place, rest, rfl, hsquare, hbrace, hkind⟩)
      · exact .inr (.inr (.inl ⟨token, body, kind, place, rest, rfl, hsquare, hbrace, hkind⟩))

/-- What depends on nothing but the kind of the next token is the same, if it does not tell the
brackets apart and takes what an expression ends before for the end. -/
theorem apply_eq {β : Type} {f : TokenKind → β} (h : w.Sees ahead s t)
    (hopen : f .lbracket = f .lbrace) (hclose : f .rbracket = f .rbrace)
    (hends : ∀ kind, endsOperand kind = true → f kind = f .eof) : f t.kind = f s.kind := by
  rcases h.kind_cases with hsame | ⟨_, _, _, _, _, _, _, hs, ht⟩ | ⟨_, _, _, _, _, _, _, hs, ht⟩ |
    ⟨_, hs, ht⟩
  · rw [hsame]
  · rw [hs, ht, hopen]
  · rw [hs, ht, hclose]
  · rw [hs, hends _ ht]

theorem kind_ne {kind : TokenKind} (h : w.Sees ahead s t) (hsteady : isSteady kind = true)
    (hne : s.kind ≠ kind) : t.kind ≠ kind := by
  rintro rfl
  rcases h.kind_cases with hsame | ⟨_, _, _, _, _, _, _, _, hbracket⟩ |
    ⟨_, _, _, _, _, _, _, _, hbracket⟩ | ⟨_, _, hends⟩
  · exact hne hsame.symm
  · rw [hbracket] at hsteady
    cases hsteady
  · rw [hbracket] at hsteady
    cases hsteady
  · revert hends hsteady
    cases t.kind <;> simp [isSteady, endsOperand]

theorem kind_iff {kind : TokenKind} (h : w.Sees ahead s t) (hfixed : isFixed kind = true) :
    t.kind = kind ↔ s.kind = kind := by
  have hsame : decide (t.kind = kind) = decide (s.kind = kind) := by
    refine h.apply_eq (f := fun next => decide (next = kind)) ?_ ?_ ?_
    · cases kind <;> simp_all [isFixed, isSteady]
    · cases kind <;> simp_all [isFixed, isSteady]
    · intro next hends
      cases next <;> simp [endsOperand] at hends <;>
        cases kind <;> simp_all [isFixed, isSteady]
  exact decide_eq_decide.1 hsame

/-! ### Where nothing comes behind -/

theorem length_eq (h : w.Sees ahead s t) (hw : w.Final) : t.rest.length = s.rest.length := by
  rw [h.rest, h.rest', hw, List.append_nil, List.length_map, List.length_map]

theorem atEnd_eq (h : w.Sees ahead s t) (hw : w.Final) : t.atEnd = s.atEnd := by
  unfold State.atEnd
  rw [h.rest, h.rest', hw]
  cases ahead <;> rfl

theorem kind_ne_of_final {kind : TokenKind} (h : w.Sees ahead s t) (hw : w.Final)
    (hopen : kind ≠ .lbracket) (hclose : kind ≠ .rbracket) (hne : s.kind ≠ kind) :
    t.kind ≠ kind := by
  rintro rfl
  rcases h.kind_cases with hsame | ⟨_, _, _, _, _, _, _, _, hbracket⟩ |
    ⟨_, _, _, _, _, _, _, _, hbracket⟩ | ⟨hnil, hs, _⟩
  · exact hne hsame.symm
  · exact hopen hbracket
  · exact hclose hbracket
  · have hrest : t.rest = [] := by
      rw [h.rest', hnil, hw]
      rfl
    exact hne (hs.trans (State.kind_of_nil hrest).symm)

theorem secondKind_ne {kind : TokenKind} (h : w.Sees ahead s t) (hw : w.Final)
    (hgoes : t.kind ≠ .eof) (hsteady : isSteady kind = true) (hne : s.secondKind ≠ kind) :
    t.secondKind ≠ kind := by
  cases ahead with
  | nil =>
      have hrest : t.rest = [] := by
        rw [h.rest', hw]
        rfl
      exact absurd (State.kind_of_nil hrest) hgoes
  | cons x rest =>
      have hs : s.rest ≠ [] := by simp [h.rest]
      have ht : t.rest ≠ [] := by simp [h.rest']
      rw [State.secondKind_eq hs] at hne
      rw [State.secondKind_eq ht]
      exact h.next.kind_ne hsteady hne

end Sees

end Rendering

/-! ## Readers -/

namespace Parse

variable {α β γ : Type} [Renderable α] [Renderable β] [Renderable γ]
variable {all : List Token} {W : Rendering all → Prop} {s t u : State}

/-- From `s` to `u` the tokens `taken` are taken. Wherever they stand otherwise, before what may
follow, `q` takes just them and gives `a` as it is there. -/
structure Conveys (W : Rendering all → Prop) (P : List (Taken all) → Prop)
    (taken : List (Taken all)) (q : Rendering all → Parse α) (a : α) (s u : State) : Prop where
  rest : s.rest = taken.map Taken.token ++ u.rest
  renders : ∀ w, W w → ∀ ahead t, P ahead → u.rest = ahead.map Taken.token →
    w.Sees (taken ++ ahead) s t →
    ∃ v, (q w).run t = (.ok (reread w a), v) ∧ w.Sees ahead u v

/-- What `p` gives at `s`, if nothing is reported, `q` gives where the tokens stand otherwise. Of
the bodies `m a` in it all but those in `B` are opened and closed by what was taken. -/
def Renders (W : Rendering all → Prop) (m : α → List Span) (B : List Span) (F : Follow) (G : Front)
    (p : Parse α) (q : Rendering all → Parse α) (s : State) : Prop :=
  s.Fits all → Ends (fun a u => s.Proceeds u ∧ tame all a ∧
    (u.diagnostics = [] → whole a → ∃ taken, G.Holds taken ∧
      (∀ body ∈ m a, body ∈ B ∨ Taken.Marks body taken) ∧ Conveys W F.Holds taken q a s u))
    (fun _ u => s.Proceeds u) p s

variable {m : α → List Span} {k : γ → List Span} {B : List Span} {F F' : Follow} {G G' : Front}
variable {p : Parse α} {q : Rendering all → Parse α}

theorem renders_throw {e : Problem} : Renders W m B F G (throw e) q s :=
  fun _ => State.Proceeds.refl s

theorem renders_fail {cause : Cause} : Renders W m B F G (fail cause) q s :=
  fun _ => State.Proceeds.refl s

theorem renders_unexpected {expected : Expected} : Renders W m B F G (unexpected expected) q s :=
  fun _ => State.Proceeds.refl s

/-- What is given without reading has its bodies from before. -/
theorem renders_pure [G.Idle] {a : α} (hbodies : ∀ body ∈ m a, body ∈ B)
    (htame : s.Fits all → tame all a) :
    Renders W m B F G (pure a) (fun w => pure (reread w a)) s :=
  fun hs => ⟨State.Proceeds.refl s, htame hs, fun _ _ => ⟨[], Front.Idle.holds all,
    fun body hbody => .inl (hbodies body hbody), rfl, fun _ _ _ t _ _ hsees => ⟨t, rfl, hsees⟩⟩⟩

theorem Renders.mono {B' : List Span} (h : Renders W m B F G p q s)
    (hbodies : ∀ body ∈ B, body ∈ B')
    (hfollow : ∀ ahead : List (Taken all), F'.Holds ahead → F.Holds ahead)
    (hfront : ∀ taken : List (Taken all), G.Holds taken → G'.Holds taken) :
    Renders W m B' F' G' p q s := by
  intro hs
  refine (h hs).mono ?_ fun _ _ hbad => hbad
  rintro a u ⟨hproceeds, htame, hconveys⟩
  refine ⟨hproceeds, htame, fun hsilent hwhole => ?_⟩
  obtain ⟨taken, hG, hmarks, hrest, hrenders⟩ := hconveys hsilent hwhole
  exact ⟨taken, hfront taken hG, fun body hbody => (hmarks body hbody).imp_left (hbodies body),
    hrest, fun w hw ahead t hF => hrenders w hw ahead t (hfollow ahead hF)⟩

theorem Renders.fewer {m' : α → List Span} (h : Renders W m B F G p q s)
    (hbodies : ∀ a, ∀ body ∈ m' a, body ∈ m a) : Renders W m' B F G p q s := by
  intro hs
  refine (h hs).mono ?_ fun _ _ hbad => hbad
  rintro a u ⟨hproceeds, htame, hconveys⟩
  refine ⟨hproceeds, htame, fun hsilent hwhole => ?_⟩
  obtain ⟨taken, hG, hmarks, hconveys'⟩ := hconveys hsilent hwhole
  exact ⟨taken, hG, fun body hbody => hmarks body (hbodies a body hbody), hconveys'⟩

theorem Renders.front (h : Renders W m B F .solid p q s) : Renders W m B F G p q s :=
  h.mono (fun _ hbody => hbody) (fun _ hF => hF) fun _ hG => G.holds_of_solid hG

theorem Renders.anyFront (h : Renders W m B F G p q s) : Renders W m B F .any p q s :=
  h.mono (fun _ hbody => hbody) (fun _ hF => hF) fun _ _ => trivial

theorem Renders.follow (h : Renders W m B .any G p q s) : Renders W m B F G p q s :=
  h.mono (fun _ hbody => hbody) (fun _ _ => trivial) fun _ hG => hG

theorem Renders.solid (h : Renders W m B .unopened G p q s) : Renders W m B .solid G p q s :=
  h.mono (fun _ hbody => hbody) (fun _ hF => Follow.unopened_of_clear (.inr hF)) fun _ hG => hG

/-- What is known of the tokens may be used. -/
theorem renders_of_fits (h : s.Fits all → Renders W m B F G p q s) : Renders W m B F G p q s :=
  fun hs => h hs hs

/-- What a reader does may be judged by what others do at the same states. -/
theorem Renders.of_eq {r : Parse α} {q' : Rendering all → Parse α}
    (h : Renders W m B F G r q' s) (hp : p s = r s)
    (hq : ∀ w taken ahead t, W w → G.Holds taken → F.Holds ahead → w.Sees (taken ++ ahead) s t →
      q w t = q' w t) : Renders W m B F G p q s := by
  intro hs
  have hends := h hs
  have hrunp : p.run s = r.run s := hp
  unfold Ends at hends ⊢
  rw [hrunp]
  revert hends
  rcases r.run s with ⟨e | a, u⟩
  · exact id
  · rintro ⟨hproceeds, htame, hconveys⟩
    refine ⟨hproceeds, htame, fun hsilent hwhole => ?_⟩
    obtain ⟨taken, hG, hmarks, hrest, hrenders⟩ := hconveys hsilent hwhole
    refine ⟨taken, hG, hmarks, hrest, fun w hw ahead t hF hahead hsees => ?_⟩
    have hrunq : (q w).run t = (q' w).run t := hq w taken ahead t hw hG hF hsees
    rw [hrunq]
    exact hrenders w hw ahead t hF hahead hsees

/-! ### Two readers in a row -/

/-- What both readers take is taken in a row, if the first may be followed by what the second
takes. -/
theorem Conveys.bind {P P₁ : List (Taken all) → Prop} {taken more : List (Taken all)} {a : α} {c : γ}
    {g : Rendering all → α → Parse γ} (h : Conveys W P₁ taken q a s t)
    (h' : Conveys W P more (fun w => g w (reread w a)) c t u)
    (hfollow : ∀ ahead, P ahead → P₁ (more ++ ahead)) :
    Conveys W P (taken ++ more) (fun w => q w >>= g w) c s u where
  rest := by rw [h.rest, h'.rest, List.map_append, List.append_assoc]
  renders := by
    intro w hw ahead t₁ hP hahead hsees
    rw [List.append_assoc] at hsees
    have hahead' : t.rest = (more ++ ahead).map Taken.token := by
      rw [h'.rest, hahead, List.map_append]
    obtain ⟨t₂, hq, hsees'⟩ :=
      h.renders w hw (more ++ ahead) t₁ (hfollow ahead hP) hahead' hsees
    obtain ⟨v, hg, hsees''⟩ := h'.renders w hw ahead t₂ hP hahead hsees'
    exact ⟨v, run_bind_ok.2 ⟨reread w a, t₂, hq, hg⟩, hsees''⟩

/-- The bodies of the second reader are those of the first, or opened and closed behind it. -/
theorem marks_append {bodies before B : List Span} {taken more : List (Taken all)}
    (hbefore : ∀ body ∈ before, body ∈ B ∨ Taken.Marks body taken)
    (hbehind : ∀ body ∈ bodies, body ∈ before ∨ Taken.Marks body more) :
    ∀ body ∈ bodies, body ∈ B ∨ Taken.Marks body (taken ++ more) := by
  intro body hbody
  rcases hbehind body hbody with hfirst | hmark
  · exact (hbefore body hfirst).imp_right fun hmark => hmark.append_left more
  · exact .inr (hmark.append_right taken)

/-- Two readers in a row, the first of which gives all of it if the second does. -/
theorem renders_bind_of (G₂ : Front) {f : α → Parse γ} {g : Rendering all → α → Parse γ}
    {F₁ : Follow} {G₁ : Front} (hp : Renders W m B F₁ G₁ p q s)
    (hwhole : ∀ a s' c u, s.Proceeds s' → (f a).run s' = (.ok c, u) → u.diagnostics = [] →
      whole c → whole a)
    (hf : ∀ a s', s.Proceeds s' → tame all a →
      Renders W k (m a ++ B) F G₂ (f a) (fun w => g w (reread w a)) s')
    (hfollow : ∀ taken ahead : List (Taken all), G₂.Holds taken → F.Holds ahead →
      F₁.Holds (taken ++ ahead))
    (hfront : ∀ taken more : List (Taken all), G₁.Holds taken → G₂.Holds more →
      G.Holds (taken ++ more)) :
    Renders W k B F G (p >>= f) (fun w => q w >>= g w) s := by
  intro hs
  rw [ends_bind]
  refine (hp hs).mono ?_ fun _ _ hbad => hbad
  rintro a s' ⟨hproceeds, htame, hconveys⟩
  have hends := hf a s' hproceeds htame (hproceeds.fits hs)
  unfold Ends at hends ⊢
  cases hrun : (f a).run s' with
  | mk result u =>
    rw [hrun] at hends
    cases result with
    | error e => exact hproceeds.trans hends
    | ok c =>
      obtain ⟨hproceeds', htame', hconveys'⟩ := hends
      refine ⟨hproceeds.trans hproceeds', htame', fun hsilent hwholec => ?_⟩
      obtain ⟨taken, hG, hmarks, htaken⟩ := hconveys (hproceeds'.silent hsilent)
        (hwhole a s' c u hproceeds hrun hsilent hwholec)
      obtain ⟨more, hG', hmarks', hmore⟩ := hconveys' hsilent hwholec
      have hbefore : ∀ body ∈ m a ++ B, body ∈ B ∨ Taken.Marks body taken := fun body hbody =>
        (List.mem_append.1 hbody).elim (hmarks body) .inl
      exact ⟨taken ++ more, hfront taken more hG hG', marks_append hbefore hmarks',
        htaken.bind hmore fun ahead hF => hfollow more ahead hG' hF⟩

section Bind

variable [AllWhole α] {f : α → Parse γ} {g : Rendering all → α → Parse γ}

/-- Two readers in a row, of which the second takes no bracket of a body at first. -/
theorem renders_bind (hp : Renders W m B F G p q s)
    (hf : ∀ a s', s.Proceeds s' → tame all a →
      Renders W k (m a ++ B) F .clear (f a) (fun w => g w (reread w a)) s') :
    Renders W k B F G (p >>= f) (fun w => q w >>= g w) s :=
  renders_bind_of .clear hp (fun a _ _ _ _ _ _ _ => AllWhole.whole a) hf
    (fun _ _ hG hF => Follow.holds_clear _ hG hF) fun _ _ hG hG' => Front.holds_append _ hG hG'

/-- Two readers in a row, of which the second takes a token that is no bracket of a body at first:
the first does not look any further. -/
theorem renders_bind_solid (hp : Renders W m B F' .clear p q s)
    (hf : ∀ a s', s.Proceeds s' → tame all a →
      Renders W k (m a ++ B) F .solid (f a) (fun w => g w (reread w a)) s') :
    Renders W k B F G (p >>= f) (fun w => q w >>= g w) s :=
  renders_bind_of .solid hp (fun a _ _ _ _ _ _ _ => AllWhole.whole a) hf
    (fun _ _ hG _ => Follow.holds_solid _ hG _) fun _ _ hG hG' => by
      rcases hG with rfl | hG
      · exact G.holds_of_solid hG'
      · obtain ⟨token, rest, rfl⟩ := hG
        exact G.holds_plain token _

/-- Two readers in a row, of which the first does not look at what follows. -/
theorem renders_bind_open (hp : Renders W m B .any .solid p q s)
    (hf : ∀ a s', s.Proceeds s' → tame all a →
      Renders W k (m a ++ B) F .any (f a) (fun w => g w (reread w a)) s') :
    Renders W k B F G (p >>= f) (fun w => q w >>= g w) s :=
  renders_bind_of .any hp (fun a _ _ _ _ _ _ _ => AllWhole.whole a) hf (fun _ _ _ _ => trivial)
    fun _ _ hG _ => by
      obtain ⟨token, rest, rfl⟩ := hG
      exact G.holds_plain token _

/-- Two readers in a row, of which the first may begin with the bracket of a body and does not look
at what follows. -/
theorem renders_bind_any (hp : Renders W m B .any .any p q s)
    (hf : ∀ a s', s.Proceeds s' → tame all a →
      Renders W k (m a ++ B) F .any (f a) (fun w => g w (reread w a)) s') :
    Renders W k B F .any (p >>= f) (fun w => q w >>= g w) s :=
  renders_bind_of .any hp (fun a _ _ _ _ _ _ _ => AllWhole.whole a) hf (fun _ _ _ _ => trivial)
    fun _ _ _ _ => trivial

end Bind

theorem renders_map {f : α → γ} {g : Rendering all → α → γ} (hp : Renders W m B F G p q s)
    (hfg : ∀ w a, g w (reread w a) = reread w (f a))
    (hbodies : ∀ a, ∀ body ∈ k (f a), body ∈ m a ++ B)
    (htame : ∀ a, tame all a → tame all (f a)) (hwhole : ∀ a, whole (f a) → whole a) :
    Renders W k B F G (f <$> p) (fun w => g w <$> q w) s := by
  simp only [map_eq_pure_bind]
  refine renders_bind_of .clear hp ?_ ?_ (fun _ _ hG hF => Follow.holds_clear _ hG hF)
    fun _ _ hG hG' => Front.holds_append _ hG hG'
  · intro a s' c u _ hrun _ hc
    cases hrun
    exact hwhole a hc
  · intro a s' _ ha
    simp only [hfg]
    exact renders_pure (hbodies a) fun _ => htame a ha

theorem renders_some [AllWhole α] (hp : Renders W m B F G p q s) :
    Renders W (fun a => a.elim [] m) B F G (some <$> p) (fun w => some <$> q w) s :=
  renders_map hp (fun _ _ => rfl) (fun _ _ hbody => List.mem_append_left B hbody)
    (fun _ _ => trivial) fun a _ => AllWhole.whole a

theorem renders_none :
    Renders W (fun a : Option α => a.elim [] m) B F .clear (pure none) (fun _ => pure none) s :=
  renders_pure (a := (none : Option α)) (List.forall_mem_nil _) fun _ => trivial

/-! ### Looking at the state -/

theorem renders_get_bind {f : State → Parse α} {g : Rendering all → State → Parse α}
    (h : Renders W m B F G (f s) q s)
    (hg : ∀ w taken ahead t, W w → G.Holds taken → F.Holds ahead → w.Sees (taken ++ ahead) s t →
      g w t t = q w t) : Renders W m B F G (get >>= f) (fun w => get >>= g w) s :=
  h.of_eq rfl hg

theorem renders_peek_bind {f : Token → Parse α} {g : Rendering all → Token → Parse α}
    (h : Renders W m B F .solid (f s.peek) (fun w => g w (w.moved s.peek)) s) :
    Renders W m B F G (peek >>= f) (fun w => peek >>= g w) s := by
  refine (h.of_eq (r := f s.peek) rfl fun w taken ahead t _ hG _ hsees => ?_).front
  rw [peek_bind, hsees.peek (Follow.solid.holds_solid hG ahead)]

theorem renders_kind_bind {f : TokenKind → Parse α} {g : Rendering all → TokenKind → Parse α}
    (h : Renders W m B F .solid (f s.kind) (fun w => g w s.kind) s) :
    Renders W m B F G (kind >>= f) (fun w => kind >>= g w) s := by
  refine (h.of_eq (r := f s.kind) rfl fun w taken ahead t _ hG _ hsees => ?_).front
  rw [kind_bind, hsees.kind (Follow.solid.holds_solid hG ahead)]

/-- One of two readers after the next token is looked at, and the same after either, which takes a
token that is no bracket of a body. -/
theorem renders_kind_ite_bind [AllWhole α] {kind : TokenKind} {p' : Parse α}
    {q' : Rendering all → Parse α} {f : α → Parse γ} {g : Rendering all → α → Parse γ}
    (hthen : s.kind = kind → Renders W m B F' .clear p q s)
    (helse : s.kind ≠ kind → Renders W m B F' .clear p' q' s)
    (hf : ∀ a s', s.Proceeds s' → tame all a →
      Renders W k (m a ++ B) F .solid (f a) (fun w => g w (reread w a)) s') :
    Renders W k B F G (Parse.kind >>= fun next => if next = kind then p >>= f else p' >>= f)
      (fun w => Parse.kind >>= fun next =>
        if next = kind then q w >>= g w else q' w >>= g w) s := by
  apply renders_kind_bind
  by_cases h : s.kind = kind
  · simp only [if_pos h]
    exact renders_bind_solid (hthen h) hf
  · simp only [if_neg h]
    exact renders_bind_solid (helse h) hf

theorem renders_here_bind {f : Span → Parse α} {g : Rendering all → Span → Parse α}
    (h : Renders W m B F .solid (f s.here) (fun w => g w (w.span s.here)) s) :
    Renders W m B F G (here >>= f) (fun w => here >>= g w) s := by
  refine (h.of_eq (r := f s.here) rfl fun w taken ahead t _ hG _ hsees => ?_).front
  rw [here_bind, hsees.here (Follow.solid.holds_solid hG ahead)]

theorem renders_spanFrom_bind {start : Span} {f : Span → Parse α}
    {g : Rendering all → Span → Parse α} (hs : s.previous ≠ none)
    (h : Renders W m B F G (f (s.spanFrom start)) (fun w => g w (w.span (s.spanFrom start))) s) :
    Renders W m B F G (spanFrom start >>= f) (fun w => spanFrom (w.span start) >>= g w) s := by
  refine h.of_eq rfl fun w taken ahead t _ _ _ hsees => ?_
  have hspan : (spanFrom (w.span start) >>= g w) t = g w (t.spanFrom (w.span start)) t := rfl
  rw [hspan, hsees.spanFrom hs]

/-- What is chosen by the next token, which is taken. -/
theorem renders_get_bind_solid {f : State → Parse α} {g : Rendering all → State → Parse α}
    (h : Renders W m B F .solid (f s) (fun w => g w (w.view s)) s)
    (hg : ∀ (w : Rendering all) (t : State), t.kind = s.kind → t.inHead = s.inHead →
      t.here = w.span s.here → g w t = g w (w.view s)) :
    Renders W m B F G (get >>= f) (fun w => get >>= g w) s := by
  refine (renders_get_bind (q := fun w => g w (w.view s)) h
    fun w taken ahead t _ hG _ hsees => ?_).front
  have hsolid : Solid (taken ++ ahead) := Follow.solid.holds_solid hG ahead
  rw [hg w t (hsees.kind hsolid) hsees.inHead (hsees.here hsolid)]

theorem renders_kind_bind_of {f : TokenKind → Parse α} {g : Rendering all → TokenKind → Parse α}
    (h : Renders W m B F G (f s.kind) (fun w => g w s.kind) s)
    (hg : ∀ w taken ahead t, W w → G.Holds taken → F.Holds ahead → w.Sees (taken ++ ahead) s t →
      g w t.kind = g w s.kind) : Renders W m B F G (kind >>= f) (fun w => kind >>= g w) s :=
  h.of_eq (r := f s.kind) rfl fun w taken ahead t hw hG hF hsees => by
    rw [kind_bind, hg w taken ahead t hw hG hF hsees]

theorem renders_kind_if {kind : TokenKind} {p' : Parse α} {q' : Rendering all → Parse α}
    (hfixed : isFixed kind = true)
    (hthen : s.kind = kind → Renders W m B F G p q s)
    (helse : s.kind ≠ kind → Renders W m B F G p' q' s) :
    Renders W m B F G (Parse.kind >>= fun next => if next = kind then p else p')
      (fun w => Parse.kind >>= fun next => if next = kind then q w else q' w) s := by
  refine renders_kind_bind_of (g := fun w next => if next = kind then q w else q' w) ?_ ?_
  · split
    next h => exact hthen h
    next h => exact helse h
  · intro w taken ahead t _ _ _ hsees
    rw [if_congr (hsees.kind_iff hfixed) rfl rfl]

/-! ### Taking tokens -/

theorem renders_advance_bind {f : Token → Parse α} {g : Rendering all → Token → Parse α}
    (hkind : s.kind ≠ .eof)
    (h : Renders W m B F .any (f s.peek) (fun w => g w (w.moved s.peek)) s.next) :
    Renders W m B F G (advance >>= f) (fun w => advance >>= g w) s := by
  intro hs
  have hnext := s.proceeds_next
  refine (h (hnext.fits hs)).mono ?_ fun _ _ hbad => hnext.trans hbad
  rintro a u ⟨hproceeds, htame, hconveys⟩
  refine ⟨hnext.trans hproceeds, htame, fun hsilent hwhole => ?_⟩
  obtain ⟨taken, -, hmarks, hrest, hrenders⟩ := hconveys hsilent hwhole
  refine ⟨.plain s.peek :: taken, G.holds_plain _ _, fun body hbody => ?_, ?_, ?_⟩
  · exact (hmarks body hbody).imp_right fun hmark => hmark.append_right [.plain s.peek]
  · rw [State.rest_of_kind hkind, hrest]
    rfl
  · intro w hw ahead t hF hahead hsees
    obtain ⟨v, hrun, hsees'⟩ := hrenders w hw ahead t.next hF hahead hsees.next
    refine ⟨v, ?_, hsees'⟩
    have hadvance : (advance >>= g w).run t = (g w t.peek).run t.next := rfl
    rw [hadvance, hsees.peek_plain]
    exact hrun

/-- What is chosen by the next two tokens, which are both taken. -/
theorem renders_get_advance_bind {f : State → Parse α} {g : Rendering all → State → Parse α}
    (p : Parse α) (q : Rendering all → Parse α) (hkind : s.kind ≠ .eof)
    (hf : f s s = (advance >>= fun _ => p) s)
    (hg : ∀ (w : Rendering all) (t : State), t.peek = w.moved s.peek →
      t.secondKind = s.secondKind → g w t t = (advance >>= fun _ => q w) t)
    (h : Renders W m B F .solid p q s.next) :
    Renders W m B F G (get >>= f) (fun w => get >>= g w) s := by
  have hadvance : Renders W m B F .solid (advance >>= fun _ => p) (fun w => get >>= g w) s := by
    intro hs
    have hnext := s.proceeds_next
    refine (h (hnext.fits hs)).mono ?_ fun _ _ hbad => hnext.trans hbad
    rintro a u ⟨hproceeds, htame, hconveys⟩
    refine ⟨hnext.trans hproceeds, htame, fun hsilent hwhole => ?_⟩
    obtain ⟨taken, hsolid, hmarks, hrest, hrenders⟩ := hconveys hsilent hwhole
    have hs' : s.rest = (.plain s.peek :: taken).map Taken.token ++ u.rest := by
      rw [State.rest_of_kind hkind, hrest]
      rfl
    refine ⟨.plain s.peek :: taken, solid_cons _ _, fun body hbody => ?_, hs', ?_⟩
    · exact (hmarks body hbody).imp_right fun hmark => hmark.append_right [.plain s.peek]
    · intro w hw ahead t hF hahead hsees
      obtain ⟨v, hrun, hsees'⟩ := hrenders w hw ahead t.next hF hahead hsees.next
      have hsecond : t.secondKind = s.secondKind := by
        rw [State.secondKind_eq (by simp [hsees.rest']), State.secondKind_eq (by simp [hsees.rest])]
        exact hsees.next.kind (Follow.solid.holds_solid hsolid ahead)
      have heq : (get >>= g w).run t = (q w).run t.next := hg w t hsees.peek_plain hsecond
      refine ⟨v, ?_, hsees'⟩
      rw [heq]
      exact hrun
  exact (hadvance.of_eq hf fun _ _ _ _ _ _ _ _ => rfl).front

/-- A token is taken in both or left in both. -/
theorem renders_eat_bind_of {kind : TokenKind} {f : Bool → Parse α}
    {g : Rendering all → Bool → Parse α} (hkind : kind ≠ .eof)
    (htaken : s.kind = kind → Renders W m B F .any (f true) (fun w => g w true) s.next)
    (hleft : s.kind ≠ kind → Renders W m B F G (f false) (fun w => g w false) s)
    (hlook : s.kind ≠ kind → ∀ w taken ahead t, W w → G.Holds taken → F.Holds ahead →
      w.Sees (taken ++ ahead) s t → t.kind ≠ kind) :
    Renders W m B F G (eat kind >>= f) (fun w => eat kind >>= g w) s := by
  by_cases h : s.kind = kind
  · have hadvance : Renders W m B F .solid (advance >>= fun _ => f true)
        (fun w => advance >>= fun _ => g w true) s :=
      renders_advance_bind (h ▸ hkind) (htaken h)
    refine (hadvance.of_eq (eat_bind_of_eq h f) fun w taken ahead t _ hG _ hsees => ?_).front
    exact eat_bind_of_eq ((hsees.kind (Follow.solid.holds_solid hG ahead)).trans h) (g w)
  · refine (hleft h).of_eq (eat_bind_of_ne h f) fun w taken ahead t hw hG hF hsees => ?_
    exact eat_bind_of_ne (hlook h w taken ahead t hw hG hF hsees) (g w)

theorem renders_eat_bind {kind : TokenKind} {f : Bool → Parse α}
    {g : Rendering all → Bool → Parse α}
    (hsteady : isSteady kind = true)
    (htaken : s.kind = kind → Renders W m B F .any (f true) (fun w => g w true) s.next)
    (hleft : s.kind ≠ kind → Renders W m B F G (f false) (fun w => g w false) s) :
    Renders W m B F G (eat kind >>= f) (fun w => eat kind >>= g w) s := by
  have hkind : kind ≠ .eof := by
    rintro rfl
    cases hsteady
  exact renders_eat_bind_of hkind htaken hleft fun hne w taken ahead t _ _ _ hsees =>
    hsees.kind_ne hsteady hne

theorem renders_eat_if {kind : TokenKind} {p p' : Parse α} {q q' : Rendering all → Parse α}
    (hsteady : isSteady kind = true)
    (htaken : s.kind = kind → Renders W m B F .any p q s.next)
    (hleft : s.kind ≠ kind → Renders W m B F G p' q' s) :
    Renders W m B F G (eat kind >>= fun taken => if taken = true then p else p')
      (fun w => eat kind >>= fun taken => if taken = true then q w else q' w) s :=
  renders_eat_bind hsteady (g := fun w taken => if taken = true then q w else q' w)
    (fun h => by simpa using htaken h) fun h => by simpa using hleft h

/-- One of two readers after the next token is looked at, and the same after either. -/
theorem renders_eat_ite_bind [AllWhole α] {kind : TokenKind} {p' : Parse α}
    {q' : Rendering all → Parse α} {f : α → Parse γ} {g : Rendering all → α → Parse γ}
    (hsteady : isSteady kind = true)
    (htaken : s.kind = kind → Renders W m B F .any p q s.next)
    (hleft : s.kind ≠ kind → Renders W m B F G p' q' s)
    (hf : ∀ a s', s.Proceeds s' → tame all a →
      Renders W k (m a ++ B) F .clear (f a) (fun w => g w (reread w a)) s') :
    Renders W k B F G (eat kind >>= fun taken => if taken = true then p >>= f else p' >>= f)
      (fun w => eat kind >>= fun taken =>
        if taken = true then q w >>= g w else q' w >>= g w) s := by
  refine renders_eat_if hsteady (fun h => ?_) fun h => ?_
  · exact renders_bind (htaken h) fun a s' hs' => hf a s' (s.proceeds_next.trans hs')
  · exact renders_bind (hleft h) hf

/-- Where a token that is no bracket of a body is taken next, both look at the same. -/
theorem renders_eat_bind_solid {kind : TokenKind} {f : Bool → Parse α}
    {g : Rendering all → Bool → Parse α}
    (hkind : (kind != .eof) = true)
    (htaken : s.kind = kind → Renders W m B F .any (f true) (fun w => g w true) s.next)
    (hleft : s.kind ≠ kind → Renders W m B F .solid (f false) (fun w => g w false) s) :
    Renders W m B F G (eat kind >>= f) (fun w => eat kind >>= g w) s := by
  have hkind := bne_iff_ne.1 hkind
  refine (renders_eat_bind_of hkind htaken hleft fun hne w taken ahead t _ hG _ hsees => ?_).front
  rwa [hsees.kind (Follow.solid.holds_solid hG ahead)]

omit [Renderable γ] in
theorem ends_expect_bind {kind : TokenKind} {expected : Expected} {good : γ → State → Prop}
    {bad : Problem → State → Prop} {f : Token → Parse γ}
    (h : s.kind = kind → Ends good bad (f s.peek) s.next) (hbad : ∀ e, bad e s) :
    Ends good bad (expect kind expected >>= f) s := by
  by_cases hnext : s.kind = kind
  · have hrun : (expect kind expected >>= f).run s = (f s.peek).run s.next := expect_bind hnext f
    unfold Ends
    rw [hrun]
    exact h hnext
  · have hrun : (expect kind expected).run s = (unexpected expected : Parse Token).run s := by
      show (if s.kind = kind then advance else unexpected expected : Parse Token) s = _
      rw [if_neg hnext]
      rfl
    rw [ends_bind]
    unfold Ends
    rw [hrun]
    exact hbad _

theorem renders_expect_bind {kind : TokenKind} {expected : Expected} {f : Token → Parse α}
    {g : Rendering all → Token → Parse α}
    (hkind : (kind != .eof) = true)
    (h : s.kind = kind →
      Renders W m B F .any (f s.peek) (fun w => g w (w.moved s.peek)) s.next) :
    Renders W m B F G (expect kind expected >>= f) (fun w => expect kind expected >>= g w) s := by
  have hkind := bne_iff_ne.1 hkind
  by_cases hnext : s.kind = kind
  · have hadvance : Renders W m B F .solid (advance >>= f) (fun w => advance >>= g w) s :=
      renders_advance_bind (hnext ▸ hkind) (h hnext)
    refine (hadvance.of_eq (expect_bind hnext f) fun w taken ahead t _ hG _ hsees => ?_).front
    exact expect_bind ((hsees.kind (Follow.solid.holds_solid hG ahead)).trans hnext) (g w)
  · exact fun _ => ends_expect_bind (fun h => absurd h hnext) fun _ => State.Proceeds.refl s

theorem renders_expectIdentifier_bind {expected : Expected} {f : String → Parse α}
    {g : Rendering all → String → Parse α}
    (h : s.kind = .identifier →
      Renders W m B F .any (f s.peek.lexeme) (fun w => g w s.peek.lexeme) s.next) :
    Renders W m B F G (expectIdentifier expected >>= f)
      (fun w => expectIdentifier expected >>= g w) s := by
  unfold expectIdentifier
  simp only [bind_assoc, pure_bind]
  exact renders_expect_bind rfl h

theorem renders_node_bind {span : Span} {f : Node → Parse α} {g : Rendering all → Node → Parse α}
    (h : Renders W m B F G (f ⟨s.nextId, span⟩) (fun w => g w (reread w ⟨s.nextId, span⟩))
      { s with nextId := s.nextId + 1 }) :
    Renders W m B F G (node span >>= f) (fun w => node (w.span span) >>= g w) s := by
  intro hs
  have hfits : State.Fits all { s with nextId := s.nextId + 1 } := ⟨hs.rest, hs.previous⟩
  have hnumbered : s.Proceeds { s with nextId := s.nextId + 1 } :=
    ⟨List.suffix_refl _, .inl rfl, rfl, id⟩
  refine (h hfits).mono ?_ fun _ _ hbad => hnumbered.trans hbad
  rintro a u ⟨hproceeds, htame, hconveys⟩
  refine ⟨hnumbered.trans hproceeds, htame, fun hsilent hwhole => ?_⟩
  obtain ⟨taken, hG, hmarks, hrest, hrenders⟩ := hconveys hsilent hwhole
  refine ⟨taken, hG, hmarks, hrest, fun w hw ahead t hF hahead hsees => ?_⟩
  obtain ⟨v, hrun, hsees'⟩ := hrenders w hw ahead _ hF hahead hsees.numbered
  refine ⟨v, ?_, hsees'⟩
  have hnode : (node (w.span span) >>= g w).run t =
      (g w ⟨t.nextId, w.span span⟩).run { t with nextId := t.nextId + 1 } := rfl
  rw [hnode, hsees.nextId, ← hsees.nextId]
  rw [← hrun, hsees.nextId]
  rfl

/-! ### Readers made from readers -/

theorem renders_withHead {inHead : Bool} (h : Renders W m B F G p q { s with inHead }) :
    Renders W m B F G (withHead inHead p) (fun w => withHead inHead (q w)) s := by
  intro hs
  rw [ends_withHead]
  have hheaded : ∀ (s : State) (inHead : Bool), s.Fits all → State.Fits all { s with inHead } :=
    fun _ _ hs => ⟨hs.rest, hs.previous⟩
  have hback : ∀ {u : State}, State.Proceeds { s with inHead } u →
      s.Proceeds { u with inHead := s.inHead } :=
    fun hproceeds => ⟨hproceeds.rest, hproceeds.previous, rfl, hproceeds.silent⟩
  refine (h (hheaded s inHead hs)).mono ?_ fun _ _ hbad => hback hbad
  rintro a u ⟨hproceeds, htame, hconveys⟩
  refine ⟨hback hproceeds, htame, fun hsilent hwhole => ?_⟩
  obtain ⟨taken, hG, hmarks, hrest, hrenders⟩ := hconveys hsilent hwhole
  refine ⟨taken, hG, hmarks, hrest, fun w hw ahead t hF hahead hsees => ?_⟩
  obtain ⟨v, hrun, hsees'⟩ := hrenders w hw ahead _ hF hahead (hsees.headed inHead)
  refine ⟨{ v with inHead := t.inHead }, ?_, hsees.inHead ▸ hsees'.headed s.inHead⟩
  have hrunq : (withHead inHead (q w)).run t = (((q w).run { t with inHead }).1,
      { ((q w).run { t with inHead }).2 with inHead := t.inHead }) := rfl
  rw [hrunq, hrun]

theorem renders_nested (h : Renders W m B F G p q { s with inHead := false }) :
    Renders W m B F G (nested p) (fun w => nested (q w)) s :=
  renders_withHead h

/-- A reader that reports a problem, or does not give all that was to be read. -/
def Spoils (all : List Token) (p : Parse α) (s : State) : Prop :=
  s.Fits all → Ends (fun a u => s.Proceeds u ∧ tame all a ∧ (u.diagnostics = [] → ¬ whole a))
    (fun _ u => s.Proceeds u) p s

theorem Spoils.renders (h : Spoils all p s) : Renders W m B F G p q s := fun hs =>
  (h hs).mono (fun _ _ ⟨hproceeds, htame, hspoilt⟩ =>
    ⟨hproceeds, htame, fun hsilent hwhole => absurd hwhole (hspoilt hsilent)⟩) fun _ _ hbad => hbad

theorem renders_attempt (h : Renders W m B F G p q s) :
    Renders W (fun result => result.toOption.elim [] m) B F G (attempt p)
      (fun w => attempt (q w)) s := by
  intro hs
  have hends := h hs
  have hrun : (attempt p).run s = (.ok (p.run s).1, (p.run s).2) := rfl
  unfold Ends at hends ⊢
  rw [hrun]
  revert hends
  rcases p.run s with ⟨e | a, u⟩
  · exact fun hproceeds => ⟨hproceeds, trivial, fun _ hwhole => hwhole.elim⟩
  · rintro ⟨hproceeds, htame, hconveys⟩
    refine ⟨hproceeds, htame, fun hsilent hwhole => ?_⟩
    obtain ⟨taken, hG, hmarks, hrest, hrenders⟩ := hconveys hsilent hwhole
    refine ⟨taken, hG, hmarks, hrest, fun w hw ahead t hF hahead hsees => ?_⟩
    obtain ⟨v, hrunq, hsees'⟩ := hrenders w hw ahead t hF hahead hsees
    refine ⟨v, ?_, hsees'⟩
    have hrun' : (attempt (q w)).run t = (.ok ((q w).run t).1, ((q w).run t).2) := rfl
    rw [hrun', hrunq]
    rfl

/-- An attempt, the failure of which is never made good. -/
theorem renders_attempt_bind {f : Except Problem α → Parse γ}
    {g : Rendering all → Except Problem α → Parse γ} (hp : Renders W m B F G p q s)
    (hwhole : ∀ a s' c u, (f (.ok a)).run s' = (.ok c, u) → u.diagnostics = [] → whole c → whole a)
    (hok : ∀ a s', s.Proceeds s' → tame all a →
      Renders W k (m a ++ B) F .clear (f (.ok a)) (fun w => g w (.ok (reread w a))) s')
    (herror : ∀ e s', s.Proceeds s' → Spoils all (f (.error e)) s') :
    Renders W k B F G (attempt p >>= f) (fun w => attempt (q w) >>= g w) s := by
  intro hs
  -- Where the attempt has failed nothing is left to be shown.
  have hfailed : ∀ e s' c u, s.Proceeds s' → (f (.error e)).run s' = (.ok c, u) →
      u.diagnostics = [] → ¬ whole c := by
    intro e s' c u hs' hrun
    have hends := herror e s' hs' (hs'.fits hs)
    unfold Ends at hends
    rw [hrun] at hends
    exact hends.2.2
  refine renders_bind_of .clear (renders_attempt hp) ?_ ?_
    (fun _ _ hG hF => Follow.holds_clear _ hG hF) (fun _ _ hG hG' => Front.holds_append _ hG hG') hs
  · rintro (e | a) s' c u hs' hrun hsilent hc
    · exact absurd hc (hfailed e s' c u hs' hrun hsilent)
    · exact hwhole a s' c u hrun hsilent hc
  · rintro (e | a) s' hs' htame
    · exact (herror e s' hs').renders
    · exact hok a s' hs' htame

/-! ### Loops -/

/-- The bodies in what a turn gives. -/
def Turn.bodies (k : β → List Span) (m : α → List Span) : Turn β α → List Span
  | .again b => k b
  | .done a => m a

theorem renders_again {k : β → List Span} {b : β} (htame : s.Fits all → tame all b)
    (hbodies : ∀ body ∈ k b, body ∈ B) :
    Renders W (Turn.bodies k m) B F .clear (pure (.again b : Turn β α))
      (fun w => pure (.again (reread w b))) s :=
  renders_pure (a := (.again b : Turn β α)) hbodies htame

theorem renders_done {k : β → List Span} {a : α} (htame : s.Fits all → tame all a)
    (hbodies : ∀ body ∈ m a, body ∈ B) :
    Renders W (Turn.bodies k m) B F .clear (pure (.done a : Turn β α))
      (fun w => pure (.done (reread w a))) s :=
  renders_pure (a := (.done a : Turn β α)) hbodies htame

/-- What must follow a turn of a loop, when `P` must follow the last. -/
def Turn.Before (F : Follow) (P : List (Taken all) → Prop) : Turn β α → List (Taken all) → Prop
  | .again _ => F.Holds
  | .done _ => P

omit [Renderable α] [Renderable β] in
/-- A loop with a bound that is not reached begins with one of its turns. -/
theorem iterateFor_pos {turn : β → Parse (Turn β α)} {turns : Nat} (h : 0 < turns) (b : β) :
    iterateFor turn turns b = turn b >>= fun
      | .again b => iterateFor turn (turns - 1) b
      | .done a => pure a := by
  obtain ⟨turns, rfl⟩ := Nat.exists_eq_succ_of_ne_zero h.ne'
  rfl

section Loop

variable {k : β → List Span} {P : List (Taken all) → Prop} {turn : β → Parse (Turn β α)}
  (turn' : Rendering all → β → Parse (Turn β α)) (hP : ∀ ahead, P ahead → F.Holds ahead)
  (hturn : ∀ b s', s.Proceeds s' → tame all b → s'.Fits all →
    Ends (fun turned u => s'.Proceeds u ∧ tame all turned ∧
      (u.diagnostics = [] → whole turned → ∃ taken, Clear taken ∧
        (∀ body ∈ Turn.bodies k m turned, body ∈ k b ∨ Taken.Marks body taken) ∧
        Conveys W (Turn.Before F P turned) taken (fun w => turn' w (reread w b)) turned s' u))
      (fun _ u => s'.Proceeds u) (turn b) s')

include hP hturn

/-- The second loop may make more turns, as there may be more tokens to come for it. -/
theorem ends_iterateFor_conveys (turns : Nat) {b : β} {s' : State} (hproceeds : s.Proceeds s')
    (hb : tame all b) (hs : s'.Fits all) :
    Ends (fun a u => s'.Proceeds u ∧ tame all a ∧
      (u.diagnostics = [] → whole a → ∃ taken, Clear taken ∧
        (∀ body ∈ m a, body ∈ k b ∨ Taken.Marks body taken) ∧
        ∀ turns' : Rendering all → Nat, (∀ w, turns ≤ turns' w) →
          Conveys W P taken (fun w => iterateFor (turn' w) (turns' w) (reread w b)) a s' u))
      (fun _ u => s'.Proceeds u) (iterateFor turn turns b) s' := by
  induction turns generalizing b s' with
  | zero => exact State.Proceeds.refl s'
  | succ turns ih =>
      have hfirst {turns' : Rendering all → Nat} (hle : ∀ w, turns + 1 ≤ turns' w) :
          (fun w => iterateFor (turn' w) (turns' w) (reread w b)) = fun w =>
            turn' w (reread w b) >>= fun
              | .again b => iterateFor (turn' w) (turns' w - 1) b
              | .done a => pure a :=
        funext fun w => iterateFor_pos (Nat.lt_of_lt_of_le turns.succ_pos (hle w)) _
      rw [iterateFor, ends_bind]
      refine (hturn b s' hproceeds hb hs).mono ?_ fun _ _ hbad => hbad
      rintro turned u ⟨hu, htamed, hconveys⟩
      cases turned with
      | done a =>
        refine ⟨hu, htamed, fun hsilent hwhole => ?_⟩
        obtain ⟨taken, hclear, hmarks, htaken⟩ := hconveys hsilent hwhole
        refine ⟨taken, hclear, hmarks, fun turns' hle => ?_⟩
        rw [hfirst hle, ← List.append_nil taken]
        exact htaken.bind ⟨rfl, fun _ _ _ t _ _ hsees => ⟨t, rfl, hsees⟩⟩ fun _ hahead => hahead
      | again b' =>
        refine (ih (hproceeds.trans hu) htamed (hu.fits hs)).mono ?_ fun _ _ hbad => hu.trans hbad
        rintro a v ⟨hv, htamed', hconveys'⟩
        refine ⟨hu.trans hv, htamed', fun hsilent hwhole => ?_⟩
        obtain ⟨taken, hclear, hmarks, htaken⟩ := hconveys (hv.silent hsilent) trivial
        obtain ⟨more, hclear', hmarks', hmore⟩ := hconveys' hsilent hwhole
        refine ⟨taken ++ more, Front.clear.holds_append hclear hclear',
          marks_append hmarks hmarks', fun turns' hle => ?_⟩
        rw [hfirst hle]
        exact htaken.bind (hmore (turns' · - 1) fun w => Nat.le_sub_one_of_lt (hle w))
          fun ahead hahead => F.holds_clear hclear' (hP ahead hahead)

/-- A loop takes what its turns take. -/
theorem ends_iterate_conveys {b : β} (htame : tame all b) (hs : s.Fits all) :
    Ends (fun a u => s.Proceeds u ∧ tame all a ∧
      (u.diagnostics = [] → whole a → ∃ taken, Clear taken ∧
        (∀ body ∈ m a, body ∈ k b ∨ Taken.Marks body taken) ∧
        Conveys W P taken (fun w => iterate (turn' w) (reread w b)) a s u))
      (fun _ u => s.Proceeds u) (iterate turn b) s := by
  refine (ends_iterateFor_conveys turn' hP hturn (s.rest.length + 1) (.refl s) htame hs).mono ?_
    fun _ _ hbad => hbad
  rintro a u ⟨hproceeds, htamed, hconveys⟩
  refine ⟨hproceeds, htamed, fun hsilent hwhole => ?_⟩
  obtain ⟨taken, hclear, hmarks, hmore⟩ := hconveys hsilent hwhole
  refine ⟨taken, hclear, hmarks,
    (hmore (fun _ => s.rest.length + 1) fun _ => Nat.le_refl _).rest, ?_⟩
  intro w hw ahead t hF hahead hsees
  have hle := hsees.length_le
  exact (hmore (fun _ => t.rest.length + 1) fun _ => by omega).renders w hw ahead t hF hahead hsees

end Loop

/-- A loop renders what its turns reread. -/
theorem renders_iterate {k : β → List Span} {turn : β → Parse (Turn β α)}
    (turn' : Rendering all → β → Parse (Turn β α))
    (hturn : ∀ b s', s.Proceeds s' → tame all b → Renders W (Turn.bodies k m) (k b) F .clear
      (turn b) (fun w => turn' w (reread w b)) s')
    {b : β} (htame : s.Fits all → tame all b) (hbodies : ∀ body ∈ k b, body ∈ B) :
    Renders W m B F .clear (iterate turn b) (fun w => iterate (turn' w) (reread w b)) s := by
  intro hs
  refine (ends_iterate_conveys (W := W) (m := m) (F := F) (k := k) turn' (fun _ hF => hF) ?_
    (htame hs) hs).mono ?_
    fun _ _ hbad => hbad
  · intro b s' hs' hb hfits
    refine (hturn b s' hs' hb hfits).mono ?_ fun _ _ hbad => hbad
    rintro (b' | a) u hgood
    · exact hgood
    · exact hgood
  · rintro a u ⟨hproceeds, htamed, hconveys⟩
    refine ⟨hproceeds, htamed, fun hsilent hwhole => ?_⟩
    obtain ⟨taken, hclear, hmarks, hconveys'⟩ := hconveys hsilent hwhole
    exact ⟨taken, hclear, fun body hbody => (hmarks body hbody).imp_left (hbodies body), hconveys'⟩

/-- A list with commas, which something closes. -/
theorem renders_commaSeparated [AllWhole α] {close : TokenKind} {item : Parse α}
    {item' : Rendering all → Parse α}
    (hitem : ∀ s', s.Proceeds s' → Renders W m [] F .clear item item' s') :
    Renders W (fun items => items.flatMap m) B .solid .clear (commaSeparated close item)
      (fun w => commaSeparated close (item' w)) s := by
  unfold commaSeparated
  refine renders_iterate (k := fun items => items.flatMap m) _ ?_ (fun _ => trivial)
    (List.forall_mem_nil _)
  intro items s' hs' _
  have hkind : ∀ (w : Rendering all) (taken ahead : List (Taken all)) t, Clear taken →
      Solid ahead → w.Sees (taken ++ ahead) s' t →
      (t.kind = close || t.atEnd : Bool) = (s'.kind = close || s'.atEnd : Bool) := by
    intro w taken ahead t hclear hsolid hsees
    obtain ⟨token, rest, hboth⟩ : Solid (taken ++ ahead) :=
      Follow.solid.holds_clear hclear hsolid
    rw [hsees.kind ⟨token, rest, hboth⟩]
    unfold State.atEnd
    rw [hsees.rest, hsees.rest', hboth]
    rfl
  by_cases hdone : (s'.kind = close || s'.atEnd : Bool) = true
  · refine renders_get_bind (q := fun w => pure (.done (reread w items))) ?_ ?_
    · rw [if_pos hdone]
      exact renders_done (fun _ => trivial) fun _ hbody => hbody
    · intro w taken ahead t _ hclear hsolid hsees
      rw [if_pos ((hkind w taken ahead t hclear hsolid hsees).trans hdone)]
  · refine renders_get_bind (q := fun w => do
      let items := reread w items ++ [← item' w]
      if ← eat .comma then return .again items else return .done items) ?_ ?_
    · rw [if_neg hdone]
      have hread : Renders W m (items.flatMap m) .solid .clear item item' s' :=
        (hitem s' hs').mono (List.forall_mem_nil _) (fun _ hsolid => by
          simpa using F.holds_solid hsolid []) fun _ hclear => hclear
      apply renders_bind hread
      intro a u _ _
      have hbodies : ∀ body ∈ (items ++ [a]).flatMap m, body ∈ m a ++ items.flatMap m := by
        intro body hbody
        rw [List.flatMap_append, List.mem_append, List.flatMap_singleton] at hbody
        exact List.mem_append.2 hbody.symm
      simp only [Renderable.render_concat]
      refine renders_eat_bind_of (by decide) ?_ ?_ ?_
      · intro _
        exact (renders_again (fun _ => trivial) hbodies).anyFront
      · intro _
        exact renders_done (fun _ => trivial) hbodies
      · intro hne w taken ahead t _ hclear hsolid hsees
        rwa [hsees.kind (Follow.solid.holds_clear hclear hsolid)]
    · intro w taken ahead t _ hclear hsolid hsees
      rw [if_neg fun hends => hdone ((hkind w taken ahead t hclear hsolid hsees).symm.trans hends)]

end Parse

end ComponentLang.Grammar
