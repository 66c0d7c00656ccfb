import ComponentLang.Proofs.Grammar.Texts
import ComponentLang.Proofs.Tree.Spans

/-!
# The places of what is read

Tokens are taken in the order of the source, so what is read from one state to another stands
between the token that was next in the first and the token taken last in the second. A problem is at
the token that is next when the reading ends with it, but for a target that cannot be assigned,
which is before that and still behind everything that was reported.

`Spans source Q p s` says that `p` keeps this order from `s` on, and that what it gives satisfies
`Q`. `Brings` is what most readers give: a part that stands between the two states, with everything
in it in its place.
-/
namespace ComponentLang.Grammar

open Parse ComponentLang.TreePart

variable {source : Source} {lo hi : Nat}

/-! ## Parts in their places -/

/-- The placeholder for an assignment to what cannot be assigned is where the reading ended, with
the line and the column of something before. -/
structure Deferred (source : Source) (part : TreePart) (span : Span) : Prop where
  placeholder : part = .stmt (.error span Cause.invalidTarget.message)
  empty : span.start = span.stop
  stop_le : span.stop ≤ source.length
  earlier : ∃ pos ≤ span.start, span.line = source.line pos ∧ span.column = source.column pos

/-- What is known of the places in a part without what is in the parts of it. -/
structure Sited (source : Source) (part : TreePart) : Prop where
  kept : ∀ span, part.Keeps span → span.On source ∨ Deferred source part span
  ordered : part.Ordered
  nests : ∀ child ∈ part.children, child.Nests ∨ part.Implied child

/-- The part stands between `lo` and `hi`, and all in it is in its place. -/
structure Lies (source : Source) (lo hi : Nat) (part : TreePart) : Prop where
  sited : part.Everywhere (Sited source)
  nests : part.Nests
  within : ∀ span ∈ part.span?, lo ≤ span.start ∧ span.stop ≤ hi

theorem Lies.mono {lo' hi' : Nat} {part : TreePart} (h : Lies source lo hi part) (hlo : lo' ≤ lo)
    (hhi : hi ≤ hi') : Lies source lo' hi' part where
  sited := h.sited
  nests := h.nests
  within span hspan := ⟨hlo.trans (h.within span hspan).1, (h.within span hspan).2.trans hhi⟩

theorem nests_of_lies {part : TreePart} {span : Span} (hspan : part.span? = some span)
    (h : ∀ child ∈ part.children, Lies source span.start span.stop child) : part.Nests := by
  intro outer houter child hchild inner hinner
  obtain rfl : span = outer := Option.some.inj (hspan.symm.trans houter)
  exact (h child hchild).within inner hinner

/-- What a part keeps is in its place, and what is in its parts is. -/
theorem everywhere_sited {part : TreePart} {span : Span} (heq : part.span? = some span)
    (hspan : span.On source) (hparams : ∀ p ∈ part.params, p.span.On source)
    (hannotations : ∀ a ∈ part.annotations, a.On source) (hordered : part.Ordered)
    (hnests : ∀ child ∈ part.children, child.Nests ∨ part.Implied child)
    (hchildren : ∀ child ∈ part.children, child.Everywhere (Sited source)) :
    part.Everywhere (Sited source) := by
  refine everywhere_iff.2 ⟨⟨?_, hordered, hnests⟩, hchildren⟩
  rintro kept (hkept | ⟨p, hp, rfl⟩ | ⟨a, ha, b, hb, rfl⟩)
  · obtain rfl : span = kept := Option.some.inj (heq.symm.trans hkept)
    exact .inl hspan
  · exact .inl (hparams p hp)
  · exact .inl (hannotations a ha b hb)

/-- A part is in its place if its parts are in theirs, which is between its own ends. -/
theorem lies_of {part : TreePart} {span : Span} (heq : part.span? = some span)
    (hspan : span.On source) (hlo : lo ≤ span.start) (hhi : span.stop ≤ hi)
    (hparams : ∀ p ∈ part.params, p.span.On source)
    (hannotations : ∀ a ∈ part.annotations, a.On source) (hordered : part.Ordered)
    (hchildren : ∀ child ∈ part.children, Lies source span.start span.stop child) :
    Lies source lo hi part where
  sited := everywhere_sited heq hspan hparams hannotations hordered
    (fun child hchild => .inl (hchildren child hchild).nests)
    fun child hchild => (hchildren child hchild).sited
  nests := nests_of_lies heq hchildren
  within := by
    rintro kept hkept
    obtain rfl : span = kept := Option.some.inj (heq.symm.trans hkept)
    exact ⟨hlo, hhi⟩

theorem Lies.tight {part : TreePart} {span : Span} (h : Lies source lo hi part)
    (heq : part.span? = some span) : Lies source span.start span.stop part where
  sited := h.sited
  nests := h.nests
  within := by
    rintro kept hkept
    obtain rfl : span = kept := Option.some.inj (heq.symm.trans hkept)
    exact ⟨Nat.le_refl _, Nat.le_refl _⟩

/-- Only a statement can be a placeholder. -/
theorem Lies.on {part : TreePart} {span : Span} (h : Lies source lo hi part)
    (heq : part.span? = some span) (hother : ∀ s, part ≠ .stmt s) : span.On source :=
  ((everywhere_iff.1 h.sited).1.kept span (.inl heq)).resolve_right fun hdeferred =>
    hother _ hdeferred.placeholder

/-! ### Forms of parts -/

/-- The part keeps no place but its own, and it has no lists. -/
def IsPlain (part : TreePart) : Prop := part.params = [] ∧ part.annotations = [] ∧ part.rows = []

/-- What is in a plain part is in its place, wherever that is. -/
theorem IsPlain.everywhere_sited {part : TreePart} {span : Span} (h : IsPlain part)
    (heq : part.span? = some span) (hspan : span.On source)
    (hchildren : ∀ child ∈ part.children, ∃ lo hi, Lies source lo hi child) :
    part.Everywhere (Sited source) := by
  obtain ⟨hparams, hannotations, hrows⟩ := h
  refine Grammar.everywhere_sited heq hspan ?_ ?_ ?_ (fun child hchild => ?_) fun child hchild => ?_
  · exact hparams ▸ List.forall_mem_nil _
  · exact hannotations ▸ List.forall_mem_nil _
  · rw [Ordered, hrows]
    exact List.forall_mem_nil _
  · obtain ⟨lo, hi, hlies⟩ := hchildren child hchild
    exact .inl hlies.nests
  · obtain ⟨lo, hi, hlies⟩ := hchildren child hchild
    exact hlies.sited

theorem IsPlain.lies {part : TreePart} {span : Span} (h : IsPlain part)
    (heq : part.span? = some span) (hspan : span.On source) (hlo : lo ≤ span.start)
    (hhi : span.stop ≤ hi)
    (hchildren : ∀ child ∈ part.children, Lies source span.start span.stop child) :
    Lies source lo hi part where
  sited := h.everywhere_sited heq hspan fun child hchild => ⟨_, _, hchildren child hchild⟩
  nests := nests_of_lies heq hchildren
  within := by
    intro kept hkept
    obtain rfl : span = kept := Option.some.inj (heq.symm.trans hkept)
    exact ⟨hlo, hhi⟩

theorem lies_expr {e : Expr} (hspan : e.span.On source) (hlo : lo ≤ e.span.start)
    (hhi : e.span.stop ≤ hi)
    (hchildren : ∀ child ∈ e.children, Lies source e.span.start e.span.stop child) :
    Lies source lo hi (.expr e) :=
  IsPlain.lies ⟨rfl, rfl, rfl⟩ rfl hspan hlo hhi hchildren

theorem lies_identifier {node : Node} {name : String} (hspan : node.span.On source)
    (hlo : lo ≤ node.span.start) (hhi : node.span.stop ≤ hi) :
    Lies source lo hi (.identifier node name) :=
  IsPlain.lies ⟨rfl, rfl, rfl⟩ rfl hspan hlo hhi (List.forall_mem_nil _)

theorem lies_valueBinding {node : Node} {name : String} (hspan : node.span.On source)
    (hlo : lo ≤ node.span.start) (hhi : node.span.stop ≤ hi) :
    Lies source lo hi (.valueBinding node name) :=
  IsPlain.lies ⟨rfl, rfl, rfl⟩ rfl hspan hlo hhi (List.forall_mem_nil _)

theorem lies_text {content : String} {span : Span} (hspan : span.On source)
    (hlo : lo ≤ span.start) (hhi : span.stop ≤ hi) : Lies source lo hi (.text content span) :=
  IsPlain.lies ⟨rfl, rfl, rfl⟩ rfl hspan hlo hhi (List.forall_mem_nil _)

/-- Markup has the place of what it is. -/
theorem lies_markup {m : Markup} {part : TreePart} (h : Lies source lo hi part)
    (hpart : m.children = [part]) (heq : part.span? = some m.span)
    (hother : ∀ s, part ≠ .stmt s) : Lies source lo hi (.markup m) := by
  obtain ⟨hlo, hhi⟩ := h.within _ heq
  refine IsPlain.lies ⟨rfl, rfl, rfl⟩ rfl (h.on heq hother) hlo hhi ?_
  show ∀ child ∈ m.children, _
  rw [hpart]
  exact List.forall_mem_singleton.2 (h.tight heq)

theorem lies_markup_tag {t : Tag} (h : Lies source lo hi (.tag t)) :
    Lies source lo hi (.markup (.tag t)) :=
  lies_markup h rfl rfl nofun

theorem lies_markup_expr {e : Expr} (h : Lies source lo hi (.expr e)) :
    Lies source lo hi (.markup (.expr e)) :=
  lies_markup h rfl rfl nofun

theorem lies_markup_text {content : String} {span : Span} (hspan : span.On source)
    (hlo : lo ≤ span.start) (hhi : span.stop ≤ hi) :
    Lies source lo hi (.markup (.text content span)) :=
  lies_markup (lies_text hspan hlo hhi) rfl rfl nofun

/-! ### Lists of parts -/

/-- The parts stand between `lo` and `hi` one after the other. -/
structure Row (source : Source) (lo hi : Nat) (parts : List TreePart) : Prop where
  lies : ∀ part ∈ parts, Lies source lo hi part
  ordered : parts.Pairwise Before

theorem row_nil : Row source lo hi [] := ⟨List.forall_mem_nil _, List.Pairwise.nil⟩

theorem Row.mono {lo' hi' : Nat} {parts : List TreePart} (h : Row source lo hi parts)
    (hlo : lo' ≤ lo) (hhi : hi ≤ hi') : Row source lo' hi' parts :=
  ⟨fun part hpart => (h.lies part hpart).mono hlo hhi, h.ordered⟩

/-- Parts that begin where the others end or behind that. -/
theorem Row.append {lo' hi' : Nat} {parts others : List TreePart} (h : Row source lo hi parts)
    (h' : Row source lo' hi' others) (hlo : lo ≤ lo') (hstart : hi ≤ lo') (hhi : hi ≤ hi') :
    Row source lo hi' (parts ++ others) where
  lies := List.forall_mem_append.2 ⟨(h.mono (Nat.le_refl _) hhi).lies,
    (h'.mono hlo (Nat.le_refl _)).lies⟩
  ordered := by
    refine List.pairwise_append.2 ⟨h.ordered, h'.ordered, fun a ha b hb x hx y hy => ?_⟩
    exact (((h.lies a ha).within x hx).2.trans hstart).trans ((h'.lies b hb).within y hy).1

/-- One more item of a list, which begins where the others end or behind that. -/
theorem Row.concat {α : Type} {lo' hi' : Nat} {part : α → TreePart} {items : List α} {a : α}
    (h : Row source lo hi (items.map part)) (ha : Lies source lo' hi' (part a)) (hlo : lo ≤ lo')
    (hstart : hi ≤ lo') (hhi : hi ≤ hi') : Row source lo hi' ((items ++ [a]).map part) := by
  rw [List.map_append]
  exact h.append ⟨List.forall_mem_singleton.2 ha, List.pairwise_singleton _ _⟩ hlo hstart hhi

/-! ## States in order -/

namespace State

variable {s t u : State}

/-- The end of the token taken last. -/
def reach (s : State) : Nat := (s.previous.map Span.stop).getD 0

@[simp] theorem start_spanFrom (s : State) (start : Span) :
    (s.spanFrom start).start = start.start := by
  unfold spanFrom
  split <;> rfl

theorem stop_spanFrom (s : State) (start : Span) :
    (s.spanFrom start).stop = max s.reach start.stop := by
  unfold spanFrom reach
  split
  next span hspan => rw [hspan]; rfl
  next hnone => rw [hnone]; exact (Nat.zero_max _).symm

theorem stop_spanFrom_of_le {start : Span} (h : start.stop ≤ s.reach) :
    (s.spanFrom start).stop = s.reach := by
  rw [stop_spanFrom, Nat.max_eq_left h]

/-- The tokens to come are spans of the source one after the other, behind the token taken last and
in front of the end, and the problems found so far are in order and not behind the next token. -/
structure Aligned (source : Source) (s : State) : Prop where
  spans : ∀ t ∈ s.rest, t.span.On source
  ordered : s.rest.Pairwise fun t u => t.span.stop ≤ u.span.start
  before : ∀ t ∈ s.rest, t.span.stop ≤ s.stop.start
  stop_on : s.stop.On source
  previous_on : ∀ span ∈ s.previous, span.On source
  reach_le : s.reach ≤ s.here.start
  reported : s.diagnostics.Pairwise fun d e => e.place ≤ d.place
  reported_le : ∀ d ∈ s.diagnostics, d.place ≤ source.place s.here.start

/-- Reading has gone on in order from the first state to the second. -/
structure Passes (source : Source) (s t : State) : Prop where
  aligned : t.Aligned source
  here_le : s.here.start ≤ t.here.start
  reach_le : s.reach ≤ t.reach

theorem Aligned.passes (h : s.Aligned source) : s.Passes source s :=
  ⟨h, Nat.le_refl _, Nat.le_refl _⟩

theorem Passes.trans (h : s.Passes source t) (h' : t.Passes source u) : s.Passes source u :=
  ⟨h'.aligned, h.here_le.trans h'.here_le, h.reach_le.trans h'.reach_le⟩

theorem here_of_cons {token : Token} {rest : List Token} (h : s.rest = token :: rest) :
    s.here = token.span := by
  simp only [here, peek, h]

theorem here_of_nil (h : s.rest = []) : s.here = s.stop := by
  simp only [here, peek, h]
  rfl

theorem Aligned.here_on (h : s.Aligned source) : s.here.On source := by
  cases hrest : s.rest with
  | nil => rw [here_of_nil hrest]; exact h.stop_on
  | cons token rest =>
      rw [here_of_cons hrest]
      exact h.spans token (hrest ▸ List.mem_cons_self)

theorem Aligned.spanFrom_on {start : Span} (h : s.Aligned source) (hstart : start.On source) :
    (s.spanFrom start).On source := by
  unfold spanFrom
  split
  next span hspan => exact hstart.through (h.previous_on span hspan)
  next => exact hstart

theorem Aligned.here_le_stop (h : s.Aligned source) : s.here.start ≤ s.stop.start := by
  cases hrest : s.rest with
  | nil => rw [here_of_nil hrest]
  | cons token rest =>
      rw [here_of_cons hrest]
      have hmem : token ∈ s.rest := hrest ▸ List.mem_cons_self
      exact (h.spans token hmem).start_le.trans (h.before token hmem)

/-- Problems that are not behind the next token are not behind a later one. -/
theorem Aligned.reported_le_of {pos : Nat} (h : s.Aligned source) (hpos : s.here.start ≤ pos)
    (hlength : pos ≤ source.length) : ∀ d ∈ s.diagnostics, d.place ≤ source.place pos :=
  fun d hd => (h.reported_le d hd).trans (Source.place_mono hpos hlength)

theorem next_of_nil (h : s.rest = []) : s.next = s := by
  unfold next
  rw [h]

theorem next_of_cons {token : Token} {rest : List Token} (h : s.rest = token :: rest) :
    s.next = { s with rest, previous := some token.span } := by
  unfold next
  rw [h]

/-- Behind a token is another one of the source or the end of it. -/
theorem Aligned.here_next {token : Token} {rest : List Token} (h : s.Aligned source)
    (hrest : s.rest = token :: rest) :
    token.span.stop ≤ s.next.here.start ∧ s.next.here.On source := by
  rw [next_of_cons hrest]
  cases rest with
  | nil =>
      rw [here_of_nil rfl]
      exact ⟨h.before token (hrest ▸ List.mem_cons_self), h.stop_on⟩
  | cons following more =>
      rw [here_of_cons rfl]
      have hordered := List.pairwise_cons.1 (hrest ▸ h.ordered)
      exact ⟨hordered.1 following List.mem_cons_self,
        h.spans following (hrest ▸ List.mem_cons_of_mem token List.mem_cons_self)⟩

theorem Aligned.next (h : s.Aligned source) : s.Passes source s.next := by
  cases hrest : s.rest with
  | nil => rw [next_of_nil hrest]; exact h.passes
  | cons token rest =>
      obtain ⟨hstop, hon⟩ := h.here_next hrest
      have htoken := h.spans token (hrest ▸ List.mem_cons_self)
      have hhere : s.here.start ≤ s.next.here.start := by
        rw [here_of_cons hrest]
        exact htoken.start_le.trans hstop
      rw [next_of_cons hrest] at hstop hon hhere ⊢
      have hsub : ∀ t ∈ rest, t ∈ s.rest := fun t ht => hrest ▸ List.mem_cons_of_mem token ht
      refine ⟨?_, hhere, ?_⟩
      · exact {
          spans := fun t ht => h.spans t (hsub t ht)
          ordered := (List.pairwise_cons.1 (hrest ▸ h.ordered)).2
          before := fun t ht => h.before t (hsub t ht)
          stop_on := h.stop_on
          previous_on := by rintro _ ⟨⟩; exact htoken
          reach_le := hstop
          reported := h.reported
          reported_le := h.reported_le_of hhere hon.start_le_length }
      · show s.reach ≤ token.span.stop
        exact (here_of_cons hrest ▸ h.reach_le).trans htoken.start_le

/-- Nothing is behind the end, so all that is left may be dropped. -/
theorem Aligned.drop (h : s.Aligned source) : s.Passes source { s with rest := [] } where
  aligned := {
    spans := List.forall_mem_nil _
    ordered := List.Pairwise.nil
    before := List.forall_mem_nil _
    stop_on := h.stop_on
    previous_on := h.previous_on
    reach_le := h.reach_le.trans h.here_le_stop
    reported := h.reported
    reported_le := h.reported_le_of h.here_le_stop h.stop_on.start_le_length }
  here_le := h.here_le_stop
  reach_le := Nat.le_refl _

theorem reach_next (h : s.kind ≠ .eof) : s.next.reach = s.here.stop := by
  cases hrest : s.rest with
  | nil => exact absurd (by simp [kind, peek, hrest, Token.ofKind]) h
  | cons token rest => rw [next_of_cons hrest, here_of_cons hrest]; rfl

/-- Where a token of a kind that the end is not of comes next, it is not the end. -/
theorem kind_ne_eof_of {p : TokenKind → Bool} (h : p s.kind = true) (heof : p .eof = false) :
    s.kind ≠ .eof := by
  intro hkind
  rw [hkind, heof] at h
  cases h

/-- Reading has gone on in order and has taken at least the next token of the first state. -/
structure Advances (source : Source) (s t : State) : Prop extends Passes source s t where
  begins : s.Aligned source
  taken : s.here.stop ≤ t.reach

theorem Aligned.advances (h : s.Aligned source) (hkind : s.kind ≠ .eof) :
    s.Advances source s.next :=
  ⟨h.next, h, (reach_next hkind).ge⟩

theorem Advances.then (h : s.Advances source t) (h' : t.Passes source u) : s.Advances source u :=
  ⟨h.toPasses.trans h', h.begins, h.taken.trans h'.reach_le⟩

theorem Advances.spanFrom_on (h : s.Advances source t) : (t.spanFrom s.here).On source :=
  h.aligned.spanFrom_on h.begins.here_on

theorem Advances.stop_spanFrom (h : s.Advances source t) :
    (t.spanFrom s.here).stop = t.reach :=
  stop_spanFrom_of_le h.taken

/-- Only tokens and problems matter. -/
theorem Passes.congr (h : s.Passes source t) (hrest : u.rest = t.rest)
    (hprevious : u.previous = t.previous) (hstop : u.stop = t.stop)
    (hdiagnostics : u.diagnostics = t.diagnostics) : s.Passes source u := by
  obtain ⟨⟩ := t
  obtain ⟨⟩ := u
  obtain rfl : _ = _ := hrest
  obtain rfl : _ = _ := hprevious
  obtain rfl : _ = _ := hstop
  obtain rfl : _ = _ := hdiagnostics
  obtain ⟨haligned, hhere, hreach⟩ := h
  exact ⟨⟨haligned.spans, haligned.ordered, haligned.before, haligned.stop_on,
    haligned.previous_on, haligned.reach_le, haligned.reported, haligned.reported_le⟩, hhere,
    hreach⟩

end State

/-! ### Problems in order -/

def Problem.place (e : Problem) : Nat ×ₗ Nat := toLex (e.line, e.column)

/-- The problem is behind those found so far, and it is at the next token or, if it is that a target
cannot be assigned, at something before that. -/
structure Fault (source : Source) (e : Problem) (t : State) : Prop where
  after : ∀ d ∈ t.diagnostics, d.place ≤ e.place
  earlier : ∃ pos ≤ t.here.start, e.line = source.line pos ∧ e.column = source.column pos
  here : e.cause ≠ .invalidTarget → e.line = t.here.line ∧ e.column = t.here.column

/-- A problem at the next token. -/
theorem fault_here {s : State} (h : s.Aligned source) (cause : Cause) :
    Fault source (.ofSpan cause s.here) s where
  after d hd := by
    have hplaced := h.here_on.placed
    have hplace : (Problem.ofSpan cause s.here).place = source.place s.here.start :=
      congrArg toLex (Prod.ext hplaced.1 hplaced.2)
    rw [hplace]
    exact h.reported_le d hd
  earlier := ⟨_, Nat.le_refl _, h.here_on.placed⟩
  here _ := ⟨rfl, rfl⟩

theorem Fault.place_le {e : Problem} {t : State} (h : Fault source e t) (ht : t.Aligned source) :
    e.place ≤ source.place t.here.start := by
  obtain ⟨pos, hpos, hline, hcolumn⟩ := h.earlier
  have hplace : e.place = source.place pos := congrArg toLex (Prod.ext hline hcolumn)
  rw [hplace]
  exact Source.place_mono hpos ht.here_on.start_le_length

/-- When a problem is reported the order is kept. -/
theorem State.Aligned.report {e : Problem} {s : State} (h : s.Aligned source)
    (he : Fault source e s) : s.Passes source (s.report e) := by
  have hreported : (s.report e).Aligned source := {
    spans := h.spans
    ordered := h.ordered
    before := h.before
    stop_on := h.stop_on
    previous_on := h.previous_on
    reach_le := h.reach_le
    reported := List.pairwise_cons.2 ⟨he.after, h.reported⟩
    reported_le := List.forall_mem_cons.2 ⟨he.place_le h, h.reported_le⟩ }
  exact ⟨hreported, Nat.le_refl _, Nat.le_refl _⟩

/-! ## Readers that keep the order -/

namespace Parse

variable {α β : Type} {s t : State} {Q : α → State → Prop} {P : β → State → Prop}

/-- If `s` is in order, so is the state with which `p` ends, what it gives satisfies `Q`, and its
problem is in order too. -/
def Spans (source : Source) (Q : α → State → Prop) (p : Parse α) (s : State) : Prop :=
  s.Aligned source → Ends (fun a t => s.Passes source t ∧ Q a t)
    (fun e t => s.Passes source t ∧ Fault source e t) p s

theorem spans_pure {a : α} (h : s.Aligned source → Q a s) : Spans source Q (pure a) s :=
  fun hs => ⟨hs.passes, h hs⟩

theorem spans_throw {e : Problem} (h : s.Aligned source → Fault source e s) :
    Spans source Q (throw e : Parse α) s :=
  fun hs => ⟨hs.passes, h hs⟩

/-- What keeps the order from a later state on does so from an earlier one. -/
theorem spans_from {p : Parse α} (hst : s.Passes source t) (h : Spans source Q p t) :
    Ends (fun a u => s.Passes source u ∧ Q a u)
      (fun e u => s.Passes source u ∧ Fault source e u) p t :=
  (h hst.aligned).mono (fun _ _ ⟨htu, hQ⟩ => ⟨hst.trans htu, hQ⟩)
    fun _ _ ⟨htu, hfault⟩ => ⟨hst.trans htu, hfault⟩

theorem spans_bind {p : Parse β} {f : β → Parse α} (hp : Spans source P p s)
    (hf : ∀ b t, s.Passes source t → P b t → Spans source Q (f b) t) :
    Spans source Q (p >>= f) s := by
  intro hs
  rw [ends_bind]
  exact (hp hs).mono (fun b t ⟨hst, hb⟩ => spans_from hst (hf b t hst hb)) fun _ _ hbad => hbad

/-- What only takes tokens leaves the problems as they are. -/
theorem spans_drops {p : Parse α} (hp : Spans source Q p s) (hdrops : Skims State.Drops p s) :
    Spans source (fun a t => Q a t ∧ s.Drops t) p s :=
  fun hs => ((hp hs).and hdrops).mono (fun _ _ ⟨⟨hst, hQ⟩, ht, _⟩ => ⟨hst, hQ, ht⟩)
    fun _ _ ⟨hbad, _⟩ => hbad

theorem spans_mono {p : Parse α} {Q' : α → State → Prop} (hp : Spans source Q p s)
    (h : ∀ a t, s.Passes source t → Q a t → Q' a t) : Spans source Q' p s :=
  fun hs => (hp hs).mono (fun a t ⟨hst, hQ⟩ => ⟨hst, h a t hst hQ⟩) fun _ _ hbad => hbad

theorem spans_map {p : Parse β} {f : β → α} (hp : Spans source P p s)
    (h : ∀ b t, s.Passes source t → P b t → Q (f b) t) : Spans source Q (f <$> p) s := by
  rw [map_eq_pure_bind]
  exact spans_bind hp fun b t hst hb => spans_pure fun _ => h b t hst hb

/-- A reader that is chosen by looking at the state does there what the chosen one does. -/
theorem spans_of_eq {p q : Parse α} (h : Spans source Q q s) (heq : p s = q s) :
    Spans source Q p s := by
  intro hs
  have hends := h hs
  have hrun : p.run s = q.run s := heq
  unfold Ends at *
  rw [hrun]
  exact hends

/-- The state at which a reader begins may be taken to be in order. -/
theorem spans_of_aligned {p : Parse α} (h : s.Aligned source → Spans source Q p s) :
    Spans source Q p s :=
  fun hs => h hs hs

/-! ### Single steps -/

theorem spans_fail {cause : Cause} : Spans source Q (fail cause : Parse α) s :=
  fun hs => ⟨hs.passes, fault_here hs cause⟩

theorem spans_unexpected {expected : Expected} :
    Spans source Q (unexpected expected : Parse α) s :=
  fun hs => ⟨hs.passes, fault_here hs (.unexpected expected s.found)⟩

theorem spans_get_bind {f : State → Parse α} (h : Spans source Q (f s) s) :
    Spans source Q (get >>= f) s :=
  h

theorem spans_peek_bind {f : Token → Parse α} (h : Spans source Q (f s.peek) s) :
    Spans source Q (peek >>= f) s :=
  h

theorem spans_kind_bind {f : TokenKind → Parse α} (h : Spans source Q (f s.kind) s) :
    Spans source Q (kind >>= f) s :=
  h

theorem spans_here_bind {f : Span → Parse α} (h : Spans source Q (f s.here) s) :
    Spans source Q (here >>= f) s :=
  h

theorem spans_spanFrom_bind {start : Span} {f : Span → Parse α}
    (h : Spans source Q (f (s.spanFrom start)) s) : Spans source Q (spanFrom start >>= f) s :=
  h

theorem spans_advance_bind {f : Token → Parse α}
    (h : s.Passes source s.next → Spans source Q (f s.peek) s.next) :
    Spans source Q (advance >>= f) s := by
  intro hs
  rw [ends_advance_bind]
  exact spans_from hs.next (h hs.next)

theorem spans_node_bind {span : Span} {f : Node → Parse α}
    (h : ∀ id t, s.Passes source t → t.reach = s.reach → Spans source Q (f ⟨id, span⟩) t) :
    Spans source Q (node span >>= f) s := by
  intro hs
  have hst : s.Passes source { s with nextId := s.nextId + 1 } :=
    hs.passes.congr rfl rfl rfl rfl
  have hends := spans_from hst (h s.nextId _ hst rfl)
  exact hends

theorem spans_eat_bind {kind : TokenKind} {f : Bool → Parse α}
    (htaken : s.kind = kind → s.Passes source s.next → Spans source Q (f true) s.next)
    (hleft : s.kind ≠ kind → Spans source Q (f false) s) : Spans source Q (eat kind >>= f) s := by
  intro hs
  rw [ends_eat_bind]
  split
  next hkind => exact spans_from hs.next (htaken hkind hs.next)
  next hkind => exact hleft hkind hs

theorem spans_expect_bind {kind : TokenKind} {expected : Expected} {f : Token → Parse α}
    (h : s.kind = kind → s.Passes source s.next → Spans source Q (f s.peek) s.next) :
    Spans source Q (expect kind expected >>= f) s := by
  unfold expect
  rw [bind_assoc]
  apply spans_get_bind
  split
  next hkind => exact spans_advance_bind fun hnext => h hkind hnext
  next => exact spans_bind (P := fun _ _ => False) spans_unexpected fun _ _ _ hfalse => hfalse.elim

theorem spans_expect {kind : TokenKind} {expected : Expected} :
    Spans source (fun _ _ => True) (expect kind expected) s := by
  rw [← bind_pure (expect kind expected)]
  exact spans_expect_bind fun _ _ => spans_pure fun _ => trivial

theorem spans_eat_if {kind : TokenKind} {p q : Parse α}
    (hp : s.kind = kind → s.Passes source s.next → Spans source Q p s.next)
    (hq : s.kind ≠ kind → Spans source Q q s) :
    Spans source Q (eat kind >>= fun taken => if taken = true then p else q) s :=
  spans_eat_bind hp hq

theorem spans_expectIdentifier_bind {expected : Expected} {f : String → Parse α}
    (h : s.kind = .identifier → s.Passes source s.next → Spans source Q (f s.peek.lexeme) s.next) :
    Spans source Q (expectIdentifier expected >>= f) s := by
  unfold expectIdentifier
  rw [bind_assoc]
  exact spans_expect_bind h

/-! ### Readers made from readers -/

theorem spans_withHead {inHead : Bool} {p : Parse α} (h : Spans source Q p { s with inHead })
    (hQ : ∀ a t, Q a t → Q a { t with inHead := s.inHead }) :
    Spans source Q (withHead inHead p) s := by
  intro hs
  have hst : s.Passes source { s with inHead } := hs.passes.congr rfl rfl rfl rfl
  rw [ends_withHead]
  refine (spans_from hst h).mono ?_ ?_
  · exact fun a t ⟨hst, ha⟩ => ⟨hst.congr rfl rfl rfl rfl, hQ a t ha⟩
  · exact fun e t ⟨hst, he⟩ => ⟨hst.congr rfl rfl rfl rfl, he.after, he.earlier, he.here⟩

theorem spans_attempt_bind {p : Parse β} {f : Except Problem β → Parse α}
    (hp : Spans source P p s)
    (hok : ∀ b t, s.Passes source t → P b t → Spans source Q (f (.ok b)) t)
    (herror : ∀ e t, s.Passes source t → Fault source e t → Spans source Q (f (.error e)) t) :
    Spans source Q (attempt p >>= f) s :=
  fun hs => ends_attempt_bind (hp hs) (fun b t ⟨hst, hb⟩ => spans_from hst (hok b t hst hb))
    fun e t ⟨hst, he⟩ => spans_from hst (herror e t hst he)

/-- A loop keeps the order and what each of its turns does. -/
theorem spans_iterate {J : β → State → Prop} {turn : β → Parse (Turn β α)}
    (hturn : ∀ b t, s.Passes source t → J b t → Spans source (TurnEnds J Q) (turn b) t) {b : β}
    (hb : J b s) : Spans source Q (iterate turn b) s := by
  intro hs
  refine ends_iterate_of (J := fun b t => s.Passes source t ∧ J b t) ?_ ?_ b ⟨hs.passes, hb⟩
  · rintro b t ⟨hst, hb⟩
    refine (spans_from hst (hturn b t hst hb)).mono (fun r u hu => ?_) fun _ _ hbad => hbad
    cases r with
    | again b => exact hu
    | done a => exact hu
  · rintro b t ⟨hst, -⟩
    exact ⟨hst, fault_here hst.aligned .iterationLimit⟩

/-- The items of a list, each of which stays as it is when the reading goes on. -/
theorem spans_commaSeparated {close : TokenKind} {item : Parse β}
    (hkeep : ∀ b t u, t.Passes source u → P b t → P b u)
    (hitem : ∀ t, s.Passes source t → Spans source P item t) :
    Spans source (fun items t => ∀ b ∈ items, P b t) (commaSeparated close item) s := by
  unfold commaSeparated
  refine spans_iterate (J := fun items t => ∀ b ∈ items, P b t) (fun items t hst hitems => ?_)
    (List.forall_mem_nil _)
  apply spans_get_bind
  split
  · exact spans_pure fun _ => hitems
  · apply spans_bind (hitem t hst)
    intro b u htu hb
    have hadd : ∀ b' ∈ items ++ [b], P b' u := List.forall_mem_append.2
      ⟨fun b' hb' => hkeep b' t u htu (hitems b' hb'), List.forall_mem_singleton.2 hb⟩
    apply spans_eat_if
    · exact fun _ hnext => spans_pure fun _ b' hb' => hkeep b' u u.next hnext (hadd b' hb')
    · exact fun _ => spans_pure fun _ => hadd

end Parse

/-! ## Readers of parts -/

/-- The part is written from the next token of the first state on and has been taken with the
second. -/
structure State.Brings (source : Source) (s t : State) (part : TreePart) : Prop where
  taken : s.here.stop ≤ t.reach
  lies : Lies source s.here.start t.reach part

theorem State.Brings.of_passes {s t u : State} {part : TreePart} (h : s.Brings source t part)
    (htu : t.Passes source u) : s.Brings source u part :=
  ⟨h.taken.trans htu.reach_le, h.lies.mono (Nat.le_refl _) htu.reach_le⟩

theorem State.Brings.advances {s t : State} {part : TreePart} (h : s.Brings source t part)
    (hs : s.Aligned source) (hst : s.Passes source t) : s.Advances source t :=
  ⟨hst, hs, h.taken⟩

theorem State.Brings.of_reach {s t u : State} {part : TreePart} (h : s.Brings source t part)
    (hreach : u.reach = t.reach) : s.Brings source u part :=
  ⟨hreach ▸ h.taken, hreach ▸ h.lies⟩

/-- A part behind tokens that are no part of it. -/
theorem State.Brings.of_advances {s t u : State} {part : TreePart} (h : t.Brings source u part)
    (hst : s.Advances source t) : s.Brings source u part where
  taken := (hst.taken.trans hst.aligned.reach_le).trans
    (hst.aligned.here_on.start_le.trans h.taken)
  lies := h.lies.mono hst.here_le (Nat.le_refl _)

/-- A part from the token at which it began to the token taken last. -/
theorem State.Advances.brings {s t : State} {part : TreePart} (h : s.Advances source t)
    (heq : part.span? = some (t.spanFrom s.here)) (hparams : ∀ p ∈ part.params, p.span.On source)
    (hannotations : ∀ a ∈ part.annotations, a.On source) (hordered : part.Ordered)
    (hchildren : ∀ child ∈ part.children, Lies source s.here.start t.reach child) :
    s.Brings source t part := by
  refine ⟨h.taken, lies_of heq h.spanFrom_on ?_ ?_ hparams hannotations hordered ?_⟩
  · rw [State.start_spanFrom]
  · rw [h.stop_spanFrom]
  · rwa [h.stop_spanFrom, State.start_spanFrom]

theorem State.Advances.expr {s t : State} {e : Expr} (h : s.Advances source t)
    (heq : e.span = t.spanFrom s.here)
    (hchildren : ∀ child ∈ e.children, Lies source s.here.start t.reach child) :
    s.Brings source t (.expr e) :=
  h.brings (congrArg some heq) (List.forall_mem_nil _) (List.forall_mem_nil _)
    (List.forall_mem_nil _) hchildren

namespace Parse

variable {α β : Type} {s : State} {Q : α → State → Prop} {P : β → State → Prop}

/-- Wherever `p` begins, it keeps the order and brings a part. -/
abbrev Places (source : Source) (part : α → TreePart) (p : Parse α) : Prop :=
  ∀ s, Spans source (fun a t => s.Brings source t (part a)) p s

theorem places_withHead {part : α → TreePart} {inHead : Bool} {p : Parse α}
    (h : Places source part p) : Places source part (withHead inHead p) := by
  intro s
  refine spans_withHead (spans_mono (h { s with inHead }) fun a t _ ha => ?_) fun a t ha => ?_
  · exact ⟨ha.taken, ha.lies⟩
  · exact ⟨ha.taken, ha.lies⟩

/-- One of two readers by a condition that is known behind it. -/
theorem spans_cases_bind {c : Prop} [Decidable c] {p q : Parse β} {f : β → Parse α}
    (hp : c → Spans source P p s) (hq : ¬ c → Spans source P q s)
    (hf : ∀ b t, s.Passes source t → P b t → Spans source Q (f b) t) :
    Spans source Q (if c then p >>= f else q >>= f) s := by
  split
  next h => exact spans_bind (hp h) hf
  next h => exact spans_bind (hq h) hf

/-- One of two readers by whether a token stands here, which is taken then. -/
theorem spans_eat_cases_bind {kind : TokenKind} {p q : Parse β} {f : β → Parse α}
    (hp : s.kind = kind → s.Passes source s.next → Spans source P p s.next)
    (hq : s.kind ≠ kind → Spans source P q s)
    (hf : ∀ b t, s.Passes source t → P b t → Spans source Q (f b) t) :
    Spans source Q (eat kind >>= fun taken => if taken = true then p >>= f else q >>= f) s :=
  spans_eat_bind
    (fun hkind hnext => spans_bind (hp hkind hnext) fun b t hst => hf b t (hnext.trans hst))
    fun hkind => spans_bind (hq hkind) hf

/-- A part that may be left out. -/
theorem spans_some {part : β → TreePart} {p : Parse β}
    (h : Spans source (fun b t => s.Brings source t (part b)) p s) (hlo : lo ≤ s.here.start) :
    Spans source (fun o t => ∀ b ∈ o, Lies source lo t.reach (part b)) (some <$> p) s := by
  refine spans_map h fun b t _ hb b' hb' => ?_
  obtain rfl := Option.some.inj hb'
  exact hb.lies.mono hlo (Nat.le_refl _)

theorem spans_none {part : β → TreePart} :
    Spans source (fun o t => ∀ b ∈ o, Lies source lo t.reach (part b)) (pure none) s :=
  spans_pure fun _ => nofun

end Parse

/-! ## Recovery -/

variable {s : State}

theorem spans_synchronize_bind {α : Type} {Q : α → State → Prop} {f : Unit → Parse α}
    (h : ∀ t, s.Passes source t → Spans source Q (f ()) t) :
    Spans source Q (synchronize >>= f) s := by
  intro hs
  rw [ends_bind]
  have hdropped : Gives (fun _ t => s.Passes source t) synchronize s :=
    gives_synchronize_of hs.passes fun t hst => hst.trans hst.aligned.next
  exact Ends.mono hdropped (fun _ t hst => spans_from hst (h t hst)) fun _ _ hfalse => hfalse.elim

/-- A placeholder is empty and at the place where its problem was found. -/
theorem lies_placeholder {e : Problem} (hs : s.Aligned source) (he : Fault source e s) :
    Lies source s.here.start s.here.start
      (.stmt (.error ⟨s.here.start, s.here.start, e.line, e.column⟩ e.message)) where
  sited := by
    refine everywhere_iff.2 ⟨⟨?_, List.forall_mem_nil _, List.forall_mem_nil _⟩,
      List.forall_mem_nil _⟩
    rintro kept (⟨⟨⟩⟩ | ⟨p, hp, -⟩ | ⟨a, ha, -⟩)
    · by_cases hcause : e.cause = .invalidTarget
      · right
        refine ⟨?_, rfl, hs.here_on.start_le_length, he.earlier⟩
        rw [Problem.message, hcause]
        rfl
      · left
        obtain ⟨hline, hcolumn⟩ := he.here hcause
        rw [hline, hcolumn]
        exact hs.here_on.collapse
    · cases hp
    · cases ha
  nests := fun _ _ => List.forall_mem_nil _
  within := by
    rintro _ ⟨⟩
    exact ⟨Nat.le_refl _, Nat.le_refl _⟩

theorem spans_recover {problem : Problem} (he : Fault source problem s) :
    Spans source (fun stmt t => Lies source s.here.start t.here.start (.stmt stmt))
      (recover problem) s := by
  intro hs
  have hreport := hs.report he
  unfold recover
  rw [ends_here_bind, ends_modify_bind]
  refine spans_from hreport (spans_synchronize_bind fun t hst => spans_pure fun _ => ?_)
  exact (lies_placeholder hs he).mono (Nat.le_refl _) hst.here_le

/-- A statement, or the placeholder for it, which is no further than the token that is next then. -/
theorem spans_recovering {statement : Parse Stmt} (h : Places source .stmt statement) :
    Spans source (fun stmt t => Lies source s.here.start t.here.start (.stmt stmt))
      (recovering statement) s := by
  unfold recovering
  apply spans_attempt_bind (h s)
  · exact fun stmt t _ hstmt => spans_pure fun ht => hstmt.lies.mono (Nat.le_refl _) ht.reach_le
  · intro problem t hst he
    exact spans_mono (spans_recover he) fun stmt u _ hstmt =>
      hstmt.mono hst.here_le (Nat.le_refl _)

theorem spans_ensureProgress {before : Nat} :
    Spans source (fun _ _ => True) (ensureProgress before) s := by
  intro hs
  unfold ensureProgress
  rw [ends_modify_bind, ends_get_bind]
  set counted : State :=
    { s with iterations := s.iterations + 1, turns := before :: s.turns } with hcounted
  have hst : s.Passes source counted := hs.passes.congr rfl rfl rfl rfl
  split
  · have hreport := hst.aligned.report (fault_here hst.aligned .iterationLimit)
    exact ⟨(hst.trans hreport).trans hreport.aligned.drop, trivial⟩
  · split
    · exact ⟨hst.trans hst.aligned.next, trivial⟩
    · exact ⟨hst, trivial⟩

end ComponentLang.Grammar
