import ComponentLang.Proofs.Grammar.Abreast.Program

/-!
# The first end of the input

A list of tokens may go on behind its first end of the input. A state has what is before that end
apart from what is behind it, and tells of the tokens what a cursor in the whole list does: the kind
of the token after the next may be that of one behind the end. No reader asks for it there, so what
is behind the first end makes no difference to what is read.
-/
namespace ComponentLang.Grammar

open Parse

/-! ## Cursors -/

/-- A place in a list of tokens. -/
structure Cursor where
  tokens : List Token
  position : Nat

namespace Cursor

/-- The tokens without errors, with an end of the input behind them if it is not their last. -/
def start (tokens : List Token) : Cursor :=
  let valid := tokens.filter fun t => !t.kind.isError
  if valid.getLast?.map Token.kind = some .eof then ⟨valid, 0⟩
  else ⟨valid ++ [.ofKind .eof "" ((valid.getLast?.map Token.span).getD .zero)], 0⟩

/-- The token so many places further on, or else the last. -/
def peekAt (c : Cursor) (offset : Nat) : Token :=
  (c.tokens[c.position + offset]?.or c.tokens.getLast?).getD (.ofKind .eof "" .zero)

def atEnd (c : Cursor) : Bool :=
  decide (c.tokens.length ≤ c.position) || (c.peekAt 0).kind == .eof

def next (c : Cursor) : Cursor := if c.atEnd then c else { c with position := c.position + 1 }

/-- From `start` to the end of the token before the cursor. -/
def spanFrom (c : Cursor) (start : Span) : Span :=
  match c.position with
  | 0 => start
  | before + 1 => (c.tokens[before]?.map fun t => start.through t.span).getD start

end Cursor

namespace State

/-- The state is that of a cursor before the first end of the input, or at it. The list may have
been given a last end. -/
structure Views (s : State) (c : Cursor) (before : List Token) (final : Token)
    (given : List Token) : Prop where
  tokens : c.tokens = before ++ (s.rest ++ final :: (s.behind ++ given))
  position : c.position = before.length
  goesOn : ∀ t ∈ s.rest, t.kind ≠ .eof
  ends : final.kind = .eof
  given : ∀ t ∈ given, t.kind = .eof
  stop : s.stop = final.span
  previous : s.previous = before.getLast?.map Token.span

variable {s : State} {c : Cursor} {before given : List Token} {final : Token}

namespace Views

theorem getElem? (h : s.Views c before final given) (offset : Nat) :
    c.tokens[c.position + offset]? = (s.rest ++ final :: (s.behind ++ given))[offset]? := by
  rw [h.tokens, h.position, List.getElem?_append_right (Nat.le_add_right _ _), Nat.add_sub_cancel_left]

/-- The next token of the cursor is the next one that is to come, or the end. -/
theorem peekAt_zero (h : s.Views c before final given) : c.peekAt 0 = s.rest.headD final := by
  unfold Cursor.peekAt
  rw [h.getElem?]
  cases s.rest <;> rfl

theorem kind_eq (h : s.Views c before final given) : s.kind = (c.peekAt 0).kind := by
  rw [h.peekAt_zero]
  unfold kind peek
  cases s.rest with
  | nil => exact h.ends.symm
  | cons t rest => rfl

theorem here_eq (h : s.Views c before final given) : s.here = (c.peekAt 0).span := by
  rw [h.peekAt_zero]
  unfold here peek
  cases s.rest with
  | nil => exact h.stop
  | cons t rest => rfl

theorem atEnd_eq (h : s.Views c before final given) : s.atEnd = c.atEnd := by
  have hwithin : ¬ c.tokens.length ≤ c.position := by
    rw [h.tokens, h.position, List.length_append, List.length_append, List.length_cons]
    omega
  unfold Cursor.atEnd atEnd
  rw [h.peekAt_zero, decide_eq_false hwithin, Bool.false_or]
  cases hrest : s.rest with
  | nil => simp [h.ends]
  | cons t rest =>
      have ht : t.kind ≠ .eof := h.goesOn t (by simp [hrest])
      simp [ht]

theorem spanFrom_eq (h : s.Views c before final given) (start : Span) :
    s.spanFrom start = c.spanFrom start := by
  unfold spanFrom Cursor.spanFrom
  rw [h.previous, h.position, h.tokens]
  obtain rfl | ⟨before, last, rfl⟩ := List.eq_nil_or_concat before
  · rfl
  · simp

theorem peek_eq (h : s.Views c before final given) (hgoes : s.kind ≠ .eof) : s.peek = c.peekAt 0 := by
  rw [h.peekAt_zero]
  unfold kind peek at *
  cases hrest : s.rest with
  | nil =>
      rw [hrest] at hgoes
      exact absurd rfl hgoes
  | cons t rest => rfl

/-- The kind of the token after the next, which may stand behind the end. -/
theorem secondKind_eq (h : s.Views c before final given) : s.secondKind = (c.peekAt 1).kind := by
  unfold Cursor.peekAt secondKind
  rw [h.getElem?]
  cases hrest : s.rest with
  | nil =>
      cases hbehind : s.behind with
      | nil =>
          cases hgiven : given with
          | nil =>
              have hlast : c.tokens.getLast? = some final := by
                rw [h.tokens, hrest, hbehind, hgiven]
                simp
              simp [hlast, h.ends]
          | cons e more => simp [h.given e (by simp [hgiven])]
      | cons t behind => simp
  | cons t rest =>
      cases rest with
      | nil => exact h.ends.symm
      | cons second rest => rfl

/-- The state after the next token is that of the cursor behind it, unless this is the end. -/
theorem exists_next (h : s.Views c before final given) :
    ∃ before', s.next.Views c.next before' final given := by
  unfold Cursor.next
  rw [← h.atEnd_eq]
  unfold next atEnd
  cases hrest : s.rest with
  | nil => exact ⟨before, h⟩
  | cons t rest =>
      refine ⟨before ++ [t], ?_, ?_, ?_, h.ends, h.given, h.stop, ?_⟩
      · show c.tokens = _
        rw [h.tokens, hrest, List.append_assoc]
        rfl
      · show c.position + 1 = _
        rw [h.position, List.length_append, List.length_singleton]
      · intro other hother
        exact h.goesOn other (hrest ▸ List.mem_cons_of_mem t hother)
      · rw [List.getLast?_concat]
        rfl

end Views

end State

/-! ## Lists that go on -/

variable {pre : List Token} {e : Token}

theorem filter_ended (he : e.kind = .eof) (suf : List Token) :
    (pre ++ e :: suf).filter (fun t => !t.kind.isError) =
      pre.filter (fun t => !t.kind.isError) ++ e :: suf.filter fun t => !t.kind.isError := by
  rw [List.filter_append, List.filter_cons_of_pos (by rw [he]; rfl)]

/-- A list with an end of the input is read up to the first, and what is behind that is behind. -/
theorem start_ended (hpre : ∀ t ∈ pre, t.kind ≠ .eof) (he : e.kind = .eof) (suf : List Token) :
    (State.start (pre ++ e :: suf)).rest = pre.filter (fun t => !t.kind.isError) ∧
      (State.start (pre ++ e :: suf)).stop = e.span ∧
      (State.start (pre ++ e :: suf)).behind = suf.filter fun t => !t.kind.isError := by
  have hrest : (State.start (pre ++ e :: suf)).rest = pre.filter (fun t => !t.kind.isError) := by
    show ((pre ++ e :: suf).filter _).takeWhile _ = _
    rw [filter_ended he, List.takeWhile_append_of_pos, List.takeWhile_cons_of_neg (by rw [he]; decide),
      List.append_nil]
    intro t ht
    simpa using hpre t (List.mem_filter.1 ht).1
  have hdrop : ((pre ++ e :: suf).filter (fun t => !t.kind.isError)).drop
      (State.start (pre ++ e :: suf)).rest.length = e :: suf.filter fun t => !t.kind.isError := by
    rw [hrest, filter_ended he, List.drop_left]
  refine ⟨hrest, ?_, ?_⟩
  · unfold State.start at hdrop ⊢
    dsimp only at hdrop ⊢
    rw [hdrop]
  · show ((pre ++ e :: suf).filter _).drop ((State.start (pre ++ e :: suf)).rest.length + 1) = _
    rw [← List.drop_drop, hdrop]
    rfl

/-- A list without an end of the input is read up to its end, which is where its last token is. -/
theorem start_unended (hpre : ∀ t ∈ pre, t.kind ≠ .eof) :
    (State.start pre).rest = pre.filter (fun t => !t.kind.isError) ∧
      (State.start pre).stop = ((State.start pre).rest.getLast?.map Token.span).getD .zero ∧
      (State.start pre).behind = [] := by
  have hrest : (State.start pre).rest = pre.filter (fun t => !t.kind.isError) := by
    show (pre.filter _).takeWhile _ = _
    rw [← List.append_nil (pre.filter _), List.takeWhile_append_of_pos, List.takeWhile_nil]
    intro t ht
    simpa using hpre t (List.mem_filter.1 ht).1
  have hdrop : (pre.filter (fun t => !t.kind.isError)).drop (State.start pre).rest.length = [] := by
    rw [hrest, List.drop_length]
  refine ⟨hrest, ?_, ?_⟩
  · unfold State.start at hdrop ⊢
    dsimp only at hdrop ⊢
    rw [hdrop]
  · show (pre.filter _).drop ((State.start pre).rest.length + 1) = _
    rw [← List.drop_drop, hdrop]
    rfl

/-- Reading begins at a cursor in front of the whole list. -/
theorem exists_views_start (tokens : List Token) :
    ∃ final given, (State.start tokens).Views (.start tokens) [] final given := by
  have hsound : ∀ {pre : List Token}, (∀ t ∈ pre, t.kind ≠ .eof) →
      ∀ t ∈ pre.filter (fun t => !t.kind.isError), t.kind ≠ .eof :=
    fun hpre t ht => hpre t (List.mem_filter.1 ht).1
  cases hfind : tokens.find? fun t => t.kind == .eof with
  | none =>
      have hnone : ∀ t ∈ tokens, t.kind ≠ .eof := by simpa using hfind
      obtain ⟨hrest, hstop, hbehind⟩ := start_unended hnone
      have hlast : ((tokens.filter fun t => !t.kind.isError).getLast?.map Token.kind) ≠ some .eof := by
        intro hlast
        obtain ⟨t, ht, hkind⟩ := Option.map_eq_some_iff.1 hlast
        exact hsound hnone t (List.mem_of_getLast? ht) hkind
      refine ⟨.ofKind .eof "" (State.start tokens).stop, [], ?_, ?_, ?_, rfl, List.forall_mem_nil _,
        rfl, rfl⟩
      · unfold Cursor.start
        rw [if_neg hlast, hstop, hrest, hbehind]
        rfl
      · unfold Cursor.start
        rw [if_neg hlast]
        rfl
      · rw [hrest]
        exact hsound hnone
  | some e =>
      obtain ⟨he, pre, suf, rfl, hpre⟩ := List.find?_eq_some_iff_append.1 hfind
      have he : e.kind = .eof := by simpa using he
      have hpre : ∀ t ∈ pre, t.kind ≠ .eof := by simpa using hpre
      obtain ⟨hrest, hstop, hbehind⟩ := start_ended hpre he suf
      obtain ⟨given, hgiven, hadded⟩ : ∃ given : List Token, (∀ t ∈ given, t.kind = .eof) ∧
          Cursor.start (pre ++ e :: suf) =
            ⟨(pre ++ e :: suf).filter (fun t => !t.kind.isError) ++ given, 0⟩ := by
        unfold Cursor.start
        dsimp only
        split
        · exact ⟨[], List.forall_mem_nil _, by rw [List.append_nil]⟩
        · exact ⟨_, List.forall_mem_singleton.2 rfl, rfl⟩
      refine ⟨e, given, ?_, ?_, ?_, he, hgiven, hstop, rfl⟩
      · rw [hadded, filter_ended he, hrest, hbehind, List.append_assoc]
        rfl
      · rw [hadded]
        rfl
      · rw [hrest]
        exact hsound hpre

theorem exists_views_iterate (tokens : List Token) (taken : Nat) :
    ∃ before final given, (State.next^[taken] (.start tokens)).Views
      (Cursor.next^[taken] (.start tokens)) before final given := by
  induction taken with
  | zero => exact ⟨[], exists_views_start tokens⟩
  | succ taken ih =>
      obtain ⟨before, final, given, h⟩ := ih
      obtain ⟨before', hnext⟩ := h.exists_next
      rw [Function.iterate_succ_apply', Function.iterate_succ_apply']
      exact ⟨before', final, given, hnext⟩

/-- However many tokens are taken from a list, the state tells of the next ones what the cursor does
that sees the whole list, at the first end of the input as well. -/
theorem next_iterate_eq_cursor (tokens : List Token) (taken : Nat) :
    let s := State.next^[taken] (.start tokens)
    let c := Cursor.next^[taken] (.start tokens)
    s.kind = (c.peekAt 0).kind ∧ s.secondKind = (c.peekAt 1).kind ∧ s.here = (c.peekAt 0).span ∧
      s.atEnd = c.atEnd ∧ (∀ start, s.spanFrom start = c.spanFrom start) ∧
      (s.kind ≠ .eof → s.peek = c.peekAt 0) := by
  intro s c
  obtain ⟨before, final, given, h⟩ := exists_views_iterate tokens taken
  exact ⟨h.kind_eq, h.secondKind_eq, h.here_eq, h.atEnd_eq, h.spanFrom_eq, h.peek_eq⟩

/-! ## Reading such lists -/

/-- Numbers that go on from zero are the numbers themselves. -/
theorem joined_zero (program : Program) : joined .empty 0 program = program := by
  have hshift : shift 0 = id := rfl
  simp [joined, hshift, Program.empty, funext Relabel.exportDecl_id, funext Relabel.function_id,
    funext Relabel.component_id, funext Relabel.stmt_id]

/-- What is behind the first end of the input makes no difference. -/
theorem parse_ended (hpre : ∀ t ∈ pre, t.kind ≠ .eof) (he : e.kind = .eof) (suf : List Token) :
    (parse (pre ++ [e] ++ suf)).program = (parse (pre ++ [e])).program ∧
      (parse (pre ++ [e] ++ suf)).diagnostics = (parse (pre ++ [e])).diagnostics := by
  rw [List.append_assoc, List.singleton_append]
  obtain ⟨hrest, hstop, -⟩ := start_ended hpre he suf
  obtain ⟨hrest', hstop', -⟩ := start_ended hpre he []
  have hreaches : Reaches .empty (.start (pre ++ e :: suf)) .empty (.start (pre ++ e :: suf)) :=
    .refl _ _
  by_cases hnil : (State.start (pre ++ [e])).rest = []
  · have hlonger : parse (pre ++ e :: suf) = ⟨.empty, []⟩ :=
      hreaches.parse_eq (hrest.trans (hrest'.symm.trans hnil))
    have hshorter : parse (pre ++ [e]) = ⟨.empty, []⟩ := Reaches.parse_eq (.refl _ _) hnil
    rw [hlonger, hshorter]
    exact ⟨rfl, rfl⟩
  · have hjoined := parse_of_reaches hreaches (hrest.trans hrest'.symm) hnil
      (hstop.trans hstop'.symm) rfl (State.paced_start _)
    exact ⟨hjoined.1.trans (joined_zero _), hjoined.2⟩

/-- What follows could be read as a declaration, and has an end of its own. -/
theorem parse_ended_damagedLet :
    (∀ t ∈ unfinishedCall, t.kind ≠ .eof) ∧
      (parse (unfinishedCall ++ [.ofKind .eof "" .zero] ++
          (damagedLet ++ [.ofKind .eof "" .zero]))).program =
        (parse (unfinishedCall ++ [.ofKind .eof "" .zero])).program ∧
      (parse (unfinishedCall ++ [.ofKind .eof "" .zero] ++
          (damagedLet ++ [.ofKind .eof "" .zero]))).diagnostics =
        (parse (unfinishedCall ++ [.ofKind .eof "" .zero])).diagnostics := by
  have hcall : ∀ t ∈ unfinishedCall, t.kind ≠ .eof := by decide
  exact ⟨hcall, parse_ended hcall rfl _⟩

end ComponentLang.Grammar
