import ComponentLang.Proofs.Scan.Lossless
import Mathlib.Data.Prod.Lex

/-!
# Lines and columns

The scan counts lines and columns on the way. What it counts is the place in the source: the line of
a unit is one more than the number of line feeds before it, and its column one more than the number
of units since the last of these. Later units have later places, so diagnostics come in the order of
the text.
-/
namespace ComponentLang

namespace Source

/-- The line of the unit `pos`, counted from one. -/
def line (s : Source) (pos : Nat) : Nat := (s.take pos).count (.char '\n') + 1

/-- The column of the unit `pos`, counted from one: the units before it back to a line feed. -/
def column (s : Source) (pos : Nat) : Nat :=
  ((s.take pos).reverse.takeWhile (· ≠ .char '\n')).length + 1

/-- Line and column, of which the line counts first. -/
def place (s : Source) (pos : Nat) : Nat ×ₗ Nat := toLex (s.line pos, s.column pos)

variable {s : Source} {pos : Nat} {u : SourceUnit}

theorem take_succ_of_get (h : s[pos]? = some u) : s.take (pos + 1) = s.take pos ++ [u] := by
  rw [List.take_add_one, h, Option.toList_some]

/-- The unit behind a line feed begins a line. -/
theorem place_after_newline (h : s[pos]? = some (.char '\n')) :
    s.line (pos + 1) = s.line pos + 1 ∧ s.column (pos + 1) = 1 := by
  unfold line column
  rw [take_succ_of_get h]
  simp

/-- The unit behind any other stands next to it. -/
theorem place_after_other (h : s[pos]? = some u) (hu : u ≠ .char '\n') :
    s.line (pos + 1) = s.line pos ∧ s.column (pos + 1) = s.column pos + 1 := by
  unfold line column
  rw [take_succ_of_get h]
  simp [hu]

theorem place_lt_succ (h : s[pos]? = some u) : s.place pos < s.place (pos + 1) := by
  unfold place
  rw [Prod.Lex.toLex_lt_toLex]
  by_cases hu : u = .char '\n'
  · subst hu
    have hnewline := (place_after_newline h).1
    left
    dsimp only
    omega
  · obtain ⟨hline, hcolumn⟩ := place_after_other h hu
    right
    dsimp only
    omega

/-- Places go along with positions. -/
theorem place_mono {later : Nat} (hle : pos ≤ later) (hlater : later ≤ s.length) :
    s.place pos ≤ s.place later := by
  induction later, hle using Nat.le_induction with
  | base => exact le_rfl
  | succ later _ ih =>
      have hunit := List.getElem?_eq_getElem (show later < s.length by omega)
      exact (ih (by omega)).trans (place_lt_succ hunit).le

end Source

/-- The line and column of a span are those of its first unit. -/
def Span.Placed (s : Source) (span : Span) : Prop :=
  span.line = s.line span.start ∧ span.column = s.column span.start

/-- The order of a diagnostic among others of a source. -/
def Diagnostic.place (d : Diagnostic) : Nat ×ₗ Nat := toLex (d.line, d.column)

namespace Scan

variable {config : ScanConfig} {s : Source}

/-! ## On the way -/

/-- Line and column of a cursor are those of the unit that it stands at. -/
structure Cursor.Placed (s : Source) (c : Cursor) : Prop where
  pos_le : c.pos ≤ s.length
  rest_eq : c.rest = s.drop c.pos
  line_eq : c.line = s.line c.pos
  column_eq : c.column = s.column c.pos

theorem Cursor.placed_start (s : Source) : (Cursor.start s).Placed s :=
  ⟨Nat.zero_le _, rfl, rfl, rfl⟩

variable {c : Cursor}

theorem Cursor.Placed.after (h : c.Placed s) {u : SourceUnit} {rest : Source}
    (hrest : c.rest = u :: rest) : (c.after u rest).Placed s := by
  have hdrop : s.drop c.pos = u :: rest := h.rest_eq ▸ hrest
  have hunit : s[c.pos]? = some u := by
    rw [← List.head?_drop, hdrop, List.head?_cons]
  have hless : c.pos < s.length := (List.getElem?_eq_some_iff.1 hunit).1
  have hlater : s.drop (c.pos + 1) = rest := by
    rw [← List.drop_drop, hdrop, List.drop_one, List.tail_cons]
  unfold Cursor.after
  split
  next hu =>
    subst hu
    obtain ⟨hline, hcolumn⟩ := Source.place_after_newline hunit
    exact ⟨hless, hlater.symm, by rw [hline, h.line_eq], hcolumn.symm⟩
  next hu =>
    obtain ⟨hline, hcolumn⟩ := Source.place_after_other hunit hu
    exact ⟨hless, hlater.symm, by rw [hline, h.line_eq], by rw [hcolumn, h.column_eq]⟩

theorem Cursor.Placed.advance (h : c.Placed s) (width : Nat) : (c.advance width).Placed s := by
  induction width generalizing c with
  | zero => exact h
  | succ width ih =>
      unfold Cursor.advance
      split
      · exact h
      · rename_i u rest hrest
        exact ih (h.after hrest)

/-- A span keeps the place where it begins, whatever stands in it. -/
theorem Cursor.Placed.spanTo (h : c.Placed s) (next : Cursor) : (c.spanTo next).Placed s :=
  ⟨h.line_eq, h.column_eq⟩

/-- The cursor and all tokens have their places. -/
structure State.Placed (s : Source) (st : State) : Prop where
  cursor : st.cursor.Placed s
  tokens : ∀ t ∈ st.emitted, t.span.Placed s

variable {st : State}

theorem State.placed_start (s : Source) : (State.start s).Placed s :=
  ⟨Cursor.placed_start s, List.forall_mem_nil _⟩

theorem State.Placed.place (h : st.Placed s) (piece : Piece) : (st.place config piece).Placed s := by
  have hnext := h.cursor.advance piece.width
  constructor
  · rw [State.cursor_place]
    exact hnext
  · cases piece with
    | skip width => exact h.tokens
    | token kind width lexeme => exact List.forall_mem_cons.2 ⟨h.cursor.spanTo _, h.tokens⟩
    | error problem width lexeme =>
        have herror : ∀ t ∈ Token.ofError problem lexeme
            (st.cursor.spanTo (st.cursor.advance width)) :: st.emitted, t.span.Placed s :=
          List.forall_mem_cons.2 ⟨h.cursor.spanTo _, h.tokens⟩
        unfold State.place
        dsimp only [Piece.width]
        split
        · exact List.forall_mem_cons.2 ⟨hnext.spanTo _, herror⟩
        · exact herror

theorem State.Placed.placeAll (h : st.Placed s) (pieces : List Piece) :
    (st.placeAll config pieces).Placed s := by
  induction pieces generalizing st with
  | nil => exact h
  | cons piece rest ih => exact ih (h.place piece)

theorem State.Placed.step (h : st.Placed s) : (st.step config).Placed s := by
  have hplaced : (st.placeAll config (st.reading config).pieces).Placed s := h.placeAll _
  rw [State.step_eq]
  exact ⟨hplaced.cursor, hplaced.tokens⟩

theorem Reached.placed (h : Reached config s st) : st.Placed s := by
  induction h with
  | start => exact State.placed_start s
  | step _ _ ih => exact ih.step

/-! ## At the end -/

/-- A diagnostic has the place of its token. -/
theorem place_of_diagnostic? {t : Token} {d : Diagnostic} (h : t.diagnostic? = some d)
    (ht : t.span.Placed s) : d.place = s.place t.span.start := by
  unfold Token.diagnostic? at h
  split at h
  · obtain rfl := Option.some.inj h
    exact congrArg toLex (Prod.ext ht.1 ht.2)
  · cases h

/-- Every token has the line and the column of the place where it begins, and so the diagnostics come
in the order of the text. -/
theorem scan_positions (config : ScanConfig) (s : Source) (scanned : Scanned)
    (h : scan config s = some scanned) :
    (∀ t ∈ scanned.tokens, t.span.line = s.line t.span.start ∧
      t.span.column = s.column t.span.start) ∧
    scanned.diagnostics.Pairwise fun d e => d.place ≤ e.place := by
  obtain ⟨st, hreached, -, rfl⟩ := exists_reached_of_scan h
  have hplaced := hreached.placed
  have haccounts : Accounts s st.cursor
      (.ofKind .eof "" (st.cursor.spanTo st.cursor) :: st.emitted) :=
    hreached.accounts.emit_here rfl (fun _ => rfl) rfl
  have htokens : ∀ t ∈ (Scanned.ofState st).tokens, t.span.Placed s := by
    intro t ht
    rcases List.mem_cons.1 (List.mem_reverse.1 ht) with rfl | ht
    · exact hplaced.cursor.spanTo st.cursor
    · exact hplaced.tokens t ht
  have hwithin : ∀ t ∈ (Scanned.ofState st).tokens,
      t.span.start ≤ t.span.stop ∧ t.span.stop ≤ st.cursor.pos :=
    fun t ht => haccounts.spans t (List.mem_reverse.1 ht)
  have hordered : (Scanned.ofState st).tokens.Pairwise fun t u => t.span.stop ≤ u.span.start :=
    List.pairwise_reverse.2 haccounts.ordered
  refine ⟨htokens, List.pairwise_filterMap.2 (hordered.imp_of_mem ?_)⟩
  intro t u ht hu hle d hd e he
  rw [place_of_diagnostic? hd (htokens t ht), place_of_diagnostic? he (htokens u hu)]
  exact Source.place_mono ((hwithin t ht).1.trans hle)
    ((hwithin u hu).1.trans ((hwithin u hu).2.trans haccounts.pos_le))

/-- A comment and a string go over line feeds, and a mark in the last line can begin no token. -/
def markBelow : Source := Source.ofString "/*\n*/ \"a\\\nb\" 1\n #"

theorem scan_positions_markBelow : ∃ scanned, scan {} markBelow = some scanned ∧
    scanned.tokens.map (fun t => (t.kind, t.span.line, t.span.column)) =
      [(.error, 2, 4), (.number .int, 3, 4), (.error, 4, 2), (.eof, 4, 3)] ∧
    (∀ t ∈ scanned.tokens, t.span.line = Source.line markBelow t.span.start ∧
      t.span.column = Source.column markBelow t.span.start) ∧
    scanned.diagnostics.Pairwise fun d e => d.place ≤ e.place := by
  have hplaces : (scan {} markBelow).map (fun r =>
      r.tokens.map fun t => (t.kind, t.span.line, t.span.column)) =
      some [(.error, 2, 4), (.number .int, 3, 4), (.error, 4, 2), (.eof, 4, 3)] := by
    decide +kernel
  obtain ⟨scanned, hscan, htokens⟩ := Option.map_eq_some_iff.1 hplaces
  exact ⟨scanned, hscan, htokens, scan_positions {} markBelow scanned hscan⟩

end Scan

end ComponentLang
