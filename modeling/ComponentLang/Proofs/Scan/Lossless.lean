import ComponentLang.Proofs.Scan.Pieces
import ComponentLang.Proofs.Scan.Reached

/-!
# Tokens account for the source

The tokens of a scan follow each other in the source without overlap, most of them have the text
of their place, and what stands between them is blanks, comments and marks of styles. So no unit
of a source is lost or read twice, also where a source could not be read.
-/
namespace ComponentLang

namespace Source

/-- The units `start`, …, `stop - 1`. -/
def slice (s : Source) (start stop : Nat) : Source := (s.drop start).take (stop - start)

theorem slice_add (s : Source) (start width : Nat) :
    s.slice start (start + width) = (s.drop start).take width := by
  rw [slice, Nat.add_sub_cancel_left]

end Source

namespace Token

/-- The text of a token is that of its place, apart from the mark in front, if its kind says so. -/
def Verbatim (s : Source) (t : Token) : Prop :=
  t.kind.isVerbatim = true →
    t.kind.sigil ++ t.lexeme.toList = Source.chars (s.slice t.span.start t.span.stop)

/-- The unit `i` is a part of the token. -/
def Covers (t : Token) (i : Nat) : Prop := t.span.start ≤ i ∧ i < t.span.stop

instance (t : Token) (i : Nat) : Decidable (t.Covers i) := inferInstanceAs (Decidable (_ ∧ _))

/-- No unit of the token is one of `start`, …, `stop - 1`. -/
def Misses (t : Token) (start stop : Nat) : Prop := t.span.stop ≤ start ∨ stop ≤ t.span.start

end Token

namespace Scan

/-- The unit `i` stands between tokens, as a part of something that is no token. -/
def Between (s : Source) (tokens : List Token) (stop i : Nat) : Prop :=
  ∃ first last, first ≤ i ∧ i < last ∧ last ≤ stop ∧ Skipped (s.drop first) (last - first) ∧
    ∀ t ∈ tokens, t.Misses first last

/-- Tokens, newest first, account for the units of `s` up to a place. -/
structure Accounts (s : Source) (cursor : Cursor) (tokens : List Token) : Prop where
  pos_le : cursor.pos ≤ s.length
  rest_eq : cursor.rest = s.drop cursor.pos
  ordered : tokens.Pairwise fun t u => u.span.stop ≤ t.span.start
  spans : ∀ t ∈ tokens, t.span.start ≤ t.span.stop ∧ t.span.stop ≤ cursor.pos
  verbatim : ∀ t ∈ tokens, t.Verbatim s
  units : ∀ i < cursor.pos, (∃ t ∈ tokens, t.Covers i) ∨ Between s tokens cursor.pos i

theorem accounts_start (s : Source) : Accounts s (.start s) [] where
  pos_le := Nat.zero_le _
  rest_eq := rfl
  ordered := .nil
  spans := by simp
  verbatim := by simp
  units := fun i hi => absurd hi (Nat.not_lt_zero i)

variable {config : ScanConfig} {s : Source} {cursor : Cursor} {tokens : List Token}

theorem Accounts.pos_advance (h : Accounts s cursor tokens) {width : Nat}
    (hwidth : width ≤ cursor.rest.length) :
    (cursor.advance width).pos = cursor.pos + width ∧ cursor.pos + width ≤ s.length := by
  have hlength := congrArg List.length h.rest_eq
  rw [List.length_drop] at hlength
  have hle := h.pos_le
  rw [Cursor.pos_advance, Nat.min_eq_left hwidth]
  exact ⟨rfl, by omega⟩

/-- What stands between tokens does so still when further units are accounted for. -/
theorem Between.mono {stop stop' i : Nat} (h : Between s tokens stop i) (hstop : stop ≤ stop')
    (more : List Token) (hmore : ∀ t ∈ more, stop ≤ t.span.start) :
    Between s (more ++ tokens) stop' i := by
  obtain ⟨first, last, hfirst, hlast, hle, hskipped, hmiss⟩ := h
  refine ⟨first, last, hfirst, hlast, Nat.le_trans hle hstop, hskipped, fun t ht => ?_⟩
  rcases List.mem_append.mp ht with ht | ht
  · exact .inr (Nat.le_trans hle (hmore t ht))
  · exact hmiss t ht

/-- Units that belong to no token are passed over. -/
theorem Accounts.skip (h : Accounts s cursor tokens) {width : Nat}
    (hwidth : width ≤ cursor.rest.length) (hskipped : Skipped cursor.rest width) :
    Accounts s (cursor.advance width) tokens := by
  obtain ⟨hpos, hle⟩ := h.pos_advance hwidth
  refine ⟨?_, ?_, h.ordered, ?_, h.verbatim, ?_⟩
  · rw [hpos]
    exact hle
  · rw [Cursor.rest_advance, hpos, h.rest_eq, List.drop_drop]
  · intro t ht
    have hspan := h.spans t ht
    rw [hpos]
    exact ⟨hspan.1, by omega⟩
  · intro i hi
    rw [hpos] at hi ⊢
    by_cases hold : i < cursor.pos
    · rcases h.units i hold with hcovers | hbetween
      · exact .inl hcovers
      · exact .inr (hbetween.mono (Nat.le_add_right _ _) [] (by simp))
    · refine .inr ⟨cursor.pos, cursor.pos + width, by omega, hi, Nat.le_refl _, ?_, ?_⟩
      · rw [← h.rest_eq, Nat.add_sub_cancel_left]
        exact hskipped
      · exact fun t ht => .inl (h.spans t ht).2

/-- The units of a new token are passed over. -/
theorem Accounts.emit (h : Accounts s cursor tokens) {width : Nat}
    (hwidth : width ≤ cursor.rest.length) {t : Token}
    (hspan : t.span = cursor.spanTo (cursor.advance width))
    (hverbatim : t.kind.isVerbatim = true →
      t.kind.sigil ++ t.lexeme.toList = Source.chars (cursor.rest.take width)) :
    Accounts s (cursor.advance width) (t :: tokens) := by
  obtain ⟨hpos, hle⟩ := h.pos_advance hwidth
  have hstart : t.span.start = cursor.pos := by rw [hspan]; rfl
  have hstop : t.span.stop = cursor.pos + width := by rw [hspan, ← hpos]; rfl
  refine ⟨?_, ?_, ?_, ?_, ?_, ?_⟩
  · rw [hpos]
    exact hle
  · rw [Cursor.rest_advance, hpos, h.rest_eq, List.drop_drop]
  · refine List.pairwise_cons.mpr ⟨fun u hu => ?_, h.ordered⟩
    rw [hstart]
    exact (h.spans u hu).2
  · rw [hpos]
    refine List.forall_mem_cons.mpr ⟨by omega, fun u hu => ?_⟩
    have hspans := h.spans u hu
    omega
  · refine List.forall_mem_cons.mpr ⟨fun hkind => ?_, h.verbatim⟩
    rw [hverbatim hkind, hstart, hstop, Source.slice_add, ← h.rest_eq]
  · intro i hi
    rw [hpos] at hi ⊢
    by_cases hold : i < cursor.pos
    · rcases h.units i hold with ⟨u, hu, hcovers⟩ | hbetween
      · exact .inl ⟨u, List.mem_cons_of_mem _ hu, hcovers⟩
      · refine .inr (hbetween.mono (Nat.le_add_right _ _) [t] ?_)
        simp [hstart]
    · exact .inl ⟨t, List.mem_cons_self, by omega, by omega⟩

/-- A token without width may stand anywhere. -/
theorem Accounts.emit_here (h : Accounts s cursor tokens) {t : Token}
    (hspan : t.span = cursor.spanTo cursor) (hkind : t.kind.isVerbatim = true → t.kind.sigil = [])
    (hlexeme : t.lexeme = "") : Accounts s cursor (t :: tokens) := by
  refine h.emit (Nat.zero_le _) hspan fun hverbatim => ?_
  rw [hkind hverbatim, hlexeme]
  rfl

theorem Accounts.place {st : State} (h : Accounts s st.cursor st.emitted) {piece : Piece}
    (hpiece : piece.Fits st.cursor.rest) :
    Accounts s (st.place config piece).cursor (st.place config piece).emitted := by
  cases piece with
  | skip width => exact h.skip hpiece.1 hpiece.2
  | token kind width lexeme => exact h.emit hpiece.1 rfl hpiece.2
  | error problem width lexeme =>
      have herror : Accounts s (st.cursor.advance width)
          (.ofError problem lexeme (st.cursor.spanTo (st.cursor.advance width)) :: st.emitted) :=
        h.emit hpiece.1 rfl fun hkind => by cases hkind
      unfold State.place
      dsimp only [Piece.width]
      split
      · exact herror.emit_here rfl (fun hkind => by cases hkind) rfl
      · exact herror

theorem Accounts.placeAll {st : State} (h : Accounts s st.cursor st.emitted)
    {pieces : List Piece} (hpieces : Piece.FitAll st.cursor.rest pieces) :
    Accounts s (st.placeAll config pieces).cursor (st.placeAll config pieces).emitted := by
  induction pieces generalizing st with
  | nil => exact h
  | cons piece rest ih =>
      obtain ⟨hpiece, hrest⟩ := hpieces
      apply ih (h.place hpiece)
      rw [State.cursor_place, Cursor.rest_advance]
      exact hrest

/-- At every state the tokens made so far account for the source up to the cursor. -/
theorem Reached.accounts {st : State} (h : Reached config s st) :
    Accounts s st.cursor st.emitted := by
  induction h with
  | start => exact accounts_start s
  | @step st _ _ ih =>
      rw [State.step_eq]
      exact ih.placeAll (fits_read ..)

/-! ## Where a scan ends -/

/-- More errors than the configuration allows are on record. -/
def Capped (config : ScanConfig) (tokens : List Token) : Prop :=
  ∃ t ∈ tokens, ∃ count, t.problem = some (.tooManyErrors count) ∧ config.maxErrors < count

theorem capped_cons {t : Token} (h : Capped config tokens) : Capped config (t :: tokens) := by
  obtain ⟨u, hu, hproblem⟩ := h
  exact ⟨u, List.mem_cons_of_mem _ hu, hproblem⟩

theorem capped_place {st : State} (h : st.halted = true → Capped config st.emitted)
    (piece : Piece) (hhalted : (st.place config piece).halted = true) :
    Capped config (st.place config piece).emitted := by
  cases piece with
  | skip width => exact h hhalted
  | token kind width lexeme => exact capped_cons (h hhalted)
  | error problem width lexeme =>
      unfold State.place at hhalted ⊢
      dsimp only at hhalted ⊢
      split
      · rename_i hcap
        exact ⟨_, List.mem_cons_self, st.errors + 1, rfl, hcap⟩
      · rename_i hcap
        rw [if_neg hcap] at hhalted
        exact capped_cons (h hhalted)

theorem capped_placeAll {st : State} (h : st.halted = true → Capped config st.emitted)
    (pieces : List Piece) (hhalted : (st.placeAll config pieces).halted = true) :
    Capped config (st.placeAll config pieces).emitted := by
  induction pieces generalizing st with
  | nil => exact h hhalted
  | cons piece rest ih => exact ih (capped_place h piece) hhalted

/-- Only the cap on errors halts a scan. -/
theorem Reached.capped {st : State} (h : Reached config s st) (hhalted : st.halted = true) :
    Capped config st.emitted := by
  induction h with
  | start => cases hhalted
  | @step st _ _ ih =>
      rw [State.step_eq] at hhalted ⊢
      exact capped_placeAll ih _ hhalted

/-- What it means that no unit of `s` is lost or read twice. -/
structure Lossless (config : ScanConfig) (s : Source) (scanned : Scanned) : Prop where
  /-- A token ends before the next begins. -/
  ordered : scanned.tokens.Pairwise fun t u => t.span.stop ≤ u.span.start
  spans : ∀ t ∈ scanned.tokens, t.span.start ≤ t.span.stop
  /-- The last token has no width and stands where the scan ended: at the end of the source, if the
  cap on errors did not end it before. -/
  ending : ∃ tokens eof st, scanned.tokens = tokens ++ [eof] ∧ eof.kind = .eof ∧
    Reached config s st ∧ st.finished = true ∧ scanned = .ofState st ∧
    eof.span.start = st.cursor.pos ∧ eof.span.stop = st.cursor.pos ∧
    (st.cursor.pos = s.length ∨ Capped config tokens)
  /-- A unit before the last token is in a token or in something that is no token. -/
  units : ∀ eof, scanned.tokens.getLast? = some eof → ∀ i < eof.span.start,
    (∃ t ∈ scanned.tokens, t.Covers i) ∨ Between s scanned.tokens eof.span.start i
  verbatim : ∀ t ∈ scanned.tokens, t.Verbatim s

/-- The tokens of every scan that has a result account for the whole source up to where the scan
ended. -/
theorem scan_lossless (config : ScanConfig) (s : Source) (scanned : Scanned)
    (h : scan config s = some scanned) : Lossless config s scanned := by
  obtain ⟨st, hreached, hfinished, rfl⟩ := exists_reached_of_scan h
  have hend : Accounts s st.cursor
      (.ofKind .eof "" (st.cursor.spanTo st.cursor) :: st.emitted) :=
    hreached.accounts.emit_here rfl (fun _ => rfl) rfl
  have htokens : (Scanned.ofState st).tokens =
      st.emitted.reverse ++ [.ofKind .eof "" (st.cursor.spanTo st.cursor)] := List.reverse_cons
  have hmem : ∀ t, t ∈ (Scanned.ofState st).tokens ↔
      t ∈ Token.ofKind .eof "" (st.cursor.spanTo st.cursor) :: st.emitted := fun t =>
    List.mem_reverse
  refine ⟨List.pairwise_reverse.mpr hend.ordered, ?_, ?_, ?_, ?_⟩
  · exact fun t ht => (hend.spans t ((hmem t).mp ht)).1
  · refine ⟨_, _, st, htokens, rfl, hreached, hfinished, rfl, rfl, rfl, ?_⟩
    simp only [State.finished, Bool.or_eq_true, List.isEmpty_iff] at hfinished
    rcases hfinished with hhalted | hrest
    · obtain ⟨t, ht, hproblem⟩ := hreached.capped hhalted
      exact .inr ⟨t, List.mem_reverse.mpr ht, hproblem⟩
    · refine .inl (Nat.le_antisymm hend.pos_le ?_)
      rw [hend.rest_eq] at hrest
      exact List.drop_eq_nil_iff.mp hrest
  · intro eof heof i hi
    rw [htokens, List.getLast?_concat] at heof
    obtain rfl := Option.some.inj heof
    rcases hend.units i hi with ⟨t, ht, hcovers⟩ | hbetween
    · exact .inl ⟨t, (hmem t).mpr ht, hcovers⟩
    · obtain ⟨first, last, hfirst, hlast, hle, hskipped, hmiss⟩ := hbetween
      right
      refine ⟨first, last, hfirst, hlast, hle, hskipped, ?_⟩
      intro t ht
      exact hmiss t ((hmem t).mp ht)
  · exact fun t ht => hend.verbatim t ((hmem t).mp ht)

/-- A tag with a comment, and a style that has a byte of no character. -/
def damagedTag : Source :=
  Source.ofString "<a /**/ style:b" ++ [.invalid 0xff] ++ Source.ofString "/>"

theorem scan_lossless_damagedTag :
    ∃ scanned, scan {} damagedTag = some scanned ∧
      scanned.tokens.map Token.kind = [.tagOpen, .styleProperty, .tagSelfClose, .eof] ∧
      Lossless {} damagedTag scanned := by
  obtain ⟨scanned, hscan⟩ := Option.isSome_iff_exists.mp
    (show (scan {} damagedTag).isSome = true by decide)
  have hkinds : scanned.tokens.map Token.kind =
      [.tagOpen, .styleProperty, .tagSelfClose, .eof] := by
    have hsome := congrArg (Option.map fun r => r.tokens.map Token.kind) hscan
    exact (Option.some.inj hsome).symm.trans (by decide)
  exact ⟨scanned, hscan, hkinds, scan_lossless {} damagedTag scanned hscan⟩

end Scan

end ComponentLang
