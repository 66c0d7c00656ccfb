import ComponentLang.Proofs.Scan.Lossless
import ComponentLang.Proofs.Scan.Mistakes
import ComponentLang.Proofs.Scan.Progress
import Mathlib.Data.List.Chain

/-!
# Words of text

The content of a tag is cut into words of text. A word has no blanks in it, and between two words
that follow each other directly in the list of tokens there are only blanks: whatever else stands
in the content is a token of its own. So while the scan goes on after a word it is in the content
still, and has passed over blanks alone.
-/
namespace ComponentLang.Scan
open Source (frontIs run upTo)

/-- Nothing but blanks that separate tokens. -/
def Blanks (s : Source) : Prop := ∀ u ∈ s, u.satisfies isSpacing = true

/-- The token is its place in the source, in which there are no blanks. -/
structure IsWord (s : Source) (t : Token) : Prop where
  start_lt : t.span.start < t.span.stop
  lexeme_eq : t.lexeme = Source.text (s.slice t.span.start t.span.stop)
  solid : ∀ u ∈ s.slice t.span.start t.span.stop, ∃ c, u = .char c ∧ isSpacing c = false

/-- Tokens, newest first, of which the words of text are words of the source, with blanks alone
between two that are neighbours. -/
structure Worded (s : Source) (tokens : List Token) : Prop where
  words : ∀ t ∈ tokens, t.kind = .text → IsWord s t
  apart : tokens.IsChain fun newer older => newer.kind = .text → older.kind = .text →
    Blanks (s.slice older.span.stop newer.span.start)

/-- The newest token is no word of text. -/
def Shut (tokens : List Token) : Prop := ∀ t ∈ tokens.head?, t.kind ≠ .text

variable {config : ScanConfig} {s : Source} {tokens : List Token} {st : State}

theorem Worded.cons_other (h : Worded s tokens) {t : Token} (ht : t.kind ≠ .text) :
    Worded s (t :: tokens) where
  words := List.forall_mem_cons.2 ⟨fun htext => absurd htext ht, h.words⟩
  apart := by
    rw [List.isChain_cons]
    exact ⟨fun _ _ htext => absurd htext ht, h.apart⟩

theorem shut_cons {t : Token} (ht : t.kind ≠ .text) : Shut (t :: tokens) := by
  rintro u ⟨⟩
  exact ht

/-! ## What a reading makes -/

/-- A piece that is no word of text. -/
def Piece.IsOther : Piece → Prop
  | .token kind _ _ => kind ≠ .text
  | .skip _ | .error .. => True

/-- A piece that leaves a token behind. -/
def Piece.Marks : Piece → Prop
  | .skip _ => False
  | .token .. | .error .. => True

def Reading.Textless (r : Reading) : Prop := ∀ piece ∈ r.pieces, piece.IsOther

theorem textless_skip (width : Nat) : (Reading.skip width).Textless :=
  List.forall_mem_singleton.2 trivial

theorem textless_token {kind : TokenKind} (h : kind ≠ .text) (width : Nat) (lexeme : String)
    (change : ModeChange) : Reading.Textless ⟨[.token kind width lexeme], change⟩ :=
  List.forall_mem_singleton.2 h

theorem textless_error (problem : ScanError) (width : Nat) (lexeme : String) :
    (Reading.error problem width lexeme).Textless :=
  List.forall_mem_singleton.2 trivial

theorem isOther_of_mem_recovery {rest : Source} {piece : Piece} (h : piece ∈ recovery rest) :
    piece.IsOther := by
  rcases recovers_recovery rest with hnil | ⟨width, lexeme, hpieces⟩
  · rw [hnil] at h
    cases h
  · rw [hpieces, List.mem_singleton] at h
    subst h
    exact fun hkind => by cases hkind

theorem textless_rejectUnit (problem : ScanError) (u : SourceUnit) (rest : Source) :
    (rejectUnit problem u rest).Textless :=
  List.forall_mem_cons.2 ⟨trivial, fun _ => isOther_of_mem_recovery⟩

theorem textless_of_readShared? {c : Char} {rest : Source} {r : Reading}
    (h : readShared? config s c rest = some r) : r.Textless := by
  unfold readShared? at h
  split at h
  · obtain rfl := Option.some.inj h
    exact textless_skip 1
  split at h
  · obtain ⟨width, -, rfl⟩ := Option.map_eq_some_iff.1 h
    exact textless_skip width
  split at h
  · obtain rfl := Option.some.inj h
    unfold readString
    dsimp only
    split
    · split
      · exact textless_token (by decide) _ _ _
      · exact textless_error _ _ _
    · exact textless_error _ _ _
  split at h
  · obtain rfl := Option.some.inj h
    unfold readNumber
    split
    · exact textless_error _ _ _
    · split
      · exact textless_error _ _ _
      · exact textless_token (fun hkind => by cases hkind) _ _ _
  split at h
  · obtain rfl := Option.some.inj h
    exact textless_token (by decide) _ _ _
  split at h
  · obtain rfl := Option.some.inj h
    unfold readModifier
    split
    · exact textless_token (by decide) _ _ _
    · exact List.forall_mem_cons.2 ⟨trivial, fun _ => isOther_of_mem_recovery⟩
  · cases h

theorem wordKind_ne_text (name : String) (rest : Source) : wordKind config name rest ≠ .text := by
  unfold wordKind
  dsimp only
  repeat' split
  all_goals exact fun hkind => by cases hkind

theorem textless_readCode (mode : Mode) (afterOperand : Bool) (c : Char) (rest : Source) :
    (readCode config mode afterOperand s c rest).Textless := by
  unfold readCode
  split
  · rename_i r hr
    exact textless_of_readShared? hr
  split
  · exact textless_token (by decide) _ _ _
  split
  · exact textless_token (by decide) _ _ _
  split
  · exact textless_token (by split <;> decide) _ _ _
  split
  · rename_i kind width hmark
    have hkinds : ∀ kind ∈ markKinds, kind ≠ .text := by decide
    exact textless_token (hkinds kind (mem_markKinds hmark)) _ _ _
  split
  · exact textless_token (wordKind_ne_text _ _) _ _ _
  · exact textless_rejectUnit _ _ _

theorem textless_readAttribute (c : Char) (rest : Source) :
    (readAttribute config s c rest).Textless := by
  unfold readAttribute
  split
  · rename_i r hr
    exact textless_of_readShared? hr
  split
  · exact textless_token (by decide) _ _ _
  split
  · exact textless_token (by decide) _ _ _
  split
  · exact textless_token (by decide) _ _ _
  split
  · exact textless_token (by decide) _ _ _
  split
  · unfold readAttributeName
    dsimp only
    split
    · exact textless_skip _
    · exact textless_token (by decide) _ _ _
  · exact textless_rejectUnit _ _ _

theorem textless_readStyle : (readStyle s).Textless := by
  refine List.forall_mem_cons.2 ⟨trivial, List.forall_mem_singleton.2 ?_⟩
  unfold stylePiece
  dsimp only
  split
  · split
    · split
      · trivial
      · exact fun hkind => by cases hkind
    · exact fun hkind => by cases hkind
  · exact fun hkind => by cases hkind

/-- Words of text are read in the content of a tag only. -/
theorem textless_read {mode : Mode} (hmode : mode ≠ .tagContent) (afterOperand : Bool) :
    (read config mode afterOperand s).Textless := by
  unfold read
  split
  · exact List.forall_mem_nil _
  · exact textless_rejectUnit _ _ _
  · cases mode with
    | normal => exact textless_readCode _ _ _ _
    | expression => exact textless_readCode _ _ _ _
    | tagAttribute => exact textless_readAttribute _ _
    | tagContent => exact absurd rfl hmode
    | styleValue => exact textless_readStyle

/-- What may be read in the content of a tag: a blank, a word, or something that leaves a token
and no word. -/
inductive ContentReading (s : Source) : Reading → Prop
  | blank {c : Char} {rest : Source} : s = .char c :: rest → isSpacing c = true →
      ContentReading s (.skip 1)
  | word {width : Nat} : width ≤ s.length →
      (∀ u ∈ s.take width, ∃ c, u = .char c ∧ isSpacing c = false) →
      ContentReading s (.verbatim .text width s)
  | other {first : Piece} {more : List Piece} {change : ModeChange} : first.Marks →
      Reading.Textless ⟨first :: more, change⟩ → ContentReading s ⟨first :: more, change⟩

theorem isSpacing_of_isTextChar {c : Char} (h : isTextChar c = true) : isSpacing c = false := by
  rw [Bool.eq_false_iff]
  intro hspacing
  simp only [isSpacing, Bool.or_eq_true, beq_iff_eq] at hspacing
  rcases hspacing with ((rfl | rfl) | rfl) | rfl <;> exact absurd h (by decide)

theorem contentReading_readContent (c : Char) (rest : Source) :
    ContentReading (.char c :: rest) (readContent (.char c :: rest) c rest) := by
  unfold readContent
  split
  · rename_i hspacing
    exact .blank rfl hspacing
  rename_i hspacing
  split
  · split
    · unfold readTagClose
      extract_lets nameLength name afterName blanks width
      split
      · exact .other trivial (textless_token (by decide) _ _ _)
      · refine .other trivial (List.forall_mem_cons.2 ⟨?_, List.forall_mem_singleton.2 trivial⟩)
        exact fun hkind => by cases hkind
    · split
      · exact .other trivial (textless_token (by decide) _ _ _)
      · refine .word (by simp) fun u hu => ?_
        obtain rfl := List.mem_singleton.1 hu
        exact ⟨c, rfl, by simpa using hspacing⟩
  split
  · exact .other trivial (textless_token (by decide) _ _ _)
  split
  · exact .other trivial (textless_rejectUnit _ _ _)
  · refine .word (Source.run_le _ _) fun u hu => ?_
    have htext := Source.satisfies_of_mem_take_run hu
    cases u with
    | char d => exact ⟨d, rfl, isSpacing_of_isTextChar htext⟩
    | invalid b => cases htext

theorem contentReading_read (afterOperand : Bool) (hs : s ≠ []) :
    ContentReading s (read config .tagContent afterOperand s) := by
  cases s with
  | nil => exact absurd rfl hs
  | cons u rest =>
      cases u with
      | invalid b => exact .other trivial (textless_rejectUnit _ _ _)
      | char c => exact contentReading_readContent c rest

/-! ## Steps -/

/-- A token that is no word shuts off the words before it. -/
theorem Worded.place (config : ScanConfig) (h : Worded s st.emitted) {piece : Piece} (hother : piece.IsOther)
    (hshut : Shut st.emitted ∨ piece.Marks) :
    Worded s (st.place config piece).emitted ∧ Shut (st.place config piece).emitted := by
  cases piece with
  | skip width => exact ⟨h, hshut.resolve_right id⟩
  | token kind width lexeme => exact ⟨h.cons_other hother, shut_cons hother⟩
  | error problem width lexeme =>
      have herror (p : ScanError) (lexeme : String) (span : Span) :
          (Token.ofError p lexeme span).kind ≠ .text := fun hkind => by cases hkind
      unfold State.place
      dsimp only
      split
      · exact ⟨(h.cons_other (herror _ _ _)).cons_other (herror _ _ _), shut_cons (herror _ _ _)⟩
      · exact ⟨h.cons_other (herror _ _ _), shut_cons (herror _ _ _)⟩

theorem Worded.placeAll (config : ScanConfig) (h : Worded s st.emitted) (hshut : Shut st.emitted) {pieces : List Piece}
    (hothers : ∀ piece ∈ pieces, piece.IsOther) :
    Worded s (st.placeAll config pieces).emitted ∧ Shut (st.placeAll config pieces).emitted := by
  induction pieces generalizing st with
  | nil => exact ⟨h, hshut⟩
  | cons piece more ih =>
      obtain ⟨hpiece, hmore⟩ := List.forall_mem_cons.1 hothers
      obtain ⟨hplaced, hshut⟩ := h.place config hpiece (.inl hshut)
      exact ih hplaced hshut hmore

/-- As long as the newest token is a word, the scan is in the content of a tag and has passed over
nothing but blanks. -/
structure Flowing (s : Source) (st : State) : Prop where
  worded : Worded s st.emitted
  within : ∀ t ∈ st.emitted.head?, t.kind = .text →
    st.modes.top = .tagContent ∧ Blanks (s.slice t.span.stop st.cursor.pos)

theorem flowing_of_shut (h : Worded s st.emitted) (hshut : Shut st.emitted) : Flowing s st :=
  ⟨h, fun t ht htext => absurd htext (hshut t ht)⟩

theorem Flowing.blank (config : ScanConfig) {c : Char} {rest : Source} (h : Flowing s st)
    (haccounts : Accounts s st.cursor st.emitted) (hrest : st.cursor.rest = .char c :: rest)
    (hspacing : isSpacing c = true) :
    Flowing s { st.place config (.skip 1) with modes := st.modes } := by
  obtain ⟨hpos, hle⟩ := haccounts.pos_advance (show 1 ≤ st.cursor.rest.length by simp [hrest])
  refine ⟨h.worded, fun t ht htext => ⟨(h.within t ht htext).1, ?_⟩⟩
  have hstop : t.span.stop ≤ st.cursor.pos :=
    (haccounts.spans t (List.mem_of_mem_head? ht)).2
  have hslice : s.slice t.span.stop (st.cursor.pos + 1) =
      s.slice t.span.stop st.cursor.pos ++ [.char c] := by
    have hwidth : st.cursor.pos + 1 - t.span.stop = (st.cursor.pos - t.span.stop) + 1 := by omega
    have hdrop : (s.drop t.span.stop).drop (st.cursor.pos - t.span.stop) = .char c :: rest := by
      rw [List.drop_drop, Nat.add_sub_cancel' hstop, ← haccounts.rest_eq, hrest]
    rw [Source.slice, Source.slice, hwidth, List.take_add, hdrop]
    rfl
  show Blanks (s.slice t.span.stop (st.cursor.advance 1).pos)
  rw [hpos, hslice]
  intro u hu
  rcases List.mem_append.1 hu with hu | hu
  · exact (h.within t ht htext).2 u hu
  · obtain rfl := List.mem_singleton.1 hu
    exact hspacing

/-- A word that takes a unit is one more word. -/
theorem Flowing.word (config : ScanConfig) {width : Nat} (h : Flowing s st)
    (haccounts : Accounts s st.cursor st.emitted) (hmode : st.modes.top = .tagContent)
    (hpos : 0 < width) (hwidth : width ≤ st.cursor.rest.length)
    (hsolid : ∀ u ∈ st.cursor.rest.take width, ∃ c, u = .char c ∧ isSpacing c = false) :
    Flowing s { st.place config (.token .text width (Source.text (st.cursor.rest.take width))) with
      modes := st.modes } := by
  obtain ⟨hstop, -⟩ := haccounts.pos_advance hwidth
  set word : Token := .ofKind .text (Source.text (st.cursor.rest.take width))
    (st.cursor.spanTo (st.cursor.advance width)) with hword
  have hslice : s.slice word.span.start word.span.stop = st.cursor.rest.take width := by
    have hspan : word.span.stop = word.span.start + width := hstop
    rw [hspan, Source.slice_add, haccounts.rest_eq]
    rfl
  have hisWord : IsWord s word := by
    refine ⟨?_, ?_, ?_⟩
    · show st.cursor.pos < (st.cursor.advance width).pos
      omega
    · rw [hslice]
      rfl
    · rw [hslice]
      exact hsolid
  refine ⟨⟨List.forall_mem_cons.2 ⟨fun _ => hisWord, h.worded.words⟩, ?_⟩, ?_⟩
  · refine List.isChain_cons.2 ⟨fun older holder _ htext => ?_, h.worded.apart⟩
    exact (h.within older holder htext).2
  · rintro t ⟨⟩ -
    refine ⟨hmode, fun u hu => ?_⟩
    simp [Source.slice, Cursor.spanTo, Token.ofKind] at hu

theorem Flowing.step (hreached : Reached config s st) (h : Flowing s st)
    (hfinished : st.finished = false) (hstalled : st.stalled = false) :
    Flowing s (st.step config) := by
  have haccounts := hreached.accounts
  rw [State.step_eq]
  by_cases hmode : st.modes.top = .tagContent
  · obtain ⟨u, rest, hrest⟩ := State.exists_rest_of_unfinished hfinished
    have hcontent : ContentReading st.cursor.rest (st.reading config) := by
      unfold State.reading
      rw [hmode]
      exact contentReading_read _ (by simp [hrest])
    have hwidth := width_reading_pos config hfinished hstalled (by simp [hmode])
    cases hreading : st.reading config with
    | mk pieces change =>
        rw [hreading] at hcontent hwidth
        cases hcontent with
        | blank hrest hspacing => exact h.blank config haccounts hrest hspacing
        | word hle hsolid => exact h.word config haccounts hmode hwidth hle hsolid
        | @other first more change hmarks htextless =>
            obtain ⟨hfirst, hmore⟩ := List.forall_mem_cons.1 htextless
            obtain ⟨hplaced, hshut⟩ := h.worded.place config hfirst (.inr hmarks)
            obtain ⟨hall, hshut⟩ := hplaced.placeAll config hshut hmore
            exact flowing_of_shut hall hshut
  · have hshut : Shut st.emitted := fun t ht htext => hmode (h.within t ht htext).1
    obtain ⟨hall, hshut⟩ := h.worded.placeAll config hshut (textless_read hmode _)
    exact flowing_of_shut hall hshut

/-! ## Runs -/

/-- A scan with a result stood still nowhere. -/
theorem Flowing.run {n : Nat} {final : State} (hreached : Reached config s st) (h : Flowing s st)
    (hrun : State.run config n st = some final) : Flowing s final := by
  induction n generalizing st with
  | zero =>
      unfold State.run at hrun
      split at hrun
      · obtain rfl := Option.some.inj hrun
        exact h
      · cases hrun
  | succ n ih =>
      cases hfinished : st.finished with
      | true =>
          rw [State.run, if_pos hfinished] at hrun
          obtain rfl := Option.some.inj hrun
          exact h
      | false =>
          have hstalled : st.stalled = false := by
            rw [Bool.eq_false_iff]
            intro hstalled
            rw [run_of_stalled (n + 1) hstalled hfinished] at hrun
            cases hrun
          rw [State.run, if_neg (by simp [hfinished])] at hrun
          exact ih (hreached.step hfinished) (h.step hreached hfinished hstalled) hrun

/-- What a scan gives are words of text as they stand, in the order of the source. -/
theorem worded_of_scan {scanned : Scanned} (h : scan config s = some scanned) :
    Worded s scanned.tokens.reverse := by
  obtain ⟨st, hrun, rfl⟩ := Option.map_eq_some_iff.1 h
  have hstart : Flowing s (.start s) :=
    ⟨⟨List.forall_mem_nil _, List.isChain_nil⟩, by simp [State.start]⟩
  have hworded := (hstart.run .start hrun).worded
  rw [Scanned.ofState, List.reverse_reverse]
  exact hworded.cons_other fun hkind => by cases hkind

/-- The tokens of a scan follow each other, and all of them are in the source. -/
theorem ordered_of_scan {scanned : Scanned} (h : scan config s = some scanned) :
    scanned.tokens.Pairwise (fun t u => t.span.stop ≤ u.span.start) ∧
      ∀ t ∈ scanned.tokens, t.span.stop ≤ s.length := by
  obtain ⟨st, hreached, -, rfl⟩ := exists_reached_of_scan h
  have haccounts : Accounts s st.cursor
      (.ofKind .eof "" (st.cursor.spanTo st.cursor) :: st.emitted) :=
    hreached.accounts.emit_here rfl (fun _ => rfl) rfl
  refine ⟨List.pairwise_reverse.2 haccounts.ordered, fun t ht => ?_⟩
  exact (haccounts.spans t (List.mem_reverse.1 ht)).2.trans haccounts.pos_le

/-! ## Recovery without a mistake -/

def HasError (tokens : List Token) : Prop := ∃ t ∈ tokens, t.kind = .error

/-- Nothing was passed over before there was a mistake. -/
def Excused (tokens : List Token) : Prop := HasError tokens ∨ ∀ t ∈ tokens, t.kind ≠ .errorRecovery

theorem HasError.place (h : HasError st.emitted) (piece : Piece) :
    HasError (st.place config piece).emitted := by
  obtain ⟨t, ht, hkind⟩ := h
  refine ⟨t, ?_, hkind⟩
  cases piece with
  | skip width => exact ht
  | token kind width lexeme => exact List.mem_cons_of_mem _ ht
  | error problem width lexeme =>
      unfold State.place
      dsimp only
      split
      · exact List.mem_cons_of_mem _ (List.mem_cons_of_mem _ ht)
      · exact List.mem_cons_of_mem _ ht

theorem HasError.placeAll (h : HasError st.emitted) (pieces : List Piece) :
    HasError (st.placeAll config pieces).emitted := by
  induction pieces generalizing st with
  | nil => exact h
  | cons piece more ih => exact ih (h.place piece)

theorem hasError_place (problem : ScanError) (width : Nat) (lexeme : String) :
    HasError (st.place config (.error problem width lexeme)).emitted := by
  unfold State.place
  dsimp only
  split
  · exact ⟨_, List.mem_cons_self, rfl⟩
  · exact ⟨_, List.mem_cons_self, rfl⟩

theorem Excused.place (h : Excused st.emitted) {piece : Piece} (hsound : piece.IsSound) :
    Excused (st.place config piece).emitted := by
  rcases h with h | h
  · exact .inl (h.place piece)
  cases piece with
  | skip width => exact .inr h
  | token kind width lexeme =>
      refine .inr (List.forall_mem_cons.2 ⟨fun hkind => ?_, h⟩)
      have hkind : kind = .errorRecovery := hkind
      subst hkind
      cases hsound
  | error problem width lexeme => exact hsound.elim

theorem Excused.placeAll (h : Excused st.emitted) {pieces : List Piece}
    (hsound : ∀ piece ∈ pieces, piece.IsSound) :
    Excused (st.placeAll config pieces).emitted := by
  induction pieces generalizing st with
  | nil => exact h
  | cons piece more ih =>
      obtain ⟨hpiece, hmore⟩ := List.forall_mem_cons.1 hsound
      exact ih (h.place hpiece) hmore

theorem Reached.excused (h : Reached config s st) : Excused st.emitted := by
  induction h with
  | start => exact .inr (List.forall_mem_nil _)
  | @step st _ _ ih =>
      rw [State.emitted_step]
      have hone := oneMistake_read config st.modes.top st.afterOperand st.cursor.rest
      change OneMistake (st.reading config).pieces at hone
      generalize (st.reading config).pieces = pieces at hone
      cases hone with
      | none hsound => exact ih.placeAll hsound
      | one sound problem width lexeme hsound _ =>
          left
          rw [State.placeAll, List.foldl_append]
          exact (hasError_place problem width lexeme).placeAll _

/-- Without a mistake nothing is passed over. -/
theorem isError_of_scan {scanned : Scanned} (h : scan config s = some scanned)
    (hsound : ∀ t ∈ scanned.tokens, t.kind ≠ .error) :
    ∀ t ∈ scanned.tokens, t.kind.isError = false := by
  obtain ⟨st, hreached, -, rfl⟩ := exists_reached_of_scan h
  have hmem (t : Token) : t ∈ (Scanned.ofState st).tokens ↔
      t = .ofKind .eof "" (st.cursor.spanTo st.cursor) ∨ t ∈ st.emitted := by
    rw [Scanned.ofState, List.mem_reverse, List.mem_cons]
  simp only [hmem] at hsound ⊢
  rintro t (rfl | ht)
  · rfl
  · rcases hreached.excused with ⟨e, he, hkind⟩ | hpassed
    · exact absurd hkind (hsound e (.inr he))
    · have herror := hsound t (.inr ht)
      have hrecovery := hpassed t ht
      cases hkind : t.kind with
      | error => exact absurd hkind herror
      | errorRecovery => exact absurd hkind hrecovery
      | _ => rfl

end ComponentLang.Scan
