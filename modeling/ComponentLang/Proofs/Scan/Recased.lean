import ComponentLang.Proofs.Scan.Lossless
import ComponentLang.Proofs.Scan.Truncated
import ComponentLang.Proofs.Scan.Words

/-!
# Words in another case

If case is ignored and a source is scanned without mistakes, the letters of its words may be put
into another case. The scan then makes the same tokens at the same places, and only the texts of the
words are other texts: those that now stand there.
-/
namespace ComponentLang

/-- The token at the same place of the source `s'`: a word has the text that stands there. -/
def Token.recased (s' : Source) (t : Token) : Token :=
  if t.kind.isWord then { t with lexeme := Source.text (s'.slice t.span.start t.span.stop) } else t

/-- The second source is the first, but that letters of words among the tokens are in another
case. -/
structure Source.Recases (s : Source) (tokens : List Token) (s' : Source) : Prop where
  alike : Source.Alike s s'
  words : ∀ i, s'[i]? ≠ s[i]? → ∃ t ∈ tokens, t.kind.isWord = true ∧ t.Covers i

/-- Only units of the source need be looked at. -/
theorem Source.recases_of_lower {tokens : List Token} {s s' : Source}
    (hlower : s'.map SourceUnit.lower = s.map SourceUnit.lower)
    (hwords : ∀ i < s.length, s'[i]? ≠ s[i]? →
      ∃ t ∈ tokens, t.kind.isWord = true ∧ t.Covers i) : s.Recases tokens s' := by
  have halike := Source.alike_iff.2 hlower
  refine ⟨halike, fun i hne => hwords i (Nat.lt_of_not_le fun hle => hne ?_) hne⟩
  rw [List.getElem?_eq_none hle, List.getElem?_eq_none (halike.length_eq ▸ hle)]

namespace Token

variable {s' : Source} {t : Token}

theorem recased_of_not_isWord (h : t.kind.isWord = false) : t.recased s' = t := by
  unfold Token.recased
  rw [if_neg (by rw [h]; exact Bool.false_ne_true)]

theorem recased_of_isWord (h : t.kind.isWord = true) :
    t.recased s' = { t with lexeme := Source.text (s'.slice t.span.start t.span.stop) } := if_pos h

@[simp] theorem kind_recased (s' : Source) (t : Token) : (t.recased s').kind = t.kind := by
  unfold Token.recased
  split <;> rfl

end Token

namespace Scan

open Source

variable {config : ScanConfig} {s s' : Source}

/-! ## Places -/

/-- The same place in a source that is alike. -/
structure Cursor.Beside (c c' : Cursor) : Prop where
  alike : Alike c.rest c'.rest
  pos : c'.pos = c.pos
  line : c'.line = c.line
  column : c'.column = c.column

namespace Cursor.Beside

variable {c c' next next' : Cursor}

theorem start (h : Alike s s') : (Cursor.start s).Beside (.start s') := ⟨h, rfl, rfl, rfl⟩

theorem after (h : c.Beside c') {u u' : SourceUnit} {rest rest' : Source}
    (hu : u'.lower = u.lower) (hrest : Alike rest rest') :
    (c.after u rest).Beside (c'.after u' rest') := by
  have hline : u' = .char '\n' ↔ u = .char '\n' := by
    rw [← satisfies_single_iff, ← satisfies_single_iff, satisfies_of_alike (blind_single rfl) hu]
  unfold Cursor.after
  by_cases hu : u = .char '\n'
  · rw [if_pos hu, if_pos (hline.2 hu)]
    exact ⟨hrest, congrArg (· + 1) h.pos, congrArg (· + 1) h.line, rfl⟩
  · rw [if_neg hu, if_neg (mt hline.1 hu)]
    exact ⟨hrest, congrArg (· + 1) h.pos, h.line, congrArg (· + 1) h.column⟩

theorem advance (h : c.Beside c') (width : Nat) : (c.advance width).Beside (c'.advance width) := by
  induction width generalizing c c' with
  | zero => exact h
  | succ width ih =>
      have halike := h.alike
      unfold Cursor.advance
      generalize hrest : c.rest = rest at halike
      generalize hrest' : c'.rest = rest' at halike
      cases halike with
      | nil => exact h
      | cons hu hs => exact ih (h.after hu hs)

theorem spanTo (h : c.Beside c') (hnext : next.Beside next') :
    c'.spanTo next' = c.spanTo next := by
  unfold Cursor.spanTo
  rw [h.pos, h.line, h.column, hnext.pos]

end Cursor.Beside

/-! ## Steps -/

theorem OneMistake.sound {pieces : List Piece} (h : OneMistake pieces)
    (hmistakes : Piece.mistakes pieces = 0) : ∀ piece ∈ pieces, piece.IsSound := by
  cases h with
  | none hsound => exact hsound
  | one front problem width lexeme hsound hpassed =>
      rw [Piece.mistakes_append, Piece.mistakes] at hmistakes
      omega

namespace State

/-- The state at the same place of the scan of `s'`, a source that is alike. -/
structure Recased (s' : Source) (st st' : State) : Prop where
  cursor : st.cursor.Beside st'.cursor
  modes : st'.modes = st.modes
  emitted : st'.emitted = st.emitted.map (Token.recased s')
  errors : st'.errors = st.errors
  halted : st'.halted = st.halted

variable {st st' final : State} {pieces : List Piece} {n : Nat}

namespace Recased

theorem start (h : Alike s s') : Recased s' (.start s) (.start s') :=
  ⟨.start h, rfl, rfl, rfl, rfl⟩

theorem finished (h : Recased s' st st') : st'.finished = st.finished := by
  have hempty : st'.cursor.rest.isEmpty = st.cursor.rest.isEmpty := by
    have halike := h.cursor.alike
    generalize st.cursor.rest = rest at halike ⊢
    generalize st'.cursor.rest = rest' at halike ⊢
    cases halike with
    | nil => rfl
    | cons => rfl
  unfold State.finished
  rw [h.halted, hempty]

theorem afterOperand (h : Recased s' st st') : st'.afterOperand = st.afterOperand := by
  unfold State.afterOperand
  rw [h.emitted]
  cases st.emitted with
  | nil => rfl
  | cons t tokens =>
      show (t.recased s').kind.endsOperand = t.kind.endsOperand
      rw [Token.kind_recased]

theorem place (h : Recased s' st st') {piece : Piece} (hsound : piece.IsSound)
    (hwordless : piece.wordless = true) :
    Recased s' (st.place config piece) (st'.place config piece) := by
  cases piece with
  | skip width => exact ⟨h.cursor.advance width, h.modes, h.emitted, h.errors, h.halted⟩
  | token kind width lexeme =>
      refine ⟨h.cursor.advance width, h.modes, ?_, h.errors, h.halted⟩
      have hkind : kind.isWord = false := Bool.not_eq_true' _ ▸ hwordless
      show _ :: st'.emitted = _ :: st.emitted.map (Token.recased s')
      rw [h.emitted, Token.recased_of_not_isWord hkind, h.cursor.spanTo (h.cursor.advance _)]
  | error => exact hsound.elim

theorem placeAll (h : Recased s' st st') (hsound : ∀ piece ∈ pieces, piece.IsSound)
    (hwordless : pieces.all Piece.wordless = true) :
    Recased s' (st.placeAll config pieces) (st'.placeAll config pieces) := by
  induction pieces generalizing st st' with
  | nil => exact h
  | cons piece rest ih =>
      rw [List.forall_mem_cons] at hsound
      rw [List.all_cons, Bool.and_eq_true] at hwordless
      exact ih (h.place hsound.1 hwordless.1) hsound.2 hwordless.2

/-- A word is placed with the text that stands there. -/
theorem place_word (h : Recased s' st st') (hreached' : Reached config s' st') {kind : TokenKind}
    {width : Nat} (hword : kind.isWord = true) (hle : width ≤ st.cursor.rest.length) :
    Recased s' (st.place config (.token kind width (Source.text (st.cursor.rest.take width))))
      (st'.place config (.token kind width (Source.text (st'.cursor.rest.take width)))) := by
  refine ⟨h.cursor.advance width, h.modes, ?_, h.errors, h.halted⟩
  have hspan := h.cursor.spanTo (h.cursor.advance width)
  have htext : Source.text (st'.cursor.rest.take width) =
      Source.text (s'.slice st.cursor.pos (st.cursor.advance width).pos) := by
    rw [Cursor.pos_advance, Nat.min_eq_left hle, slice_add, hreached'.rest_eq.2, h.cursor.pos]
  have htoken : Token.ofKind kind (Source.text (st'.cursor.rest.take width))
      (st'.cursor.spanTo (st'.cursor.advance width)) =
    Token.recased s' (.ofKind kind (Source.text (st.cursor.rest.take width))
      (st.cursor.spanTo (st.cursor.advance width))) := by
    rw [Token.recased_of_isWord hword, hspan, htext]
    rfl
  show _ :: st'.emitted = _ :: st.emitted.map (Token.recased s')
  rw [h.emitted]
  exact congrArg (· :: _) htoken

theorem of_placed (h : Recased s' st st')
    (hchange : (st'.reading config).change = (st.reading config).change)
    (hplaced : Recased s' (st.placeAll config (st.reading config).pieces)
      (st'.placeAll config (st'.reading config).pieces)) :
    Recased s' (st.step config) (st'.step config) := by
  rw [step_eq, step_eq, hchange, h.modes]
  exact ⟨hplaced.cursor, rfl, hplaced.emitted, hplaced.errors, hplaced.halted⟩

/-- Where a name begins in code, a word of the same kind and width is read in both sources. -/
theorem reading_word (hconfig : config.keywordCase = .insensitive) (h : Recased s' st st')
    (hfront : frontIs isNameStart st.cursor.rest = true)
    (hmode : st.modes.top = .normal ∨ st.modes.top = .expression) :
    ∃ kind width, width ≤ st.cursor.rest.length ∧
      st.reading config = .token kind width (Source.text (st.cursor.rest.take width)) ∧
      st'.reading config = .token kind width (Source.text (st'.cursor.rest.take width)) := by
  have halike := h.cursor.alike
  refine ⟨_, _, nameWidth_le _, read_of_name hfront hmode, ?_⟩
  rw [← frontIs_of_alike blind_isNameStart halike] at hfront
  rw [← h.modes] at hmode
  exact (read_of_name hfront hmode).trans (readWord_of_alike hconfig halike)

/-- Where a word is read, it is read in both sources. -/
theorem step_word (hconfig : config.keywordCase = .insensitive) (h : Recased s' st st')
    (hreached' : Reached config s' st') (hfront : frontIs isNameStart st.cursor.rest = true)
    (hmode : st.modes.top = .normal ∨ st.modes.top = .expression)
    (hword : ¬ (st.reading config).Wordless) : Recased s' (st.step config) (st'.step config) := by
  obtain ⟨kind, width, hle, hreading, hreading'⟩ := h.reading_word hconfig hfront hmode
  have hisWord : kind.isWord = true := by
    by_contra hno
    apply hword
    rw [hreading]
    show (!kind.isWord && true) = true
    rw [Bool.not_eq_true] at hno
    rw [hno]
    rfl
  apply h.of_placed
  · rw [hreading, hreading']
    rfl
  · rw [hreading, hreading']
    exact h.place_word hreached' hisWord hle

/-- Where no word is read, nothing is changed, and so all that is read is the same or a word. -/
theorem step (hconfig : config.keywordCase = .insensitive) (h : Recased s' st st')
    (hreached : Reached config s st) (hreached' : Reached config s' st')
    (hsound : ∀ piece ∈ (st.reading config).pieces, piece.IsSound)
    (hsame : (st.reading config).Wordless → ∀ i, st.cursor.pos ≤ i →
      i < st.cursor.pos + (st.reading config).width → s'[i]? = s[i]?) :
    Recased s' (st.step config) (st'.step config) := by
  by_cases hwordless : (st.reading config).Wordless
  · have hstays : (st.reading config).Stays st.cursor.rest st'.cursor.rest := by
      refine ⟨h.cursor.alike, List.ext_getElem? fun j => ?_, hsound⟩
      rw [hreached.rest_eq.2, hreached'.rest_eq.2, h.cursor.pos, List.getElem?_take,
        List.getElem?_take, List.getElem?_drop, List.getElem?_drop]
      split
      next hj => exact hsame hwordless _ (Nat.le_add_right _ _) (Nat.add_lt_add_left hj _)
      next => rfl
    have hreading : st'.reading config = st.reading config := by
      unfold State.reading at hstays ⊢
      rw [h.modes, h.afterOperand]
      exact read_eq hstays
    apply h.of_placed
    · rw [hreading]
    · rw [hreading]
      exact h.placeAll hsound hwordless
  · obtain hno | ⟨hfront, hmode⟩ :=
      wordless_or_word config st.modes.top st.afterOperand st.cursor.rest
    · exact absurd hno hwordless
    · exact h.step_word hconfig hreached' hfront hmode hwordless

end Recased

/-! ## Runs -/

theorem mem_place {t : Token} {piece : Piece} (h : t ∈ (st.place config piece).emitted) :
    t ∈ st.emitted ∨ st.cursor.pos ≤ t.span.start ∧
      (t.kind = .error ∨ ∃ width, piece = .token t.kind width t.lexeme) := by
  cases piece with
  | skip width => exact .inl h
  | token kind width lexeme =>
      rcases List.mem_cons.1 h with rfl | h
      · exact .inr ⟨Nat.le_refl _, .inr ⟨width, rfl⟩⟩
      · exact .inl h
  | error problem width lexeme =>
      unfold State.place at h
      dsimp only at h
      have herror : t ∈ Token.ofError problem lexeme
          (st.cursor.spanTo (st.cursor.advance width)) :: st.emitted →
          t ∈ st.emitted ∨ st.cursor.pos ≤ t.span.start ∧ t.kind = .error := by
        intro hmem
        rcases List.mem_cons.1 hmem with rfl | hmem
        · exact .inr ⟨Nat.le_refl _, rfl⟩
        · exact .inl hmem
      split at h
      · rcases List.mem_cons.1 h with rfl | h
        · refine .inr ⟨?_, .inl rfl⟩
          show st.cursor.pos ≤ (st.cursor.advance width).pos
          rw [Cursor.pos_advance]
          exact Nat.le_add_right _ _
        · exact (herror h).imp_right fun hplaced => ⟨hplaced.1, .inl hplaced.2⟩
      · exact (herror h).imp_right fun hplaced => ⟨hplaced.1, .inl hplaced.2⟩

/-- A token that a reading makes stands behind its place, and is one of its pieces. -/
theorem mem_placeAll {t : Token} (h : t ∈ (st.placeAll config pieces).emitted) :
    t ∈ st.emitted ∨ st.cursor.pos ≤ t.span.start ∧
      (t.kind = .error ∨ ∃ width, .token t.kind width t.lexeme ∈ pieces) := by
  induction pieces generalizing st with
  | nil => exact .inl h
  | cons piece rest ih =>
      obtain hplaced | ⟨hpos, hpiece⟩ := ih h
      · refine (mem_place hplaced).imp_right fun ⟨hpos, hpiece⟩ => ⟨hpos, ?_⟩
        refine hpiece.imp_right fun ⟨width, heq⟩ => ⟨width, ?_⟩
        rw [heq]
        exact List.mem_cons_self
      · right
        rw [cursor_place, Cursor.pos_advance] at hpos
        refine ⟨Nat.le_trans (Nat.le_add_right _ _) hpos, ?_⟩
        exact hpiece.imp_right fun ⟨width, hmem⟩ => ⟨width, List.mem_cons_of_mem _ hmem⟩

theorem mem_step {t : Token} (h : t ∈ (st.step config).emitted) :
    t ∈ st.emitted ∨ st.cursor.pos ≤ t.span.start ∧
      (t.kind = .error ∨ ∃ width, .token t.kind width t.lexeme ∈ (st.reading config).pieces) := by
  rw [emitted_step] at h
  exact mem_placeAll h

/-- What a run adds stands behind the place where it begins. -/
theorem mem_run {t : Token} (hrun : State.run config n st = some final) (h : t ∈ final.emitted) :
    t ∈ st.emitted ∨ st.cursor.pos ≤ t.span.start := by
  induction n generalizing st with
  | zero =>
      unfold State.run at hrun
      split at hrun
      · cases hrun
        exact .inl h
      · cases hrun
  | succ n ih =>
      unfold State.run at hrun
      split at hrun
      · cases hrun
        exact .inl h
      · rcases ih hrun with hstep | hpos
        · exact (mem_step hstep).imp_right And.left
        · rw [cursor_step, Cursor.pos_advance] at hpos
          exact .inr (Nat.le_trans (Nat.le_add_right _ _) hpos)

/-- Where a reading makes no word there is none. -/
theorem not_covers_of_wordless {t : Token} {i : Nat} (hreached : Reached config s st)
    (hfinished : st.finished = false) (hrun : State.run config n (st.step config) = some final)
    (hwordless : (st.reading config).Wordless) (ht : t ∈ final.emitted)
    (hword : t.kind.isWord = true) (hfirst : st.cursor.pos ≤ i)
    (hlast : i < st.cursor.pos + (st.reading config).width) : ¬ t.Covers i := by
  rintro ⟨hstart, hstop⟩
  rcases mem_run hrun ht with hstep | hpos
  · obtain hbefore | ⟨-, herror | ⟨width, hpiece⟩⟩ := mem_step hstep
    · have hle := (hreached.accounts.spans t hbefore).2
      omega
    · rw [herror] at hword
      cases hword
    · have hplain := List.all_eq_true.1 hwordless _ hpiece
      simp [Piece.wordless, hword] at hplain
  · have hfinal := ((hreached.step hfinished).run hrun).1.accounts
    have hle := (hfinal.spans t ht).2
    have hend := hfinal.pos_le
    have hlength := congrArg List.length hreached.rest_eq.2
    rw [List.length_drop] at hlength
    rw [cursor_step, Cursor.pos_advance] at hpos
    omega

/-- A run that makes no mistake is followed by a run over the other source. -/
theorem run_recased (hconfig : config.keywordCase = .insensitive) (h : Recased s' st st')
    (hreached : Reached config s st) (hreached' : Reached config s' st')
    (hrun : State.run config n st = some final) (hsilent : final.errors = 0)
    (hwords : ∀ i, s'[i]? ≠ s[i]? → ∃ t ∈ final.emitted, t.kind.isWord = true ∧ t.Covers i) :
    ∃ final', State.run config n st' = some final' ∧ Recased s' final final' := by
  induction n generalizing st st' with
  | zero =>
      unfold State.run at hrun ⊢
      rw [h.finished]
      split at hrun
      next hfinished =>
        cases hrun
        exact ⟨st', if_pos hfinished, h⟩
      next => cases hrun
  | succ n ih =>
      unfold State.run at hrun ⊢
      rw [h.finished]
      split at hrun
      next hfinished =>
        cases hrun
        exact ⟨st', if_pos hfinished, h⟩
      next hfinished =>
        rw [if_neg hfinished]
        rw [Bool.not_eq_true] at hfinished
        have hsound : ∀ piece ∈ (st.reading config).pieces, piece.IsSound := by
          have herrors := errors_le_run hrun
          rw [errors_step] at herrors
          have hmistakes : Piece.mistakes (st.reading config).pieces = 0 := by omega
          exact OneMistake.sound (oneMistake_read ..) hmistakes
        have hsame : (st.reading config).Wordless → ∀ i, st.cursor.pos ≤ i →
            i < st.cursor.pos + (st.reading config).width → s'[i]? = s[i]? := by
          intro hwordless i hfirst hlast
          by_contra hne
          obtain ⟨t, ht, hword, hcovers⟩ := hwords i hne
          exact not_covers_of_wordless hreached hfinished hrun hwordless ht hword hfirst hlast
            hcovers
        exact ih (h.step hconfig hreached hreached' hsound hsame) (hreached.step hfinished)
          (hreached'.step (h.finished.trans hfinished)) hrun

end State

variable {st : State}

/-- A token that is a word has the kind that its text has there. -/
theorem Reached.wordKind (h : Reached config s st) {t : Token} (ht : t ∈ st.emitted)
    (hword : t.kind.isWord = true) : ∃ rest, t.kind = wordKind config t.lexeme rest := by
  induction h with
  | start => cases ht
  | @step st _ _ ih =>
      obtain hbefore | ⟨-, herror | ⟨width, hpiece⟩⟩ := State.mem_step ht
      · exact ih hbefore
      · rw [herror] at hword
        cases hword
      · obtain hwordless | ⟨hfront, hmode⟩ :=
          wordless_or_word config st.modes.top st.afterOperand st.cursor.rest
        · have hplain := List.all_eq_true.1 hwordless _ hpiece
          simp [Piece.wordless, hword] at hplain
        · unfold State.reading at hpiece
          rw [read_of_name hfront hmode] at hpiece
          obtain ⟨hkind, -, hlexeme⟩ := Piece.token.inj (List.mem_singleton.1 hpiece)
          exact ⟨_, hlexeme ▸ hkind⟩

/-- If case is ignored, no word is spelled like the type `Array`. -/
theorem ne_array_of_scan {scanned : Scanned} (hconfig : config.keywordCase = .insensitive)
    (hscan : scan config s = some scanned) {t : Token} (ht : t ∈ scanned.tokens)
    (hword : t.kind.isWord = true) : t.lexeme ≠ "Array" := by
  obtain ⟨st, hreached, -, rfl⟩ := exists_reached_of_scan hscan
  rw [tokens_ofState, List.mem_append, List.mem_reverse, List.mem_singleton] at ht
  obtain hemitted | rfl := ht
  · obtain ⟨rest, hkind⟩ := hreached.wordKind hemitted hword
    exact ne_array_of_isWord hconfig (hkind ▸ hword)
  · cases hword

theorem mistakes_of_silent {tokens : List Token} (h : Token.diagnostics tokens = []) :
    Token.mistakes tokens = 0 := by
  refine Token.mistakes_of_ne fun t ht herror => ?_
  have hnone := List.filterMap_eq_nil_iff.1 h t ht
  unfold Token.diagnostic? at hnone
  rw [if_pos herror] at hnone
  cases hnone

/-- If case is ignored, a source without mistakes whose words are put into another case gives the
same tokens, but that words have the texts that stand there. -/
theorem scan_recased {scanned : Scanned} (hconfig : config.keywordCase = .insensitive)
    (hscan : scan config s = some scanned) (hsilent : scanned.diagnostics = [])
    (h : s.Recases scanned.tokens s') :
    scan config s' = some { scanned with tokens := scanned.tokens.map (Token.recased s') } := by
  unfold scan at hscan ⊢
  obtain ⟨final, hrun, rfl⟩ := Option.map_eq_some_iff.1 hscan
  have hreached := (Reached.start.run hrun).1
  have herrors : final.errors = 0 := by
    have hle := hreached.errors_le
    rw [← mistakes_ofState, mistakes_of_silent hsilent] at hle
    exact Nat.le_zero.1 hle
  have hwords : ∀ i, s'[i]? ≠ s[i]? → ∃ t ∈ final.emitted, t.kind.isWord = true ∧ t.Covers i := by
    intro i hne
    obtain ⟨t, ht, hword, hcovers⟩ := h.words i hne
    rw [tokens_ofState, List.mem_append, List.mem_reverse, List.mem_singleton] at ht
    obtain hemitted | rfl := ht
    · exact ⟨t, hemitted, hword, hcovers⟩
    · cases hword
  obtain ⟨final', hrun', hfinal⟩ := State.run_recased hconfig (.start h.alike) .start .start hrun
    herrors hwords
  rw [← h.alike.length_eq, hrun', Option.map_some, Option.some.injEq]
  unfold Scanned.ofState
  rw [hfinal.emitted, hfinal.modes, hfinal.cursor.spanTo hfinal.cursor, List.map_reverse,
    List.map_cons, Token.recased_of_not_isWord (t := .ofKind .eof "" _) rfl]

end Scan

end ComponentLang
