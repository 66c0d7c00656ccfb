import ComponentLang.Proofs.Scan.Recased
import ComponentLang.Proofs.Scan.Spaced

/-!
# Blanks between tokens

If a source is scanned without mistakes, a blank may be put in where a token begins or ends. The
scan then makes tokens of the same kinds and texts and ends in the same modes. Up to that place both
scans make the same readings, except that one may take the blank in; behind it they have the same
units to read.
-/
namespace ComponentLang

/-- What a token is, apart from where it stands. -/
def Token.content (t : Token) : TokenKind × String := (t.kind, t.lexeme)

namespace Scan

open Source

variable {config : ScanConfig} {c d : Char} {s s' : Source}

/-! ## Readings of one piece -/

theorem fitAll_le {pieces : List Piece} (h : Piece.FitAll s pieces) :
    Piece.totalWidth pieces ≤ s.length := by
  induction pieces generalizing s with
  | nil => exact Nat.zero_le _
  | cons piece rest ih =>
      have hpiece := h.1.1
      have hrest := ih h.2
      rw [List.length_drop] at hrest
      rw [Piece.totalWidth]
      omega

/-- The reading is one piece at most, unless it makes a mistake. -/
inductive Reading.Single (r : Reading) : Prop
  | none : r.pieces = [] → Single r
  | one (piece : Piece) : r.pieces = [piece] → Single r
  | mistake (problem : ScanError) (width : Nat) (lexeme : String) :
      .error problem width lexeme ∈ r.pieces → Single r

theorem single_rejectUnit (problem : ScanError) (u : SourceUnit) (rest : Source) :
    (rejectUnit problem u rest).Single := .mistake _ _ _ List.mem_cons_self

theorem single_readModifier (rest : Source) : (readModifier rest).Single := by
  unfold readModifier
  split
  · exact .one _ rfl
  · exact .mistake _ _ _ List.mem_cons_self

theorem single_readString (quote : Char) (rest : Source) : (readString quote rest).Single := by
  unfold readString
  dsimp only
  split
  · split
    · exact .one _ rfl
    · exact .one _ rfl
  · exact .one _ rfl

theorem single_readNumber (config : ScanConfig) (s : Source) : (readNumber config s).Single := by
  unfold readNumber
  split
  · exact .one _ rfl
  · split
    · exact .one _ rfl
    · exact .one _ rfl

theorem single_of_readShared? {rest : Source} {r : Reading}
    (h : readShared? config s d rest = some r) : r.Single := by
  unfold readShared? at h
  split at h
  · obtain rfl := Option.some.inj h
    exact .one _ rfl
  split at h
  · obtain ⟨width, -, rfl⟩ := Option.map_eq_some_iff.mp h
    exact .one _ rfl
  split at h
  · obtain rfl := Option.some.inj h
    exact single_readString d rest
  split at h
  · obtain rfl := Option.some.inj h
    exact single_readNumber config s
  split at h
  · obtain rfl := Option.some.inj h
    exact .one _ rfl
  split at h
  · obtain rfl := Option.some.inj h
    exact single_readModifier rest
  · cases h

theorem single_readCode (config : ScanConfig) (mode : Mode) (afterOperand : Bool) (s : Source)
    (d : Char) (rest : Source) : (readCode config mode afterOperand s d rest).Single := by
  unfold readCode
  split
  next hshared => exact single_of_readShared? hshared
  split
  · exact .one _ rfl
  split
  · exact .one _ rfl
  split
  · exact .one _ rfl
  split
  · exact .one _ rfl
  split
  · exact .one _ rfl
  · exact single_rejectUnit ..

theorem single_readAttribute (config : ScanConfig) (s : Source) (d : Char) (rest : Source) :
    (readAttribute config s d rest).Single := by
  unfold readAttribute
  split
  next hshared => exact single_of_readShared? hshared
  split
  · exact .one _ rfl
  split
  · exact .one _ rfl
  split
  · exact .one _ rfl
  split
  · exact .one _ rfl
  split
  · unfold readAttributeName
    dsimp only
    split
    · exact .one _ rfl
    · exact .one _ rfl
  · exact single_rejectUnit ..

theorem single_readTagClose (rest : Source) : (readTagClose rest).Single := by
  unfold readTagClose
  extract_lets nameLength name afterName blanks width
  split
  · exact .one _ rfl
  · exact .mistake _ _ _ (List.mem_cons_of_mem _ List.mem_cons_self)

theorem single_readContent (s : Source) (d : Char) (rest : Source) :
    (readContent s d rest).Single := by
  unfold readContent
  split
  · exact .one _ rfl
  split
  · split
    · exact single_readTagClose _
    · split
      · exact .one _ rfl
      · exact .one _ rfl
  split
  · exact .one _ rfl
  split
  · exact single_rejectUnit ..
  · exact .one _ rfl

/-- Only a style is read together with the blanks in front of it. -/
theorem single_read {mode : Mode} (hmode : mode ≠ .styleValue) (config : ScanConfig)
    (afterOperand : Bool) (s : Source) : (read config mode afterOperand s).Single := by
  unfold read
  split
  · exact .none rfl
  · exact single_rejectUnit ..
  · cases mode with
    | normal => exact single_readCode ..
    | expression => exact single_readCode ..
    | tagAttribute => exact single_readAttribute ..
    | tagContent => exact single_readContent ..
    | styleValue => exact absurd rfl hmode

/-! ## Where tokens begin and end -/

/-- A token begins or ends at the place `p`. -/
def State.HasEnd (st : State) (p : Nat) : Prop :=
  ∃ t ∈ st.emitted, p = t.span.start ∨ p = t.span.stop

section Ends

variable {st final : State} {n p : Nat} {t : Token}

/-- A piece that is placed begins at the cursor and ends where the cursor is moved to. -/
theorem span_of_mem_place {piece : Piece} (hsound : piece.IsSound)
    (ht : t ∈ (st.place config piece).emitted) : t ∈ st.emitted ∨
      t.span.start = st.cursor.pos ∧ t.span.stop = (st.cursor.advance piece.width).pos := by
  cases piece with
  | skip width => exact .inl ht
  | token kind width lexeme =>
      rcases List.mem_cons.1 ht with rfl | ht
      · exact .inr ⟨rfl, rfl⟩
      · exact .inl ht
  | error => exact hsound.elim

theorem width_reading_le (config : ScanConfig) (st : State) :
    (st.reading config).width ≤ st.cursor.rest.length := fitAll_le (fits_read ..)

theorem pos_step (config : ScanConfig) (st : State) :
    (st.step config).cursor.pos = st.cursor.pos + (st.reading config).width := by
  rw [State.cursor_step, Cursor.pos_advance, Nat.min_eq_left (width_reading_le config st)]

/-- Where a style value is due, a reading without mistakes is a style. -/
theorem reading_of_styleValue (hfinished : st.finished = false)
    (hmode : st.modes.top = .styleValue)
    (hsound : ∀ piece ∈ (st.reading config).pieces, piece.IsSound) :
    st.reading config = readStyle st.cursor.rest := by
  obtain ⟨u, rest, hrest⟩ := State.exists_rest_of_unfinished hfinished
  unfold State.reading at hsound ⊢
  rw [hrest, hmode] at hsound ⊢
  cases u with
  | invalid b => exact (hsound _ List.mem_cons_self).elim
  | char d => rfl

/-- Where a token of the whole scan begins or ends further on, a reading ends there at the latest.
Only a style may go on: if the token is that style, it begins behind the blanks in front of it. -/
theorem width_reading_le_of_end (hreached : Reached config s st) (hfinished : st.finished = false)
    (hsound : ∀ piece ∈ (st.reading config).pieces, piece.IsSound)
    (hrun : State.run config n (st.step config) = some final) (hp : final.HasEnd p)
    (hlt : st.cursor.pos < p) :
    st.cursor.pos + (st.reading config).width ≤ p ∨
      st.modes.top = .styleValue ∧ p ≤ st.cursor.pos + run isSpacing st.cursor.rest := by
  obtain ⟨t, ht, hp⟩ := hp
  have hspan := (((hreached.step hfinished).run hrun).1.accounts.spans t ht).1
  have hbefore : t ∈ st.emitted → False := fun hmem => by
    have hstop := (hreached.accounts.spans t hmem).2
    have hstart := (hreached.accounts.spans t hmem).1
    omega
  have hle := width_reading_le config st
  rcases State.mem_run hrun ht with hstep | hbehind
  · rw [State.emitted_step] at hstep
    by_cases hmode : st.modes.top = .styleValue
    · have hreading := reading_of_styleValue hfinished hmode hsound
      rw [hreading] at hstep hle hsound ⊢
      rw [width_readStyle] at hle ⊢
      have hplaced := span_of_mem_place (hsound _ (List.mem_cons_of_mem _ List.mem_cons_self)) hstep
      rw [State.cursor_place, Cursor.advance_advance, Cursor.pos_advance, Cursor.pos_advance,
        Piece.width, Nat.min_eq_left (Nat.le_of_add_right_le hle), Nat.min_eq_left hle] at hplaced
      obtain hmem | ⟨hstart, hstop⟩ := hplaced
      · exact (hbefore hmem).elim
      · rcases hp with rfl | rfl
        · exact .inr ⟨hmode, Nat.le_of_eq hstart⟩
        · exact .inl (Nat.le_of_eq hstop.symm)
    · have hsingle : (st.reading config).Single := single_read hmode config st.afterOperand _
      cases hsingle with
      | none hpieces =>
          rw [hpieces] at hstep
          exact (hbefore hstep).elim
      | one piece hpieces =>
          rw [hpieces] at hstep
          have hwidth : (st.reading config).width = piece.width := by
            rw [Reading.width, hpieces]
            rfl
          have hpiece := hsound piece (by rw [hpieces]; exact List.mem_cons_self)
          obtain hmem | ⟨hstart, hstop⟩ := span_of_mem_place hpiece hstep
          · exact (hbefore hmem).elim
          · rw [Cursor.pos_advance, ← hwidth, Nat.min_eq_left hle] at hstop
            omega
      | mistake problem width lexeme hmem => exact (hsound _ hmem).elim
  · rw [pos_step] at hbehind
    omega

/-- Where a style value is due, the mark that says so stands behind all tokens made before. -/
theorem stop_lt_of_styleValue (hreached : Reached config s st) (hsilent : st.errors = 0)
    (hmode : st.modes.top = .styleValue) (ht : t ∈ st.emitted) : t.span.stop < st.cursor.pos := by
  cases hreached with
  | start => cases ht
  | @step st hreached hfinished =>
      have hsound : ∀ piece ∈ (st.reading config).pieces, piece.IsSound := by
        rw [State.errors_step] at hsilent
        exact OneMistake.sound (oneMistake_read ..) (by omega)
      have hmoves : (st.reading config).Moves st.modes.top := moves_read ..
      have hnested := hreached.agrees.nested
      rw [State.modes_step] at hmode
      rw [State.emitted_step] at ht
      rw [pos_step]
      have hwidth := width_reading_pos config hfinished
      have hstyle := fun h => reading_of_styleValue hfinished h hsound
      unfold State.stalled at hwidth
      generalize st.reading config = r at *
      generalize htop : st.modes.top = mode at hmoves hwidth hstyle
      cases hmoves with
      | neutral hneutral =>
          rw [hneutral.1] at hmode
          rw [hstyle (htop.symm.trans hmode)] at hneutral
          cases hneutral.1
      | style width =>
          have hpos := hwidth rfl nofun
          exact Nat.lt_of_le_of_lt (hreached.accounts.spans t ht).2 (Nat.lt_add_of_pos_right hpos)
      | content width lexeme =>
          rw [ModeChange.apply, ModeStack.top_replace] at hmode
          cases hmode
      | brace | expression | tag => cases hmode
      | endBrace | endExpression | selfClose | close | endStyle =>
          exact (hnested.top_pop_ne hmode).elim

end Ends

/-! ## Two scans -/

theorem read_blank {mode : Mode} {afterOperand : Bool} {rest : Source} (hmode : mode ≠ .styleValue)
    (hc : isSpacing c = true) : read config mode afterOperand (.char c :: rest) = .skip 1 := by
  have hshared : readShared? config (.char c :: rest) c rest = some (.skip 1) := if_pos hc
  cases mode with
  | normal | expression =>
      show readCode .. = _
      unfold readCode
      rw [hshared]
  | tagAttribute =>
      show readAttribute .. = _
      unfold readAttribute
      rw [hshared]
  | tagContent => exact if_pos hc
  | styleValue => exact absurd rfl hmode

namespace State

variable {st st' final : State} {n m p : Nat} {t : Token}

/-- States with tokens of the same kinds and texts and with the same modes. -/
structure SameTokens (st st' : State) : Prop where
  modes : st'.modes = st.modes
  contents : st'.emitted.map Token.content = st.emitted.map Token.content
  goes : st.halted = false
  goes' : st'.halted = false

theorem afterOperand_eq (st : State) : st.afterOperand =
    (st.emitted.map Token.content).head?.any fun content => content.1.endsOperand := by
  unfold State.afterOperand
  rw [List.head?_map, Option.any_map]
  rfl

namespace SameTokens

theorem start (s s' : Source) : SameTokens (.start s) (.start s') := ⟨rfl, rfl, rfl, rfl⟩

theorem afterOperand (h : st.SameTokens st') : st'.afterOperand = st.afterOperand := by
  rw [afterOperand_eq, afterOperand_eq, h.contents]

theorem finished (h : st.SameTokens st') (hrest : st'.cursor.rest = st.cursor.rest) :
    st'.finished = st.finished := by
  unfold State.finished
  rw [h.goes, h.goes', hrest]

theorem place (h : st.SameTokens st') {piece piece' : Piece} (hpiece : piece.SameToken piece') :
    (st.place config piece).SameTokens (st'.place config piece') := by
  cases hpiece with
  | skip width width' => exact ⟨h.modes, h.contents, h.goes, h.goes'⟩
  | token width width' lexeme hkind =>
      exact ⟨h.modes, congrArg (_ :: ·) h.contents, h.goes, h.goes'⟩

theorem placeAll (h : st.SameTokens st') {pieces pieces' : List Piece}
    (hpieces : List.Forall₂ Piece.SameToken pieces pieces') :
    (st.placeAll config pieces).SameTokens (st'.placeAll config pieces') := by
  induction hpieces generalizing st st' with
  | nil => exact h
  | cons hpiece _ ih => exact ih (h.place hpiece)

theorem step (h : st.SameTokens st')
    (hspaced : (st.reading config).Spaced n (st'.reading config)) :
    (st.step config).SameTokens (st'.step config) := by
  have hplaced : (st.placeAll config (st.reading config).pieces).SameTokens
      (st'.placeAll config (st'.reading config).pieces) := h.placeAll hspaced.pieces
  rw [step_eq, step_eq, hspaced.change, h.modes]
  exact ⟨rfl, hplaced.contents, hplaced.goes, hplaced.goes'⟩

end SameTokens

theorem sound_of_run (hrun : State.run config n (st.step config) = some final)
    (hsilent : final.errors = 0) : ∀ piece ∈ (st.reading config).pieces, piece.IsSound := by
  have herrors := errors_le_run hrun
  rw [errors_step] at herrors
  exact OneMistake.sound (oneMistake_read ..) (by omega)

/-- Where the same units are left to read, the rest of the scans is the same. -/
theorem run_of_rest_eq (h : st.SameTokens st') (hrest : st'.cursor.rest = st.cursor.rest)
    (hrun : State.run config n st = some final) (hsilent : final.errors = 0) :
    ∃ final', State.run config n st' = some final' ∧ final.SameTokens final' := by
  induction n generalizing st st' with
  | zero =>
      unfold State.run at hrun ⊢
      rw [h.finished hrest]
      split at hrun
      next hfinished =>
        cases hrun
        exact ⟨st', if_pos hfinished, h⟩
      next => cases hrun
  | succ n ih =>
      unfold State.run at hrun ⊢
      rw [h.finished hrest]
      split at hrun
      next hfinished =>
        cases hrun
        exact ⟨st', if_pos hfinished, h⟩
      next hfinished =>
        rw [if_neg hfinished]
        have hreading : st'.reading config = st.reading config := by
          unfold State.reading
          rw [h.modes, h.afterOperand, hrest]
        have hwithin : (st.reading config).Within (st.reading config).width :=
          ⟨Nat.le_refl _, sound_of_run hrun hsilent⟩
        refine ih (h.step (hwithin.spaced hreading)) ?_ hrun
        rw [rest_step, rest_step, hreading, hrest]

/-- The blank itself is passed over, unless a style value is due. -/
theorem step_blank (config : ScanConfig) (h : st.SameTokens st')
    (hgap : Gap c 0 st.cursor.rest st'.cursor.rest)
    (hmode : st.modes.top ≠ .styleValue) : st.SameTokens (st'.step config) ∧
      (st'.step config).cursor.rest = st.cursor.rest := by
  generalize hrest : st.cursor.rest = rest at hgap
  generalize hrest' : st'.cursor.rest = rest' at hgap
  cases hgap with
  | here _ hc =>
      have hreading : st'.reading config = .skip 1 := by
        unfold State.reading
        rw [hrest', h.modes]
        exact read_blank hmode hc
      refine ⟨?_, ?_⟩
      · rw [step_eq, hreading]
        exact ⟨h.modes, h.contents, h.goes, h.goes'⟩
      · rw [rest_step, hreading, hrest']
        rfl

/-! ### Where the token begins or ends further on -/

theorem exists_run_step (hfinished : st.finished = false)
    (hrun : State.run config n st = some final) :
    ∃ k, State.run config k (st.step config) = some final := by
  cases n with
  | zero =>
      unfold State.run at hrun
      rw [hfinished] at hrun
      cases hrun
  | succ n =>
      unfold State.run at hrun
      rw [if_neg (by rw [hfinished]; exact Bool.false_ne_true)] at hrun
      exact ⟨n, hrun⟩

theorem unfinished_of_end (hreached : Reached config s st)
    (hrun : State.run config n st = some final) (hp : final.HasEnd p)
    (hlt : st.cursor.pos < p) : st.finished = false := by
  obtain ⟨t, ht, hp⟩ := hp
  by_contra hfinished
  rw [Bool.not_eq_false] at hfinished
  rw [run_of_finished n hfinished] at hrun
  obtain rfl := Option.some.inj hrun
  have hspan := hreached.accounts.spans t ht
  omega

/-- The mark `/>` behind a style is one token. -/
theorem pos_ne_of_selfClose (hreached : Reached config s st) (hfinished : st.finished = false)
    (hmode : st.modes.top = .styleValue)
    (hsound : ∀ piece ∈ (st.reading config).pieces, piece.IsSound)
    (hrun : State.run config n (st.step config) = some final) (hsilent : final.errors = 0)
    (hp : final.HasEnd p) (tail : Source)
    (htail : st.cursor.rest.drop (st.reading config).width = .char '/' :: .char '>' :: tail) :
    st.cursor.pos + ((st.reading config).width + 1) ≠ p := by
  intro heq
  have hnext := hreached.step hfinished
  have hpos := pos_step config st
  have hunfinished := unfinished_of_end hnext hrun hp (by omega)
  have htop : (st.step config).modes.top = .tagAttribute := by
    obtain ⟨lower, below, hbelow, hmay, -⟩ :=
      hreached.agrees.nested.exists_below (by rw [hmode]; nofun)
    rw [modes_step, reading_of_styleValue hfinished hmode hsound]
    show st.modes.pop.top = .tagAttribute
    rw [ModeStack.pop, hbelow]
    rw [hmode] at hmay
    cases lower <;> first | rfl | cases hmay
  have hwidth : ((st.step config).reading config).width = 2 := by
    unfold State.reading
    rw [htop, rest_step, htail]
    rfl
  obtain ⟨k, hrun'⟩ := exists_run_step hunfinished hrun
  obtain hle | ⟨hstyle, -⟩ := width_reading_le_of_end hnext hunfinished
    (sound_of_run hrun' hsilent) hrun' hp (by omega)
  · omega
  · rw [htop] at hstyle
    cases hstyle

/-- The readings in front of the blank. -/
theorem reading_of_gap (hreached : Reached config s st) (h : st.SameTokens st')
    (hgap : Gap c m st.cursor.rest st'.cursor.rest) (hfinished : st.finished = false)
    (hrun : State.run config n (st.step config) = some final) (hsilent : final.errors = 0)
    (hp : final.HasEnd p) (hm : st.cursor.pos + m = p)
    (hnext : 0 < m ∨ st.modes.top = .styleValue) :
    (st.reading config).Spaced m (st'.reading config) := by
  have hsound := sound_of_run hrun hsilent
  have hend : 0 < m → (st.reading config).width ≤ m ∨
      st.modes.top = .styleValue ∧ m ≤ Source.run isSpacing st.cursor.rest := fun hpos => by
    obtain hle | ⟨hstyle, hle⟩ :=
      width_reading_le_of_end hreached hfinished hsound hrun hp (by omega)
    · exact .inl (by omega)
    · exact .inr ⟨hstyle, by omega⟩
  by_cases hmode : st.modes.top = .styleValue
  · have hreading' : st'.reading config = readStyle st'.cursor.rest := by
      obtain ⟨u, rest, hrest⟩ := exists_rest_of_unfinished hfinished
      unfold State.reading at hsound ⊢
      rw [hrest, hmode] at hsound
      rw [h.modes, hmode]
      rw [hrest] at hgap
      generalize st'.cursor.rest = rest' at hgap ⊢
      cases hgap with
      | here _ hc => rfl
      | cons _ _ =>
          cases u with
          | invalid b => exact (hsound _ List.mem_cons_self).elim
          | char d => rfl
    rw [hreading']
    have hself := pos_ne_of_selfClose hreached hfinished hmode hsound hrun hsilent hp
    have hreading := reading_of_styleValue hfinished hmode hsound
    rw [hreading] at hsound hend hself ⊢
    refine readStyle_of_gap hgap hsound ?_ fun tail htail hne => hself tail htail (by omega)
    rcases Nat.eq_zero_or_pos m with rfl | hpos
    · exact .inr (Nat.zero_le _)
    · exact (hend hpos).imp_right And.right
  · have hpos := hnext.resolve_right hmode
    have hle := (hend hpos).resolve_right fun hstyle => hmode hstyle.1
    have hspaced := read_of_gap hgap hpos hmode ⟨hle, hsound⟩
    unfold State.reading
    rw [h.modes, h.afterOperand]
    exact hspaced

theorem run_succ (hfinished : st.finished = false)
    (hrun : State.run config n (st.step config) = some final) :
    State.run config (n + 1) st = some final := by
  unfold State.run
  rwa [if_neg (by rw [hfinished]; exact Bool.false_ne_true)]

/-- There is something to read before the blank, and where a style value is due. -/
theorem unfinished_of_gap (hreached : Reached config s st)
    (hrun : State.run config n st = some final) (hsilent : final.errors = 0)
    (hp : final.HasEnd p) (hm : st.cursor.pos + m = p)
    (hnext : 0 < m ∨ st.modes.top = .styleValue) :
    st.finished = false := by
  rcases Nat.eq_zero_or_pos m with rfl | hpos
  · obtain ⟨t, ht, hp⟩ := hp
    by_contra hfinished
    rw [Bool.not_eq_false] at hfinished
    rw [run_of_finished n hfinished] at hrun
    obtain rfl := Option.some.inj hrun
    have hstop := stop_lt_of_styleValue hreached hsilent (hnext.resolve_left (Nat.lt_irrefl 0)) ht
    have hspan := hreached.accounts.spans t ht
    omega
  · exact unfinished_of_end hreached hrun hp (by omega)

theorem unfinished_of_goes (hgoes : st'.halted = false)
    (hgap : Gap c m st.cursor.rest st'.cursor.rest) : st'.finished = false := by
  have hlength := hgap.length_eq
  unfold State.finished
  rw [hgoes, Bool.false_or, List.isEmpty_eq_false_iff]
  intro hnil
  rw [hnil] at hlength
  cases hlength

/-- Where the blank stands it is passed over, and the scans go on alike. -/
theorem run_at_blank (h : st.SameTokens st') (hgap : Gap c 0 st.cursor.rest st'.cursor.rest)
    (hmode : st.modes.top ≠ .styleValue) (hrun : State.run config n st = some final)
    (hsilent : final.errors = 0) :
    ∃ k final', State.run config k st' = some final' ∧ final.SameTokens final' := by
  obtain ⟨hstep, hrest⟩ := step_blank config h hgap hmode
  obtain ⟨final', hrun', hfinal⟩ := run_of_rest_eq hstep hrest hrun hsilent
  exact ⟨n + 1, final', run_succ (unfinished_of_goes h.goes' hgap) hrun', hfinal⟩

/-- If a blank is put in where a token of the whole scan begins or ends, the scan with the blank
follows the scan without. -/
theorem run_of_gap (hreached : Reached config s st) (h : st.SameTokens st')
    (hgap : Gap c m st.cursor.rest st'.cursor.rest)
    (hrun : State.run config n st = some final) (hsilent : final.errors = 0)
    (hp : final.HasEnd p) (hm : st.cursor.pos + m = p) :
    ∃ k final', State.run config k st' = some final' ∧ final.SameTokens final' := by
  induction n generalizing st st' m with
  | zero =>
      by_cases hnext : 0 < m ∨ st.modes.top = .styleValue
      · have hfinished := unfinished_of_gap hreached hrun hsilent hp hm hnext
        unfold State.run at hrun
        rw [hfinished] at hrun
        cases hrun
      · obtain rfl : m = 0 := Nat.eq_zero_of_not_pos fun hpos => hnext (.inl hpos)
        exact run_at_blank h hgap (fun hmode => hnext (.inr hmode)) hrun hsilent
  | succ n ih =>
      by_cases hnext : 0 < m ∨ st.modes.top = .styleValue
      · have hfinished := unfinished_of_gap hreached hrun hsilent hp hm hnext
        have hfinished' := unfinished_of_goes h.goes' hgap
        unfold State.run at hrun
        rw [if_neg (by rw [hfinished]; exact Bool.false_ne_true)] at hrun
        have hspaced := reading_of_gap hreached h hgap hfinished hrun hsilent hp hm hnext
        have hstep := h.step hspaced
        obtain ⟨hwidth, hle⟩ | ⟨hwidth, hle⟩ := hspaced.width
        · -- The reading ends before the blank, or where it stands.
          have hgap' : Gap c (m - (st.reading config).width) (st.step config).cursor.rest
              (st'.step config).cursor.rest := by
            rw [rest_step, rest_step, hwidth]
            exact hgap.drop hle
          obtain ⟨k, final', hrun', hfinal⟩ := ih (hreached.step hfinished) hstep hgap' hrun
            (by rw [pos_step]; omega)
          exact ⟨k + 1, final', run_succ hfinished' hrun', hfinal⟩
        · -- The reading takes the blank in.
          have hrest : (st'.step config).cursor.rest = (st.step config).cursor.rest := by
            rw [rest_step, rest_step, hwidth, hgap.drop_succ hle]
          obtain ⟨final', hrun', hfinal⟩ := run_of_rest_eq hstep hrest hrun hsilent
          exact ⟨n + 1, final', run_succ hfinished' hrun', hfinal⟩
      · obtain rfl : m = 0 := Nat.eq_zero_of_not_pos fun hpos => hnext (.inl hpos)
        exact run_at_blank h hgap (fun hmode => hnext (.inr hmode)) hrun hsilent

/-- A run has one result, however many steps it is given. -/
theorem run_unique {final' : State} (hrun : State.run config n st = some final)
    (hrun' : State.run config m st = some final') : final = final' := by
  induction n generalizing st m with
  | zero =>
      unfold State.run at hrun
      split at hrun
      next hfinished =>
        rw [run_of_finished m hfinished] at hrun'
        cases hrun
        exact Option.some.inj hrun'
      next => cases hrun
  | succ n ih =>
      unfold State.run at hrun
      split at hrun
      next hfinished =>
        rw [run_of_finished m hfinished] at hrun'
        cases hrun
        exact Option.some.inj hrun'
      next hfinished =>
        rw [Bool.not_eq_true] at hfinished
        obtain ⟨k, hstep⟩ := exists_run_step hfinished hrun'
        exact ih hrun hstep

end State

/-- A blank may be put in where any token but the last of a scan without mistakes begins or ends.
The scan then makes tokens of the same kinds and texts and ends in the same modes. -/
theorem scan_insert_blank {scanned : Scanned} (hscan : scan config s = some scanned)
    (hclean : ∀ t ∈ scanned.tokens, t.kind ≠ .error) {t : Token} (ht : t ∈ scanned.tokens)
    (hkind : t.kind ≠ .eof) {p : Nat} (hp : p = t.span.start ∨ p = t.span.stop)
    (hc : c ∈ [' ', '\t', '\r', '\n']) :
    ∃ scanned', scan config (s.take p ++ .char c :: s.drop p) = some scanned' ∧
      scanned'.tokens.map Token.content = scanned.tokens.map Token.content ∧
      scanned'.modes = scanned.modes := by
  obtain ⟨final, hrun, rfl⟩ := Option.map_eq_some_iff.1 hscan
  have hreached := (Reached.start.run hrun).1
  have hsilent : final.errors = 0 := by
    have hle := hreached.errors_le
    rw [← mistakes_ofState, Token.mistakes_of_ne hclean] at hle
    exact Nat.le_zero.1 hle
  rw [tokens_ofState, List.mem_append, List.mem_reverse, List.mem_singleton] at ht
  have hemitted : t ∈ final.emitted := ht.resolve_right fun heof => hkind (by rw [heof]; rfl)
  have hlength : p ≤ s.length := by
    have hspan := hreached.accounts.spans t hemitted
    have hend := hreached.accounts.pos_le
    omega
  obtain ⟨k, final', hrun', hfinal⟩ := State.run_of_gap .start (State.SameTokens.start s _)
    (gap_insert (isSpacing_iff.2 hc) hlength) hrun hsilent ⟨t, hemitted, hp⟩ (Nat.zero_add p)
  obtain ⟨result, hresult, hscan'⟩ := (scan_progress config _).2.2.1.1 ⟨k, final', hrun'⟩
  obtain rfl := State.run_unique hrun' hresult
  refine ⟨_, hscan', ?_, hfinal.modes⟩
  rw [tokens_ofState, tokens_ofState, List.map_append, List.map_append, List.map_reverse,
    List.map_reverse, hfinal.contents]
  rfl

/-- A block, a comparison and a tag with a style that ends right before the tag does. -/
def blockAndTag : Source := Source.ofString "async{a<b};<a style:x/>"

theorem scan_insert_blank_blockAndTag :
    ∃ scanned, scan {} blockAndTag = some scanned ∧ (∀ t ∈ scanned.tokens, t.kind ≠ .error) ∧
      (∃ t ∈ scanned.tokens, t.kind = .styleProperty ∧ t.span.stop = 21) ∧
      ∃ scanned',
        scan {} (blockAndTag.take 21 ++ .char '\n' :: blockAndTag.drop 21) = some scanned' ∧
        scanned'.tokens.map Token.content = scanned.tokens.map Token.content ∧
        scanned'.modes = scanned.modes := by
  obtain ⟨scanned, hscan⟩ := Option.isSome_iff_exists.mp
    (show (scan {} blockAndTag).isSome = true by decide)
  have hclean : ∀ t ∈ scanned.tokens, t.kind ≠ .error := by
    have hall : (scan {} blockAndTag).all (fun r => r.tokens.all fun t => t.kind ≠ .error) =
        true := by decide
    rw [hscan] at hall
    simpa using hall
  have hstyle : ∃ t ∈ scanned.tokens, t.kind = .styleProperty ∧ t.span.stop = 21 := by
    have hany : (scan {} blockAndTag).any (fun r => r.tokens.any fun t =>
        t.kind = .styleProperty && t.span.stop = 21) = true := by decide
    rw [hscan] at hany
    simpa using hany
  obtain ⟨t, ht, hkind, hstop⟩ := hstyle
  exact ⟨scanned, hscan, hclean, ⟨t, ht, hkind, hstop⟩,
    scan_insert_blank hscan hclean ht (by rw [hkind]; nofun) (.inr hstop.symm) (by decide)⟩

end Scan

end ComponentLang
