import ComponentLang.Proofs.Scan.Nesting

/-!
# Progress of a scan

Every reading takes a unit from the source, except for two. A style value may be empty, but it ends
its mode, so twice the units to come and one for a pending style value decrease with each step. And
white space outside ASCII begins nothing in the content of a tag: there a scan makes the same empty
token forever. A scan has a result exactly when it never comes to such a place.
-/
namespace ComponentLang.Scan
open Source (frontIs run upTo)

/-! ## The width of a reading -/

@[simp] theorem width_skip (width : Nat) : (Reading.skip width).width = width := rfl

@[simp] theorem width_token (kind : TokenKind) (width : Nat) (lexeme : String) :
    (Reading.token kind width lexeme).width = width := rfl

@[simp] theorem width_verbatim (kind : TokenKind) (width : Nat) (s : Source) :
    (Reading.verbatim kind width s).width = width := rfl

@[simp] theorem width_error (problem : ScanError) (width : Nat) (lexeme : String) :
    (Reading.error problem width lexeme).width = width := rfl

@[simp] theorem width_changing (r : Reading) (change : ModeChange) :
    (r.changing change).width = r.width := rfl

theorem width_rejectUnit_pos (problem : ScanError) (u : SourceUnit) (rest : Source) :
    0 < (rejectUnit problem u rest).width := by
  simp only [rejectUnit, Reading.width, Piece.totalWidth, Piece.width]
  omega

theorem width_readString_pos (quote : Char) (rest : Source) :
    0 < (readString quote rest).width := by
  unfold readString
  dsimp only
  repeat' split
  all_goals simp

theorem width_readModifier_pos (rest : Source) : 0 < (readModifier rest).width := by
  unfold readModifier
  split
  · simp [markedName]
  · simp only [Reading.width, Piece.totalWidth, Piece.width]
    omega

theorem width_pos_of_numberShape? {config : ScanConfig} {c : Char} {rest : Source}
    {kind : NumberKind} {width : Nat} (hc : c.isDigit = true)
    (h : numberShape? config (.char c :: rest) = some (kind, width)) : 0 < width := by
  have hrun : 0 < run Char.isDigit (.char c :: rest) := by simp [run, hc]
  unfold numberShape? at h
  split at h
  · dsimp only at h
    split at h
    · cases h
    · obtain ⟨-, rfl⟩ := Prod.mk.inj (Option.some.inj h)
      omega
  · obtain ⟨-, rfl⟩ := Prod.mk.inj (Option.some.inj h)
    omega

theorem width_readNumber_pos (config : ScanConfig) {c : Char} (rest : Source)
    (hc : c.isDigit = true) : 0 < (readNumber config (.char c :: rest)).width := by
  unfold readNumber
  split
  · simp only [malformedNumber, width_error]
    omega
  · rename_i kind width hshape
    have hpos := width_pos_of_numberShape? hc hshape
    split
    · simp only [malformedNumber, width_error]
      omega
    · exact hpos

theorem nameWidth_pos {c : Char} (rest : Source) (hc : isNameStart c = true) :
    0 < nameWidth (.char c :: rest) := by
  have hword : isWordChar c = true := by
    simp only [isNameStart, isWordChar, Char.isAlphanum, Bool.or_eq_true] at hc ⊢
    rcases hc with hc | hc
    · exact .inl (.inl hc)
    · exact .inr hc
  simp [nameWidth, hword]

theorem width_pos_of_mark? {c : Char} {rest : Source} {kind : TokenKind} {width : Nat}
    (h : mark? c rest = some (kind, width)) : 0 < width := by
  unfold mark? longer at h
  repeat' split at h
  all_goals first
    | cases h; done
    | (obtain ⟨-, rfl⟩ := Prod.mk.inj (Option.some.inj h); decide)

theorem commentWidth?_pos {rest : Source} {width : Nat} (h : commentWidth? rest = some width) :
    0 < width := by
  unfold commentWidth? at h
  split at h
  · obtain rfl := Option.some.inj h
    omega
  · obtain rfl := Option.some.inj h
    omega
  · cases h

theorem width_pos_of_readShared? {config : ScanConfig} {c : Char} {rest : Source} {r : Reading}
    (h : readShared? config (.char c :: rest) c rest = some r) : 0 < r.width := by
  unfold readShared? at h
  split at h
  · obtain rfl := Option.some.inj h
    simp
  split at h
  · obtain ⟨width, hwidth, rfl⟩ := Option.map_eq_some_iff.mp h
    exact commentWidth?_pos hwidth
  split at h
  · obtain rfl := Option.some.inj h
    exact width_readString_pos c rest
  split at h
  · rename_i hdigit
    obtain rfl := Option.some.inj h
    exact width_readNumber_pos config rest hdigit
  split at h
  · obtain rfl := Option.some.inj h
    simp [markedName]
  split at h
  · obtain rfl := Option.some.inj h
    exact width_readModifier_pos rest
  · cases h

theorem width_readCode_pos (config : ScanConfig) (mode : Mode) (afterOperand : Bool) (c : Char)
    (rest : Source) : 0 < (readCode config mode afterOperand (.char c :: rest) c rest).width := by
  unfold readCode
  split
  · rename_i r hr
    exact width_pos_of_readShared? hr
  split
  · simp [readTagOpen, markedName]
  split
  · simp
  split
  · simp
  split
  · rename_i kind width hmark
    exact width_pos_of_mark? hmark
  split
  · rename_i hname
    exact nameWidth_pos rest hname
  · exact width_rejectUnit_pos ..

theorem width_readAttribute_pos (config : ScanConfig) (c : Char) (rest : Source) :
    0 < (readAttribute config (.char c :: rest) c rest).width := by
  unfold readAttribute
  split
  · rename_i r hr
    exact width_pos_of_readShared? hr
  split
  · simp
  split
  · simp
  split
  · simp
  split
  · simp
  split
  · rename_i hname
    unfold readAttributeName
    dsimp only
    split
    · simp
    · exact nameWidth_pos rest hname
  · exact width_rejectUnit_pos ..

/-- White space that separates no tokens. -/
def isForeignBlank (c : Char) : Bool := Text.isBlank c && 0x7f < c.toNat

theorem toNat_eq_blank {c : Char} (h : c.toNat = 0x20) : c = ' ' := Char.toNat_inj.mp h

/-- White space in ASCII is a blank between tokens or a control character. -/
theorem isForeignBlank_of_isBlank {c : Char} (h : Text.isBlank c = true)
    (hspacing : isSpacing c = false) (hcontrol : isControl c = false) :
    isForeignBlank c = true := by
  have hne : c.toNat ≠ 0x20 := fun hc => by
    rw [toNat_eq_blank hc] at hspacing
    cases hspacing
  simp only [isControl, Bool.or_eq_false_iff, decide_eq_false_iff_not, beq_eq_false_iff_ne]
    at hcontrol
  simp only [isForeignBlank, h, Bool.true_and, decide_eq_true_eq]
  simp [Text.isBlank, Text.blankRanges] at h
  omega

theorem width_readContent_pos {c : Char} (rest : Source) (hc : isForeignBlank c = false) :
    0 < (readContent (.char c :: rest) c rest).width := by
  unfold readContent
  split
  · simp
  rename_i hspacing
  split
  · split
    · unfold readTagClose
      extract_lets nameLength name afterName blanks width
      split
      · simp only [Reading.width, Piece.totalWidth, Piece.width]
        omega
      · simp only [Reading.width, Piece.totalWidth, Piece.width]
        omega
    · split
      · simp [readTagOpen, markedName]
      · simp
  rename_i hangle
  split
  · simp
  rename_i hbrace
  split
  · exact width_rejectUnit_pos ..
  · rename_i hcontrol
    have hspacing : isSpacing c = false := by simpa using hspacing
    have hcontrol : isControl c = false := by simpa using hcontrol
    have hblank : Text.isBlank c = false := by
      apply Bool.eq_false_iff.mpr
      intro hblank
      rw [isForeignBlank_of_isBlank hblank hspacing hcontrol] at hc
      cases hc
    have htext : isTextChar c = true := by
      simp [isTextChar, hblank, hangle, hbrace, hcontrol]
    simp [run, htext]

/-- White space outside ASCII is read as a text without width. -/
theorem readContent_of_isForeignBlank {c : Char} (rest : Source) (hc : isForeignBlank c = true) :
    readContent (.char c :: rest) c rest = .token .text 0 "" := by
  simp only [isForeignBlank, Bool.and_eq_true, decide_eq_true_eq] at hc
  have hne : ∀ d : Char, d.toNat ≤ 0x7f → c ≠ d := by
    rintro d hd rfl
    omega
  have hspacing : isSpacing c = false := by
    simp [isSpacing, hne ' ' (by decide), hne '\t' (by decide), hne '\r' (by decide),
      hne '\n' (by decide)]
  have hcontrol : isControl c = false := by
    simp only [isControl, Bool.or_eq_false_iff, decide_eq_false_iff_not, beq_eq_false_iff_ne]
    omega
  have htext : isTextChar c = false := by simp [isTextChar, hc.1]
  simp [readContent, hspacing, hcontrol, hne '<' (by decide), hne '{' (by decide),
    Reading.verbatim, run, htext, Source.text]

/-- Where a scan stands still: in the content of a tag before white space outside ASCII. -/
def State.stalled (st : State) : Bool :=
  st.modes.top == .tagContent && frontIs isForeignBlank st.cursor.rest

variable {config : ScanConfig} {s : Source} {st : State}

/-- A reading takes a unit, unless it is that of a style value or stands still. -/
theorem width_reading_pos (config : ScanConfig) (hfinished : st.finished = false)
    (hstalled : st.stalled = false) (hstyle : st.modes.top ≠ .styleValue) :
    0 < (st.reading config).width := by
  obtain ⟨u, rest, hrest⟩ := State.exists_rest_of_unfinished hfinished
  unfold State.reading read
  rw [hrest]
  cases u with
  | invalid b => exact width_rejectUnit_pos ..
  | char c =>
      dsimp only
      generalize htop : st.modes.top = mode at hstyle
      cases mode with
      | normal => exact width_readCode_pos ..
      | expression => exact width_readCode_pos ..
      | tagAttribute => exact width_readAttribute_pos ..
      | tagContent =>
          apply width_readContent_pos rest
          simpa [State.stalled, htop, hrest, frontIs] using hstalled
      | styleValue => exact absurd rfl hstyle

/-- A reading made for a style value takes a unit or ends the style value. -/
theorem reading_style (config : ScanConfig) (hfinished : st.finished = false)
    (hstyle : st.modes.top = .styleValue) :
    0 < (st.reading config).width ∨ (st.reading config).change = .pop := by
  obtain ⟨u, rest, hrest⟩ := State.exists_rest_of_unfinished hfinished
  unfold State.reading read
  rw [hrest, hstyle]
  cases u with
  | invalid b => exact .inl (width_rejectUnit_pos ..)
  | char c => exact .inr rfl

/-! ## Steps -/

/-- Twice the units to come, and one while a style value is pending. -/
def State.measure (st : State) : Nat :=
  2 * st.cursor.rest.length + if st.modes.top = .styleValue then 1 else 0

theorem measure_step_lt (h : Reached config s st) (hfinished : st.finished = false)
    (hstalled : st.stalled = false) : (st.step config).measure < st.measure := by
  have hlength : (st.step config).cursor.rest.length =
      st.cursor.rest.length - (st.reading config).width := by
    rw [State.rest_step, List.length_drop]
  obtain ⟨u, rest, hrest⟩ := State.exists_rest_of_unfinished hfinished
  have hpos : 0 < st.cursor.rest.length := by simp [hrest]
  unfold State.measure
  rw [hlength]
  by_cases hstyle : st.modes.top = .styleValue
  · rw [if_pos hstyle]
    rcases reading_style config hfinished hstyle with hwidth | hchange
    · split <;> omega
    · have htop : (st.step config).modes.top ≠ .styleValue := by
        rw [State.modes_step, hchange]
        exact h.agrees.nested.top_pop_ne
      rw [if_neg htop]
      omega
  · have hwidth := width_reading_pos config hfinished hstalled hstyle
    rw [if_neg hstyle]
    split <;> omega

/-- Where a scan stands still, a step makes an empty token and does nothing else. -/
theorem step_of_stalled (config : ScanConfig) (hstalled : st.stalled = true) :
    st.step config = { st with
      emitted := .ofKind .text "" (st.cursor.spanTo st.cursor) :: st.emitted } := by
  simp only [State.stalled, Bool.and_eq_true, beq_iff_eq] at hstalled
  obtain ⟨htop, hfront⟩ := hstalled
  have hreading : st.reading config = .token .text 0 "" := by
    unfold State.reading
    rw [htop]
    cases hrest : st.cursor.rest with
    | nil => simp [hrest, frontIs] at hfront
    | cons u rest =>
        rw [hrest] at hfront
        cases u with
        | invalid b => cases hfront
        | char c => exact readContent_of_isForeignBlank rest hfront
  rw [State.step_eq, hreading]
  rfl

/-! ## Runs -/

/-- A scan that stands still goes on to. -/
theorem run_of_stalled (n : Nat) (hstalled : st.stalled = true) (hfinished : st.finished = false) :
    State.run config n st = none := by
  induction n generalizing st with
  | zero => simp [State.run, hfinished]
  | succ n ih =>
      have hstep := step_of_stalled config hstalled
      simp only [State.run, hfinished, Bool.false_eq_true, if_false]
      apply ih
      · rw [hstep]
        exact hstalled
      · rw [hstep]
        exact hfinished

/-- A run that has a result has it from each state that it comes to. -/
theorem Reached.exists_run (h : Reached config s st)
    (hruns : ∃ n final, State.run config n (.start s) = some final) :
    ∃ n final, State.run config n st = some final := by
  induction h with
  | start => exact hruns
  | @step st _ hfinished ih =>
      obtain ⟨n, final, hrun⟩ := ih
      cases n with
      | zero => simp [State.run, hfinished] at hrun
      | succ n =>
          simp only [State.run, hfinished, Bool.false_eq_true, if_false] at hrun
          exact ⟨n, final, hrun⟩

/-- Without standing still, as many steps as the measure says are enough. -/
theorem Reached.run_of_measure_le {n : Nat} (h : Reached config s st) (hn : st.measure ≤ n)
    (hgoes : ∀ st, Reached config s st → st.finished = false → st.stalled = false) :
    ∃ final, State.run config n st = some final := by
  induction n generalizing st with
  | zero =>
      have hrest : st.cursor.rest = [] := by
        apply List.length_eq_zero_iff.mp
        unfold State.measure at hn
        omega
      exact ⟨st, by simp [State.run, State.finished, hrest]⟩
  | succ n ih =>
      cases hfinished : st.finished with
      | true => exact ⟨st, by simp [State.run, hfinished]⟩
      | false =>
          have hlt := measure_step_lt h hfinished (hgoes st h hfinished)
          obtain ⟨final, hfinal⟩ := ih (h.step hfinished) (by omega)
          exact ⟨final, by simpa [State.run, hfinished] using hfinal⟩

/-! ## The end of input -/

theorem Reading.Moves.ne_eof {mode : Mode} {r : Reading} (h : r.Moves mode) {kind : TokenKind}
    {width : Nat} {lexeme : String} (hmem : .token kind width lexeme ∈ r.pieces) :
    kind ≠ .eof := by
  rintro rfl
  cases h with
  | neutral hr => cases hr.2 _ hmem
  | close _ _ hpieces =>
      rcases List.mem_cons.mp hmem with hmem | hmem
      · cases hmem
      · cases hpieces _ hmem
  | endStyle hpieces => cases hpieces _ hmem
  | _ => cases List.mem_singleton.mp hmem

/-- Placing pieces makes no end of input if none of the pieces is one. -/
theorem State.kind_ne_eof_placeAll {pieces : List Piece}
    (hpieces : ∀ kind width lexeme, .token kind width lexeme ∈ pieces → kind ≠ .eof)
    (hemitted : ∀ t ∈ st.emitted, t.kind ≠ .eof) :
    ∀ t ∈ (st.placeAll config pieces).emitted, t.kind ≠ .eof := by
  induction pieces generalizing st with
  | nil => exact hemitted
  | cons piece rest ih =>
      apply ih (fun _ _ _ hmem => hpieces _ _ _ (List.mem_cons_of_mem _ hmem))
      cases piece with
      | skip width => exact hemitted
      | token kind width lexeme =>
          refine List.forall_mem_cons.mpr ⟨?_, hemitted⟩
          exact hpieces kind width lexeme List.mem_cons_self
      | error problem width lexeme =>
          have herror : TokenKind.error ≠ .eof := by decide
          unfold place
          dsimp only
          split
          · exact List.forall_mem_cons.mpr ⟨herror, List.forall_mem_cons.mpr ⟨herror, hemitted⟩⟩
          · exact List.forall_mem_cons.mpr ⟨herror, hemitted⟩

theorem Reached.kind_ne_eof (h : Reached config s st) : ∀ t ∈ st.emitted, t.kind ≠ .eof := by
  induction h with
  | start => simp [State.start]
  | @step st _ _ ih =>
      rw [State.emitted_step]
      exact State.kind_ne_eof_placeAll (fun _ _ _ hmem => (moves_read ..).ne_eof hmem) ih

/-- A source without white space outside ASCII is nowhere stood still in. -/
theorem Reached.not_stalled (hs : ∀ u ∈ s, u.satisfies isForeignBlank = false)
    (h : Reached config s st) : st.stalled = false := by
  apply Bool.eq_false_iff.mpr
  intro hstalled
  simp only [State.stalled, Bool.and_eq_true] at hstalled
  obtain ⟨-, hfront⟩ := hstalled
  cases hrest : st.cursor.rest with
  | nil => simp [hrest, frontIs] at hfront
  | cons u rest =>
      have hmem : u ∈ s := by
        apply List.mem_of_mem_drop (i := st.cursor.pos)
        rw [← h.rest_eq.2, hrest]
        exact List.mem_cons_self
      rw [hrest] at hfront
      simp only [frontIs] at hfront
      rw [hs u hmem] at hfront
      cases hfront

/-- A step of a scan decreases the measure, unless the scan stands still there. So a run of a scan
comes to an end exactly when it never stands still, and then it does so within as many steps as
twice the length of the source and one, which is what a scan makes. It has a result for every source
without white space outside ASCII. The tokens of a result end with the end of input, which they have
nowhere else. -/
theorem scan_progress (config : ScanConfig) (s : Source) :
    (∀ st, Reached config s st → st.finished = false →
      (st.stalled = false → (st.step config).measure < st.measure) ∧
      (st.stalled = true → st.step config = { st with
        emitted := .ofKind .text "" (st.cursor.spanTo st.cursor) :: st.emitted })) ∧
    ((∃ n final, State.run config n (.start s) = some final) ↔
      ∀ st, Reached config s st → st.finished = false → st.stalled = false) ∧
    ((∃ n final, State.run config n (.start s) = some final) ↔
      ∃ final, State.run config (2 * s.length + 1) (.start s) = some final ∧
        scan config s = some (.ofState final)) ∧
    ((∀ u ∈ s, u.satisfies isForeignBlank = false) → (scan config s).isSome = true) ∧
    ∀ scanned, scan config s = some scanned → ∃ tokens eof, scanned.tokens = tokens ++ [eof] ∧
      eof.kind = .eof ∧ ∀ t ∈ tokens, t.kind ≠ .eof := by
  have hscan : (∀ st, Reached config s st → st.finished = false → st.stalled = false) →
      ∃ final, State.run config (2 * s.length + 1) (.start s) = some final ∧
        scan config s = some (.ofState final) := by
    intro hgoes
    have hstart : (State.start s).measure ≤ 2 * s.length + 1 := by
      simp [State.measure, State.start, Cursor.start, ModeStack.initial]
    obtain ⟨final, hfinal⟩ := Reached.start.run_of_measure_le hstart hgoes
    exact ⟨final, hfinal, by rw [scan, hfinal]; rfl⟩
  have hgoes : (∃ n final, State.run config n (.start s) = some final) →
      ∀ st, Reached config s st → st.finished = false → st.stalled = false := by
    intro h st hreached hfinished
    apply Bool.eq_false_iff.mpr
    intro hstalled
    obtain ⟨n, final, hrun⟩ := hreached.exists_run h
    rw [run_of_stalled n hstalled hfinished] at hrun
    cases hrun
  refine ⟨?_, ?_, ?_, ?_, ?_⟩
  · intro st h hfinished
    exact ⟨measure_step_lt h hfinished, step_of_stalled config⟩
  · constructor
    · exact hgoes
    · intro h
      obtain ⟨final, hfinal, -⟩ := hscan h
      exact ⟨_, final, hfinal⟩
  · constructor
    · intro h
      exact hscan (hgoes h)
    · intro h
      obtain ⟨final, hfinal, -⟩ := h
      exact ⟨_, final, hfinal⟩
  · intro hs
    obtain ⟨final, -, hresult⟩ := hscan fun st h _ => h.not_stalled hs
    rw [hresult]
    rfl
  · intro scanned hscanned
    obtain ⟨st, h, -, rfl⟩ := exists_reached_of_scan hscanned
    refine ⟨st.emitted.reverse, _, List.reverse_cons, rfl, ?_⟩
    intro t ht
    exact h.kind_ne_eof t (List.mem_reverse.mp ht)

/-- After `<a>`, a no-break space is where a scan stands still, and there is no result. -/
theorem scan_progress_noBreakSpace :
    (∃ st, Reached {} (.ofString "<a>\u00a0") st ∧ st.finished = false ∧ st.stalled = true) ∧
      (¬ ∃ n final, State.run {} n (.start (.ofString "<a>\u00a0")) = some final) ∧
      (scan {} (.ofString "<a> b</a>")).isSome = true := by
  have hreached : Reached {} (.ofString "<a>\u00a0")
      (((State.start (.ofString "<a>\u00a0")).step {}).step {}) :=
    .step (.step .start (by decide)) (by decide)
  have hfinished : (((State.start (.ofString "<a>\u00a0")).step {}).step {}).finished = false := by
    decide
  have hstalled : (((State.start (.ofString "<a>\u00a0")).step {}).step {}).stalled = true := by
    decide
  refine ⟨⟨_, hreached, hfinished, hstalled⟩, ?_, ?_⟩
  · intro hruns
    have hgoes := (scan_progress {} (.ofString "<a>\u00a0")).2.1.mp hruns
    rw [hgoes _ hreached hfinished] at hstalled
    cases hstalled
  · exact (scan_progress {} (.ofString "<a> b</a>")).2.2.2.1 (by decide)

end ComponentLang.Scan
