import ComponentLang.Scan.Run

/-!
# The states of a scan

A scan makes steps from its first state until a state is finished, so what it can come to are the
states of `Reached`. One step makes a reading and places its pieces; the lemmas here say what that
does to the cursor, the modes and the tokens, whatever the reading is.
-/
namespace ComponentLang.Scan

namespace Cursor

theorem advance_of_rest_nil {c : Cursor} (h : c.rest = []) (width : Nat) : c.advance width = c := by
  cases width with
  | zero => rfl
  | succ width => simp [advance, h]

theorem advance_advance (c : Cursor) (m n : Nat) :
    (c.advance m).advance n = c.advance (m + n) := by
  induction m generalizing c with
  | zero => simp
  | succ m ih =>
      cases h : c.rest with
      | nil => simp only [advance_of_rest_nil h]
      | cons u rest =>
          rw [Nat.succ_add]
          simp only [advance, h]
          exact ih _

end Cursor

namespace State

variable (config : ScanConfig)

@[simp] theorem cursor_place (st : State) (piece : Piece) :
    (st.place config piece).cursor = st.cursor.advance piece.width := by
  cases piece with
  | skip width => rfl
  | token kind width lexeme => rfl
  | error problem width lexeme =>
      unfold place
      dsimp only
      split <;> rfl

@[simp] theorem modes_place (st : State) (piece : Piece) :
    (st.place config piece).modes = st.modes := by
  cases piece with
  | skip width => rfl
  | token kind width lexeme => rfl
  | error problem width lexeme =>
      unfold place
      dsimp only
      split <;> rfl

/-- All pieces of a reading, placed one after the other. -/
def placeAll (st : State) (pieces : List Piece) : State := pieces.foldl (place config) st

@[simp] theorem placeAll_nil (st : State) : st.placeAll config [] = st := rfl

@[simp] theorem placeAll_cons (st : State) (piece : Piece) (rest : List Piece) :
    st.placeAll config (piece :: rest) = (st.place config piece).placeAll config rest := rfl

theorem cursor_placeAll (st : State) (pieces : List Piece) :
    (st.placeAll config pieces).cursor = st.cursor.advance (Piece.totalWidth pieces) := by
  induction pieces generalizing st with
  | nil => rfl
  | cons piece rest ih =>
      rw [placeAll_cons, ih, cursor_place, Cursor.advance_advance]
      rfl

@[simp] theorem modes_placeAll (st : State) (pieces : List Piece) :
    (st.placeAll config pieces).modes = st.modes := by
  induction pieces generalizing st with
  | nil => rfl
  | cons piece rest ih => rw [placeAll_cons, ih, modes_place]

/-- The reading that stands at the cursor. -/
def reading (st : State) : Reading :=
  read config st.modes.top st.afterOperand st.cursor.rest

theorem step_eq (st : State) :
    st.step config = { st.placeAll config (st.reading config).pieces with
      modes := (st.reading config).change.apply st.modes } := by
  rw [← modes_placeAll config st (st.reading config).pieces]
  rfl

@[simp] theorem modes_step (st : State) :
    (st.step config).modes = (st.reading config).change.apply st.modes := by
  rw [step_eq]

@[simp] theorem emitted_step (st : State) :
    (st.step config).emitted = (st.placeAll config (st.reading config).pieces).emitted := by
  rw [step_eq]

theorem cursor_step (st : State) :
    (st.step config).cursor = st.cursor.advance (st.reading config).width := by
  rw [step_eq]
  exact cursor_placeAll config st _

theorem rest_step (st : State) :
    (st.step config).cursor.rest = st.cursor.rest.drop (st.reading config).width := by
  rw [cursor_step, Cursor.rest_advance]

/-- A state that is not finished has a unit to read. -/
theorem exists_rest_of_unfinished {st : State} (h : st.finished = false) :
    ∃ u rest, st.cursor.rest = u :: rest := by
  have hne : st.cursor.rest ≠ [] := by
    intro hnil
    simp [finished, hnil] at h
  exact List.exists_cons_of_ne_nil hne

end State

/-- The states that a scan of `s` can come to. -/
inductive Reached (config : ScanConfig) (s : Source) : State → Prop
  | start : Reached config s (.start s)
  | step {st : State} : Reached config s st → st.finished = false →
      Reached config s (st.step config)

variable {config : ScanConfig} {s : Source}

/-- The place of a reached state divides the source. -/
theorem Reached.rest_eq {st : State} (h : Reached config s st) :
    st.cursor.pos ≤ s.length ∧ st.cursor.rest = s.drop st.cursor.pos := by
  induction h with
  | start => simp [State.start, Cursor.start]
  | @step st _ _ ih =>
      rw [State.rest_step, State.cursor_step, Cursor.pos_advance, ih.2, List.drop_drop,
        List.length_drop]
      have hpos := ih.1
      refine ⟨by omega, ?_⟩
      rcases Nat.le_total (st.reading config).width (s.length - st.cursor.pos) with hw | hw
      · rw [Nat.min_eq_left hw]
      · rw [Nat.min_eq_right hw, List.drop_eq_nil_of_le (by omega),
          List.drop_eq_nil_of_le (by omega)]

/-- What a run comes to is finished, and is reached if the run began at a reached state. -/
theorem Reached.run {n : Nat} {st final : State} (h : Reached config s st)
    (hrun : State.run config n st = some final) :
    Reached config s final ∧ final.finished = true := by
  induction n generalizing st with
  | zero =>
      unfold State.run at hrun
      split at hrun
      · rename_i hfin
        obtain rfl := Option.some.inj hrun
        exact ⟨h, hfin⟩
      · cases hrun
  | succ n ih =>
      unfold State.run at hrun
      split at hrun
      · rename_i hfin
        obtain rfl := Option.some.inj hrun
        exact ⟨h, hfin⟩
      · rename_i hfin
        exact ih (h.step (by simpa using hfin)) hrun

/-- A result of the scan is made from a finished state that is reached. -/
theorem exists_reached_of_scan {scanned : Scanned} (h : scan config s = some scanned) :
    ∃ st, Reached config s st ∧ st.finished = true ∧ scanned = .ofState st := by
  unfold scan at h
  obtain ⟨st, hst, rfl⟩ := Option.map_eq_some_iff.mp h
  obtain ⟨hreached, hfin⟩ := Reached.start.run hst
  exact ⟨st, hreached, hfin, rfl⟩

end ComponentLang.Scan
