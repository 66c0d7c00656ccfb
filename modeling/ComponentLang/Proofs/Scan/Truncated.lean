import ComponentLang.Proofs.Scan.Mistakes

/-!
# The cap on errors cuts the tokens off

A configuration allows so many errors, and one more ends the scan. Up to there the cap makes no
difference: what is read, and what becomes of it, does not depend on it. So the scan under another
cap gives the same tokens, or a front part of them that ends with the first error too many, with a
note that there are too many, and with what was passed over because of that error.
-/
namespace ComponentLang

/-- The configuration with another cap. -/
def ScanConfig.withCap (config : ScanConfig) (cap : Nat) : ScanConfig :=
  { config with maxErrors := cap }

namespace Token

def isMistake (t : Token) : Bool := t.kind = .error

/-- The number of error tokens. -/
def mistakes (tokens : List Token) : Nat := tokens.countP isMistake

theorem mistakes_append (tokens others : List Token) :
    mistakes (tokens ++ others) = mistakes tokens + mistakes others := List.countP_append

theorem mistakes_reverse (tokens : List Token) : mistakes tokens.reverse = mistakes tokens :=
  List.countP_reverse

theorem mistakes_cons {t : Token} (h : t.kind = .error) (tokens : List Token) :
    mistakes (t :: tokens) = mistakes tokens + 1 :=
  List.countP_cons_of_pos (decide_eq_true h)

theorem mistakes_of_ne {tokens : List Token} (h : ∀ t ∈ tokens, t.kind ≠ .error) :
    mistakes tokens = 0 :=
  List.countP_eq_zero.2 fun t ht => by simpa [isMistake] using h t ht

theorem ne_of_isError {kind : TokenKind} (h : kind.isError = false) :
    kind ≠ .error ∧ kind ≠ .errorRecovery := by
  constructor
  · rintro rfl
    cases h
  · rintro rfl
    cases h

/-- The token in front, if it is one that was passed over. -/
def passedOver : List Token → List Token
  | [] => []
  | t :: _ => if t.kind = .errorRecovery then [t] else []

theorem passedOver_of_ne {tokens : List Token} (h : ∀ t ∈ tokens.head?, t.kind ≠ .errorRecovery) :
    passedOver tokens = [] := by
  cases tokens with
  | nil => rfl
  | cons t rest => exact if_neg (h t rfl)

end Token

namespace Scan

/-! ## Places of a source -/

/-- The place `pos` units behind the start of a source. -/
def Cursor.at (s : Source) (pos : Nat) : Cursor := (Cursor.start s).advance pos

/-- The span without width at a place of a source. -/
def emptySpan (s : Source) (pos : Nat) : Span := (Cursor.at s pos).spanTo (Cursor.at s pos)

/-- A cursor that comes from the start of a source. -/
def Cursor.Within (s : Source) (c : Cursor) : Prop := ∃ n, c = Cursor.at s n

variable {s : Source} {c : Cursor}

theorem Cursor.Within.advance (h : c.Within s) (width : Nat) : (c.advance width).Within s := by
  obtain ⟨n, rfl⟩ := h
  exact ⟨n + width, Cursor.advance_advance _ n width⟩

/-- Such a cursor is determined by its position. -/
theorem Cursor.Within.eq_at (h : c.Within s) : c = Cursor.at s c.pos := by
  obtain ⟨n, rfl⟩ := h
  have hpos : (Cursor.at s n).pos = min n s.length := by
    rw [Cursor.at, Cursor.pos_advance]
    exact Nat.zero_add _
  rw [hpos]
  rcases Nat.le_total n s.length with hn | hn
  · rw [Nat.min_eq_left hn]
  · have hend : (Cursor.at s s.length).rest = [] := by
      rw [Cursor.at, Cursor.rest_advance]
      exact List.drop_length
    rw [Nat.min_eq_right hn, ← Cursor.advance_of_rest_nil hend (n - s.length), Cursor.at, Cursor.at,
      Cursor.advance_advance, Nat.add_sub_cancel' hn]

/-! ## Pieces -/

/-- The number of mistakes among pieces. -/
def Piece.mistakes : List Piece → Nat
  | [] => 0
  | .error .. :: rest => mistakes rest + 1
  | _ :: rest => mistakes rest

theorem Piece.mistakes_append (pieces others : List Piece) :
    Piece.mistakes (pieces ++ others) = Piece.mistakes pieces + Piece.mistakes others := by
  induction pieces with
  | nil => exact (Nat.zero_add _).symm
  | cons piece rest ih =>
      cases piece with
      | skip | token => exact ih
      | error =>
          rw [List.cons_append, mistakes, mistakes, ih, Nat.add_right_comm]

theorem Piece.mistakes_of_sound {pieces : List Piece} (h : ∀ piece ∈ pieces, piece.IsSound) :
    Piece.mistakes pieces = 0 := by
  induction pieces with
  | nil => rfl
  | cons piece rest ih =>
      rw [List.forall_mem_cons] at h
      cases piece with
      | skip | token => exact ih h.2
      | error => exact h.1.elim

theorem Recovers.mistakes {passed : List Piece} (h : Recovers passed) :
    Piece.mistakes passed = 0 := by
  rcases h with rfl | ⟨width, lexeme, rfl⟩
  · rfl
  · rfl

namespace State

variable {config : ScanConfig} {st : State} {pieces : List Piece} {m : Nat}

theorem errors_place (st : State) (piece : Piece) :
    (st.place config piece).errors = st.errors + Piece.mistakes [piece] := by
  cases piece with
  | skip | token => rfl
  | error =>
      unfold place
      dsimp only
      split <;> rfl

theorem errors_placeAll (config : ScanConfig) (st : State) (pieces : List Piece) :
    (st.placeAll config pieces).errors = st.errors + Piece.mistakes pieces := by
  induction pieces generalizing st with
  | nil => rfl
  | cons piece rest ih =>
      rw [placeAll_cons, ih, errors_place, Nat.add_assoc, ← Piece.mistakes_append]
      rfl

/-- Below both caps it does not matter which of them is in force. -/
theorem place_withCap (piece : Piece) (hm : (st.place config piece).errors ≤ m)
    (hcap : (st.place config piece).errors ≤ config.maxErrors) :
    st.place (config.withCap m) piece = st.place config piece := by
  cases piece with
  | skip | token => rfl
  | error =>
      rw [errors_place] at hm hcap
      have hm' : ¬ st.errors + 1 > (config.withCap m).maxErrors := Nat.not_lt.2 hm
      have hcap' : ¬ st.errors + 1 > config.maxErrors := Nat.not_lt.2 hcap
      simp only [place, if_neg hm', if_neg hcap']

theorem placeAll_withCap (hm : (st.placeAll config pieces).errors ≤ m)
    (hcap : (st.placeAll config pieces).errors ≤ config.maxErrors) :
    st.placeAll (config.withCap m) pieces = st.placeAll config pieces := by
  induction pieces generalizing st with
  | nil => rfl
  | cons piece rest ih =>
      rw [placeAll_cons] at hm hcap ⊢
      have hmono : (st.place config piece).errors ≤
          ((st.place config piece).placeAll config rest).errors := by
        rw [errors_placeAll]
        exact Nat.le_add_right _ _
      rw [place_withCap piece (Nat.le_trans hmono hm) (Nat.le_trans hmono hcap), ih hm hcap,
        placeAll_cons]

/-- What has been read well is put behind the tokens made before. -/
theorem placeAll_sound (config : ScanConfig) (h : ∀ piece ∈ pieces, piece.IsSound) (st : State) :
    ∃ sound, (st.placeAll config pieces).emitted = sound ++ st.emitted ∧
      (∀ t ∈ sound, t.kind.isError = false) ∧
      (st.placeAll config pieces).halted = st.halted := by
  induction pieces generalizing st with
  | nil => exact ⟨[], rfl, List.forall_mem_nil _, rfl⟩
  | cons piece rest ih =>
      rw [List.forall_mem_cons] at h
      obtain ⟨sound, hsound, hkinds, hhalted⟩ := ih h.2 (st.place config piece)
      cases piece with
      | skip width => exact ⟨sound, hsound, hkinds, hhalted⟩
      | token kind width lexeme =>
          let t := Token.ofKind kind lexeme (st.cursor.spanTo (st.cursor.advance width))
          have ht : t.kind.isError = false := h.1
          refine ⟨sound ++ [t], ?_, ?_, hhalted⟩
          · rw [placeAll_cons, hsound, List.append_assoc]
            rfl
          · exact List.forall_mem_append.2 ⟨hkinds, List.forall_mem_singleton.2 ht⟩
      | error => exact h.1.elim

end State

/-! ## Steps -/

/-- What is read does not depend on the cap. -/
theorem read_withCap (config : ScanConfig) (m : Nat) (mode : Mode) (afterOperand : Bool)
    (s : Source) : read (config.withCap m) mode afterOperand s = read config mode afterOperand s :=
  rfl

namespace State

variable {config : ScanConfig} {st : State} {m : Nat}

theorem errors_step (st : State) : (st.step config).errors =
    st.errors + Piece.mistakes (st.reading config).pieces := by
  rw [step_eq]
  exact errors_placeAll config st _

theorem errors_le_step (st : State) : st.errors ≤ (st.step config).errors := by
  rw [errors_step]
  exact Nat.le_add_right _ _

theorem step_withCap (hm : (st.step config).errors ≤ m)
    (hcap : (st.step config).errors ≤ config.maxErrors) :
    st.step (config.withCap m) = st.step config := by
  rw [errors_step, ← errors_placeAll config] at hm hcap
  have hreading : st.reading (config.withCap m) = st.reading config := read_withCap ..
  rw [step_eq, step_eq, hreading, placeAll_withCap hm hcap]

theorem placeAll_append (st : State) (pieces others : List Piece) :
    st.placeAll config (pieces ++ others) = (st.placeAll config pieces).placeAll config others :=
  List.foldl_append

theorem place_error_of_le {problem : ScanError} {width : Nat} {lexeme : String}
    (h : st.errors + 1 ≤ config.maxErrors) : st.place config (.error problem width lexeme) =
      { st with
        cursor := st.cursor.advance width
        emitted := .ofError problem lexeme (st.cursor.spanTo (st.cursor.advance width)) ::
          st.emitted
        errors := st.errors + 1 } :=
  if_neg (Nat.not_lt.2 h)

theorem place_error_of_lt {problem : ScanError} {width : Nat} {lexeme : String}
    (h : config.maxErrors < st.errors + 1) : st.place config (.error problem width lexeme) =
      { st with
        cursor := st.cursor.advance width
        emitted := .ofError (.tooManyErrors (st.errors + 1)) ""
            ((st.cursor.advance width).spanTo (st.cursor.advance width)) ::
          .ofError problem lexeme (st.cursor.spanTo (st.cursor.advance width)) :: st.emitted
        errors := st.errors + 1
        halted := true } :=
  if_pos h

/-- What is passed over is one more token or none. -/
theorem placeAll_recovers (c : Cursor) {passed : List Piece} (h : Recovers passed) :
    ∃ tokens, (tokens = [] ∨ ∃ t, tokens = [t] ∧ t.kind = .errorRecovery) ∧
      ∀ (config : ScanConfig) (st : State), st.cursor = c →
        (st.placeAll config passed).emitted = tokens ++ st.emitted ∧
        (st.placeAll config passed).halted = st.halted ∧
        ∀ s t, c.Within s → t.span.stop = c.pos →
          (st.placeAll config passed).cursor = Cursor.at s (tokens.headD t).span.stop := by
  rcases h with rfl | ⟨width, lexeme, rfl⟩
  · refine ⟨[], .inl rfl, fun config st hst => ⟨rfl, rfl, fun s t hwithin ht => ?_⟩⟩
    rw [List.headD_nil, ht, placeAll_nil, hst]
    exact hwithin.eq_at
  · let t := Token.ofKind .errorRecovery lexeme (c.spanTo (c.advance width))
    refine ⟨[t], .inr ⟨t, rfl, rfl⟩, ?_⟩
    rintro config st rfl
    exact ⟨rfl, rfl, fun s _ hwithin _ => (hwithin.advance width).eq_at⟩

/-- Every error that is counted is an error token. -/
theorem errors_le_place (h : st.errors ≤ Token.mistakes st.emitted) (piece : Piece) :
    (st.place config piece).errors ≤ Token.mistakes (st.place config piece).emitted := by
  cases piece with
  | skip width => exact h
  | token kind width lexeme => exact Nat.le_trans h (List.sublist_cons_self _ _).countP_le
  | error problem width lexeme =>
      have herror : st.errors + 1 ≤ Token.mistakes (.ofError problem lexeme
          (st.cursor.spanTo (st.cursor.advance width)) :: st.emitted) := by
        rw [Token.mistakes_cons rfl]
        exact Nat.succ_le_succ h
      unfold place
      dsimp only
      split
      · exact Nat.le_trans herror (List.sublist_cons_self _ _).countP_le
      · exact herror

theorem errors_le_placeAll (h : st.errors ≤ Token.mistakes st.emitted) (pieces : List Piece) :
    (st.placeAll config pieces).errors ≤ Token.mistakes (st.placeAll config pieces).emitted := by
  induction pieces generalizing st with
  | nil => exact h
  | cons piece rest ih => exact ih (errors_le_place h piece)

/-- The first error too many: one step under both caps, of which one is met. -/
theorem step_cut (hwithin : st.cursor.Within s) (hle : st.errors ≤ m)
    (hlt : m < (st.step config).errors) (hcap : (st.step config).errors ≤ config.maxErrors) :
    st.errors = m ∧ (st.step (config.withCap m)).halted = true ∧
      ∃ sound err passed, (∀ t ∈ sound, t.kind.isError = false) ∧ err.kind = .error ∧
        (passed = [] ∨ ∃ t, passed = [t] ∧ t.kind = .errorRecovery) ∧
        (st.step config).emitted = passed ++ err :: (sound ++ st.emitted) ∧
        (st.step (config.withCap m)).emitted = passed ++
          .ofError (.tooManyErrors (m + 1)) "" (emptySpan s err.span.stop) :: err ::
            (sound ++ st.emitted) ∧
        (st.step (config.withCap m)).cursor = Cursor.at s (passed.headD err).span.stop := by
  have hpieces : OneMistake (st.reading config).pieces :=
    oneMistake_read config st.modes.top st.afterOperand st.cursor.rest
  have hreading : st.reading (config.withCap m) = st.reading config := read_withCap ..
  rw [errors_step] at hlt hcap
  simp only [step_eq, hreading]
  generalize (st.reading config).pieces = pieces at *
  cases hpieces with
  | none hsound =>
      rw [Piece.mistakes_of_sound hsound] at hlt
      omega
  | @one front passed problem width lexeme hsound hpassed =>
      have hcount : Piece.mistakes (front ++ .error problem width lexeme :: passed) = 1 := by
        rw [Piece.mistakes_append, Piece.mistakes_of_sound hsound, Piece.mistakes, hpassed.mistakes]
      rw [hcount] at hlt hcap
      have herrors : st.errors = m := by omega
      have hfront : (st.placeAll config front).errors = m := by
        rw [errors_placeAll, Piece.mistakes_of_sound hsound, herrors, Nat.add_zero]
      have hsame : st.placeAll (config.withCap m) front = st.placeAll config front :=
        placeAll_withCap (by omega) (by omega)
      obtain ⟨sound, hemitted, hkinds, -⟩ := placeAll_sound config hsound st
      have hfrontWithin : (st.placeAll config front).cursor.Within s := by
        rw [cursor_placeAll]
        exact hwithin.advance _
      simp only [placeAll_append, placeAll_cons, hsame]
      generalize st.placeAll config front = mid at *
      have hcapped : (config.withCap m).maxErrors < mid.errors + 1 := by
        rw [hfront]
        exact Nat.lt_succ_self m
      obtain ⟨tokens, htokens, hplaced⟩ := placeAll_recovers (mid.cursor.advance width) hpassed
      have hspan : emptySpan s (mid.cursor.advance width).pos =
          (mid.cursor.advance width).spanTo (mid.cursor.advance width) := by
        rw [emptySpan, ← (hfrontWithin.advance width).eq_at]
      rw [place_error_of_lt hcapped, place_error_of_le (by omega), hfront, hemitted]
      refine ⟨herrors, (hplaced _ _ rfl).2.1, sound,
        .ofError problem lexeme (mid.cursor.spanTo (mid.cursor.advance width)), tokens, hkinds, rfl,
        htokens, (hplaced _ _ rfl).1, ?_, (hplaced _ _ rfl).2.2 s _ (hfrontWithin.advance width) rfl⟩
      rw [(hplaced _ _ rfl).1, ← hspan]
      rfl

/-- A step that meets no cap. Its tokens begin with one that is not passed over. -/
theorem step_within (hcap : (st.step config).errors ≤ config.maxErrors) :
    (st.step config).halted = st.halted ∧ ∃ added, (st.step config).emitted = added ++ st.emitted ∧
      (st.step config).errors = st.errors + Token.mistakes added ∧
      ∀ t ∈ added.getLast?, t.kind ≠ .errorRecovery := by
  have hpieces : OneMistake (st.reading config).pieces :=
    oneMistake_read config st.modes.top st.afterOperand st.cursor.rest
  rw [errors_step] at hcap ⊢
  simp only [step_eq]
  generalize (st.reading config).pieces = pieces at *
  cases hpieces with
  | none hsound =>
      obtain ⟨sound, hemitted, hkinds, hhalted⟩ := placeAll_sound config hsound st
      refine ⟨hhalted, sound, hemitted, ?_, fun t ht => ?_⟩
      · rw [Piece.mistakes_of_sound hsound,
          Token.mistakes_of_ne fun t ht => (Token.ne_of_isError (hkinds t ht)).1]
      · exact (Token.ne_of_isError (hkinds t (List.mem_of_getLast? ht))).2
  | @one front passed problem width lexeme hsound hpassed =>
      have hfront : (st.placeAll config front).errors = st.errors := by
        rw [errors_placeAll, Piece.mistakes_of_sound hsound, Nat.add_zero]
      have hcount : Piece.mistakes (front ++ .error problem width lexeme :: passed) = 1 := by
        rw [Piece.mistakes_append, Piece.mistakes_of_sound hsound, Piece.mistakes, hpassed.mistakes]
      obtain ⟨sound, hemitted, hkinds, hhalted⟩ := placeAll_sound config hsound st
      rw [hcount] at hcap ⊢
      simp only [placeAll_append, placeAll_cons]
      generalize st.placeAll config front = mid at *
      obtain ⟨tokens, htokens, hplaced⟩ := placeAll_recovers (mid.cursor.advance width) hpassed
      have hpassedOver : Token.mistakes tokens = 0 := by
        rcases htokens with rfl | ⟨t, rfl, ht⟩
        · rfl
        · exact Token.mistakes_of_ne (List.forall_mem_singleton.2 (by rw [ht]; nofun))
      let err := Token.ofError problem lexeme (mid.cursor.spanTo (mid.cursor.advance width))
      have hfirst : ∀ t ∈ err :: sound, t.kind ≠ .errorRecovery :=
        List.forall_mem_cons.2 ⟨nofun, fun t ht => (Token.ne_of_isError (hkinds t ht)).2⟩
      rw [place_error_of_le (hfront ▸ hcap), hemitted]
      refine ⟨((hplaced _ _ rfl).2.1).trans hhalted, tokens ++ err :: sound, ?_, ?_, fun t ht => ?_⟩
      · rw [(hplaced _ _ rfl).1, List.append_assoc]
        rfl
      · rw [Token.mistakes_append, hpassedOver, Token.mistakes_cons rfl,
          Token.mistakes_of_ne fun t ht => (Token.ne_of_isError (hkinds t ht)).1]
      · rw [List.getLast?_append, List.getLast?_cons, Option.some_or, ← List.getLast?_cons] at ht
        exact hfirst t (List.mem_of_getLast? ht)

end State

/-! ## Runs -/

variable {config : ScanConfig} {st final : State} {m n : Nat}

theorem Reached.within (h : Reached config s st) : st.cursor.Within s := by
  induction h with
  | start => exact ⟨0, rfl⟩
  | step _ _ ih =>
      rw [State.cursor_step]
      exact ih.advance _

/-- No more errors are counted than there are error tokens. -/
theorem Reached.errors_le (h : Reached config s st) : st.errors ≤ Token.mistakes st.emitted := by
  induction h with
  | start => exact Nat.le_refl 0
  | step _ _ ih =>
      rw [State.step_eq]
      exact State.errors_le_placeAll ih _

/-- While the cap is not met, the error tokens are counted. -/
theorem Reached.mistakes_eq (h : Reached config s st) (hcap : st.errors ≤ config.maxErrors) :
    st.halted = false ∧ Token.mistakes st.emitted = st.errors := by
  induction h with
  | start => exact ⟨rfl, rfl⟩
  | @step st _ _ ih =>
      obtain ⟨hhalted, added, hemitted, herrors, -⟩ := State.step_within hcap
      obtain ⟨hih, hcount⟩ := ih (Nat.le_trans (State.errors_le_step st) hcap)
      refine ⟨hhalted.trans hih, ?_⟩
      rw [hemitted, Token.mistakes_append, hcount, herrors, Nat.add_comm]

theorem errors_le_run (hrun : State.run config n st = some final) : st.errors ≤ final.errors := by
  induction n generalizing st with
  | zero =>
      unfold State.run at hrun
      split at hrun
      · exact Nat.le_of_eq (congrArg State.errors (Option.some.inj hrun))
      · cases hrun
  | succ n ih =>
      unfold State.run at hrun
      split at hrun
      · exact Nat.le_of_eq (congrArg State.errors (Option.some.inj hrun))
      · exact Nat.le_trans (State.errors_le_step st) (ih hrun)

/-- A run below both caps is the same run. -/
theorem run_withCap (hrun : State.run config n st = some final) (hm : final.errors ≤ m)
    (hcap : final.errors ≤ config.maxErrors) : State.run (config.withCap m) n st = some final := by
  induction n generalizing st with
  | zero => exact hrun
  | succ n ih =>
      unfold State.run at hrun ⊢
      split at hrun
      next hfinished => rwa [if_pos hfinished]
      next hfinished =>
        have hle := errors_le_run hrun
        rw [if_neg hfinished, State.step_withCap (Nat.le_trans hle hm) (Nat.le_trans hle hcap)]
        exact ih hrun

/-- What a run that meets no cap adds to the tokens. The first of it is not passed over. -/
theorem exists_added_of_run (hrun : State.run config n st = some final)
    (hcap : final.errors ≤ config.maxErrors) :
    ∃ added, final.emitted = added ++ st.emitted ∧ ∀ t ∈ added.getLast?, t.kind ≠ .errorRecovery := by
  induction n generalizing st with
  | zero =>
      unfold State.run at hrun
      split at hrun
      · exact ⟨[], congrArg State.emitted (Option.some.inj hrun).symm, by simp⟩
      · cases hrun
  | succ n ih =>
      unfold State.run at hrun
      split at hrun
      · exact ⟨[], congrArg State.emitted (Option.some.inj hrun).symm, by simp⟩
      next hfinished =>
        obtain ⟨later, hlater, hlast⟩ := ih hrun
        obtain ⟨-, added, hadded, -, hfirst⟩ :=
          State.step_within (Nat.le_trans (errors_le_run hrun) hcap)
        refine ⟨later ++ added, by rw [hlater, hadded, List.append_assoc], fun t ht => ?_⟩
        rw [List.getLast?_append] at ht
        rcases Option.or_eq_some_iff.1 ht with ht | ⟨-, ht⟩
        · exact hfirst t ht
        · exact hlast t ht

theorem run_of_finished (n : Nat) (h : st.finished = true) :
    State.run config n st = some st := by
  cases n <;> exact if_pos h

/-- A run that meets the cap ends there. -/
theorem run_cut (h : Reached config s st) (hrun : State.run config n st = some final)
    (hle : st.errors ≤ m) (hlt : m < final.errors) (hcap : final.errors ≤ config.maxErrors) :
    ∃ cut before err passed later, State.run (config.withCap m) n st = some cut ∧
      final.emitted = later ++ (passed ++ err :: before) ∧
      cut.emitted = passed ++
        .ofError (.tooManyErrors (m + 1)) "" (emptySpan s err.span.stop) :: err :: before ∧
      cut.cursor = Cursor.at s (passed.headD err).span.stop ∧
      err.kind = .error ∧ Token.mistakes before = m ∧
      (passed = [] ∨ ∃ t, passed = [t] ∧ t.kind = .errorRecovery) ∧
      ∀ t ∈ later.getLast?, t.kind ≠ .errorRecovery := by
  induction n generalizing st with
  | zero =>
      unfold State.run at hrun
      split at hrun
      · obtain rfl := Option.some.inj hrun
        omega
      · cases hrun
  | succ n ih =>
      unfold State.run at hrun ⊢
      split at hrun
      next => obtain rfl := Option.some.inj hrun; omega
      next hfinished =>
        have hstep := Nat.le_trans (errors_le_run hrun) hcap
        rw [if_neg hfinished]
        by_cases hmore : (st.step config).errors ≤ m
        · rw [State.step_withCap hmore hstep]
          exact ih (h.step (by simpa using hfinished)) hrun hmore
        · obtain ⟨herrors, hhalted, sound, err, passed, hsound, herr, hpassed, hemitted, hcut,
            hcursor⟩ := State.step_cut h.within hle (Nat.lt_of_not_le hmore) hstep
          obtain ⟨later, hlater, hlast⟩ := exists_added_of_run hrun hcap
          have hbefore : Token.mistakes (sound ++ st.emitted) = m := by
            have hst := Nat.le_trans (State.errors_le_step st) hstep
            rw [Token.mistakes_append, (h.mistakes_eq hst).2, herrors,
              Token.mistakes_of_ne fun t ht => (Token.ne_of_isError (hsound t ht)).1, Nat.zero_add]
          refine ⟨_, sound ++ st.emitted, err, passed, later,
            run_of_finished n (by rw [State.finished, hhalted, Bool.true_or]), ?_, hcut, hcursor,
            herr, hbefore, hpassed, hlast⟩
          rw [hlater, hemitted]

/-! ## Scans -/

/-- The tokens that are left when the error token `err`, which stands between `before` and `after`,
is one too many: a note says so at the end of it, what was passed over because of it follows, and
the source ends there. -/
def cutOff (s : Source) (before : List Token) (err : Token) (after : List Token) : List Token :=
  let passed := Token.passedOver after
  before ++ [err, .ofError (.tooManyErrors (Token.mistakes before + 1)) ""
    (emptySpan s err.span.stop)] ++ passed ++
      [.ofKind .eof "" (emptySpan s (passed.headD err).span.stop)]

theorem tokens_ofState (st : State) : (Scanned.ofState st).tokens =
    st.emitted.reverse ++ [.ofKind .eof "" (st.cursor.spanTo st.cursor)] :=
  List.reverse_cons

theorem mistakes_ofState (st : State) :
    Token.mistakes (Scanned.ofState st).tokens = Token.mistakes st.emitted := by
  rw [tokens_ofState, Token.mistakes_append, Token.mistakes_reverse]
  rfl

/-- If a scan meets no cap, the scan of the same source under the cap `m` gives the same tokens and
modes, as long as there are no more than `m` error tokens. Otherwise it gives the tokens up to the
first error token behind `m` others, and cuts off what comes after. -/
theorem scan_withCap (config : ScanConfig) (s : Source) (scanned : Scanned)
    (h : scan config s = some scanned) (hcap : Token.mistakes scanned.tokens ≤ config.maxErrors)
    (m : Nat) :
    (Token.mistakes scanned.tokens ≤ m → scan (config.withCap m) s = some scanned) ∧
    (m < Token.mistakes scanned.tokens → ∃ before err after modes,
      scanned.tokens = before ++ err :: after ∧ err.kind = .error ∧ Token.mistakes before = m ∧
        scan (config.withCap m) s = some ⟨cutOff s before err after, modes⟩) := by
  obtain ⟨final, hrun, rfl⟩ := Option.map_eq_some_iff.1 h
  rw [mistakes_ofState] at hcap ⊢
  have hreached := (Reached.start.run hrun).1
  have herrors := Nat.le_trans hreached.errors_le hcap
  obtain ⟨-, hcount⟩ := hreached.mistakes_eq herrors
  rw [hcount]
  refine ⟨fun hm => ?_, fun hm => ?_⟩
  · rw [scan, run_withCap hrun hm herrors]
    rfl
  · obtain ⟨cut, before, err, passed, later, hcutRun, hfinal, hcut, hcursor, herr, hbefore, hpassed,
      hlast⟩ := run_cut .start hrun (Nat.zero_le m) hm herrors
    let eof := Token.ofKind .eof "" (final.cursor.spanTo final.cursor)
    have hpassedReverse : passed.reverse = passed := by
      rcases hpassed with rfl | ⟨t, rfl, -⟩ <;> rfl
    have hfollowing : Token.passedOver (passed ++ (later.reverse ++ [eof])) = passed := by
      rcases hpassed with rfl | ⟨t, rfl, ht⟩
      · refine Token.passedOver_of_ne fun t ht => ?_
        rw [List.nil_append, List.head?_append, List.head?_reverse] at ht
        rcases Option.or_eq_some_iff.1 ht with ht | ⟨-, ht⟩
        · exact hlast t ht
        · obtain rfl := Option.some.inj ht
          nofun
      · exact if_pos ht
    refine ⟨before.reverse, err, passed ++ (later.reverse ++ [eof]), cut.modes, ?_, herr,
      (Token.mistakes_reverse before).trans hbefore, ?_⟩
    · rw [tokens_ofState, hfinal]
      simp [hpassedReverse, eof]
    · rw [scan, hcutRun]
      have htokens : (Scanned.ofState cut).tokens =
          cutOff s before.reverse err (passed ++ (later.reverse ++ [eof])) := by
        rw [tokens_ofState, hcut, hcursor, cutOff, hfollowing, Token.mistakes_reverse, hbefore]
        simp [hpassedReverse, emptySpan]
      rw [← htokens]
      rfl

/-- Two errors, of which the first is followed by a mark that is passed over. -/
def strayMarks : Source := Source.ofString "## #"

theorem scan_withCap_strayMarks : ∃ scanned, scan {} strayMarks = some scanned ∧
    scanned.tokens.map Token.kind = [.error, .errorRecovery, .error, .eof] ∧
    Token.mistakes scanned.tokens ≤ 1000 ∧
    (∃ before err after modes, scanned.tokens = before ++ err :: after ∧ err.kind = .error ∧
      Token.mistakes before = 0 ∧
      scan (ScanConfig.withCap {} 0) strayMarks = some ⟨cutOff strayMarks before err after, modes⟩) ∧
    (scan (ScanConfig.withCap {} 0) strayMarks).map (fun r => r.tokens.map Token.kind) =
      some [.error, .error, .errorRecovery, .eof] := by
  obtain ⟨scanned, hscan⟩ := Option.isSome_iff_exists.mp
    (show (scan {} strayMarks).isSome = true by decide)
  have hkinds : scanned.tokens.map Token.kind = [.error, .errorRecovery, .error, .eof] := by
    have hsome := congrArg (Option.map fun r => r.tokens.map Token.kind) hscan
    exact (Option.some.inj hsome).symm.trans (by decide)
  have hcount : Token.mistakes scanned.tokens = 2 := by
    have hsome := congrArg (Option.map fun r => Token.mistakes r.tokens) hscan
    exact (Option.some.inj hsome).symm.trans (by decide)
  have hcap : Token.mistakes scanned.tokens ≤ 1000 := by
    rw [hcount]
    decide
  exact ⟨scanned, hscan, hkinds, hcap,
    (scan_withCap {} strayMarks scanned hscan hcap 0).2 (by rw [hcount]; decide), by decide⟩

end Scan

end ComponentLang
