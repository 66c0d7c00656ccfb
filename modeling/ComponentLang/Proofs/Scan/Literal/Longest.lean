import ComponentLang.Proofs.Scan.Literal

/-!
# The longest number

A scan takes the longest number at a place, though it looks no more than two units ahead: a run of
digits that does not reach as far as it can is followed by a digit, and no other part of a number
begins with one. A letter, a digit or an underscore behind the longest number spoils it.
-/
namespace ComponentLang.Scan
open Source

/-- The longest number that the source begins with. -/
structure LongestNumber (config : ScanConfig) (s : Source) (kind : NumberKind)
    (text : List Char) : Prop where
  number : Number config kind text
  starts : s.StartsWith text
  longest : ∀ kind' text', Number config kind' text' → s.StartsWith text' →
    text'.length ≤ text.length

variable {config : ScanConfig} {kind kind' : NumberKind} {s : Source}
  {text text' fraction exponent : List Char} {c : Char}

theorem LongestNumber.unique (h : LongestNumber config s kind text)
    (h' : LongestNumber config s kind' text') : kind = kind' ∧ text = text' := by
  have hlength : text.length = text'.length :=
    Nat.le_antisymm (h'.longest _ _ h.number h.starts) (h.longest _ _ h'.number h'.starts)
  obtain rfl := h.starts.eq_of_length h'.starts hlength
  exact ⟨h.number.kind_unique h'.number, rfl⟩

/-! ## The number that is read -/

/-- A base without digits leaves the zero for a number, and its letter goes on as a word. -/
theorem longestNumber_zero (h : numberShape? config s = none) :
    LongestNumber config s .int ['0'] ∧ frontIs isWordChar (s.drop 1) = true := by
  unfold numberShape? at h
  split at h
  next isDigit hbase =>
    dsimp only at h
    split at h
    next hnone =>
      obtain ⟨letter, rest, hletter, hs⟩ := baseDigits?_eq_some_iff.1 hbase
      refine ⟨⟨?_, ?_, fun kind' text' hnumber hstarts => ?_⟩, ?_⟩
      · have hzero : Digits Char.isDigit ['0'] := ⟨nofun, List.forall_mem_singleton.2 rfl⟩
        exact .decimal hzero .none .none (fun h => (h rfl).elim)
      · rw [hs]
        exact startsWith_cons.2 ⟨_, rfl, startsWith_nil _⟩
      · rcases hnumber.length_le_of_base hstarts hbase with hle | ⟨hpos, -⟩
        · exact hle
        · omega
      · rw [hs]
        exact hletter.isWordChar
    next => cases h
  next => cases h

theorem longestNumber_of_base {isDigit : Char → Bool} (hbase : baseDigits? s = some isDigit)
    (hpos : 0 < run isDigit (s.drop 2)) :
    ∃ text, LongestNumber config s .int text ∧ text.length = run isDigit (s.drop 2) + 2 := by
  obtain ⟨letter, rest, hletter, rfl⟩ := baseDigits?_eq_some_iff.1 hbase
  obtain ⟨digits, hstarts, hlength, hdigits, -⟩ := exists_run isDigit rest
  have hne : digits ≠ [] := by
    rw [← List.length_pos_iff, hlength]
    exact hpos
  refine ⟨'0' :: letter :: digits, ⟨.inBase hletter ⟨hne, hdigits⟩, ?_, ?_⟩, ?_⟩
  · exact startsWith_cons.2 ⟨_, rfl, startsWith_cons.2 ⟨rest, rfl, hstarts⟩⟩
  · intro kind' text' hnumber hstarts'
    rw [List.length_cons, List.length_cons, hlength]
    rcases hnumber.length_le_of_base hstarts' hbase with hle | ⟨-, hle⟩
    · omega
    · exact hle
  · rw [List.length_cons, List.length_cons, hlength]
    rfl

/-- The width of the exponent that is read where one may stand. -/
def exponentReach (config : ScanConfig) (s : Source) : Nat :=
  if config.scientificNotation then exponentWidth s else 0

theorem exists_exponentReach (config : ScanConfig) (s : Source) :
    ∃ exponent, Exponent exponent ∧ (exponent ≠ [] → config.scientificNotation = true) ∧
      s.StartsWith exponent ∧ exponent.length = exponentReach config s := by
  unfold exponentReach
  split
  next hon =>
    obtain ⟨exponent, hexponent, hstarts, hlength⟩ := exists_exponent s
    exact ⟨exponent, hexponent, fun _ => hon, hstarts, hlength⟩
  next => exact ⟨[], .none, fun hne => (hne rfl).elim, startsWith_nil s, rfl⟩

theorem length_le_exponentReach (h : Exponent exponent)
    (hon : exponent ≠ [] → config.scientificNotation = true) (hs : s.StartsWith exponent) :
    exponent.length ≤ exponentReach config s := by
  by_cases hnil : exponent = []
  · rw [hnil]
    exact Nat.zero_le _
  · rw [exponentReach, if_pos (hon hnil)]
    exact length_le_exponentWidth h hs

theorem length_le_of_decimal {whole : List Char} (hwhole : Digits Char.isDigit whole)
    (hfraction : Fraction fraction) (hexponent : Exponent exponent)
    (hon : exponent ≠ [] → config.scientificNotation = true)
    (hs : s.StartsWith (whole ++ (fraction ++ exponent))) :
    (whole ++ (fraction ++ exponent)).length ≤
      run Char.isDigit s + fractionWidth (s.drop (run Char.isDigit s)) +
        exponentReach config
          (s.drop (run Char.isDigit s + fractionWidth (s.drop (run Char.isDigit s)))) := by
  obtain ⟨hstarts, hafter⟩ := startsWith_append.1 hs
  rw [List.length_append]
  cases hparts : fraction ++ exponent with
  | nil =>
      have hrun := length_le_run hstarts hwhole.2
      rw [List.length_nil]
      omega
  | cons c more =>
      -- The digits end where a fraction or an exponent begins.
      have hc : c.isDigit = false := by
        rcases head_fraction_exponent hfraction hexponent hparts with rfl | rfl | rfl <;> rfl
      have hrun : run Char.isDigit s = whole.length :=
        run_of_startsWith_append (hparts ▸ hs) hwhole.2 hc
      rw [← hparts, hrun, List.length_append]
      rcases length_fraction hfraction hexponent hafter with hlength | ⟨hnil, hlength⟩
      · have hlast := (startsWith_append.1 hafter).2
        rw [List.drop_drop, hlength] at hlast
        have hexponent := length_le_exponentReach hexponent hon hlast
        omega
      · rw [hnil, List.length_nil]
        omega

theorem longestNumber_of_decimal (hfront : frontIs Char.isDigit s = true)
    (hbase : baseDigits? s = none) {fractionLength exponentLength : Nat}
    (hfractionLength : fractionLength = fractionWidth (s.drop (run Char.isDigit s)))
    (hexponentLength : exponentLength =
      exponentReach config (s.drop (run Char.isDigit s + fractionLength))) :
    ∃ text, LongestNumber config s
        (if fractionLength + exponentLength = 0 then .int else .float) text ∧
      text.length = run Char.isDigit s + fractionLength + exponentLength := by
  obtain ⟨whole, hwhole, hstarts, hlength⟩ := exists_digits hfront
  obtain ⟨fraction, hfraction, hstartsF, hlengthF⟩ :=
    exists_fraction (s.drop (run Char.isDigit s))
  obtain ⟨exponent, hexponent, hon, hstartsE, hlengthE⟩ :=
    exists_exponentReach config (s.drop (run Char.isDigit s + fractionLength))
  rw [← hfractionLength] at hlengthF
  rw [← hexponentLength] at hlengthE
  have hnumber := Number.decimal hwhole hfraction hexponent hon
  have hkind : fraction ++ exponent = [] ↔ fractionLength + exponentLength = 0 := by
    rw [← List.length_eq_zero_iff, List.length_append, hlengthF, hlengthE]
  simp only [hkind] at hnumber
  have htotal : (whole ++ (fraction ++ exponent)).length =
      run Char.isDigit s + fractionLength + exponentLength := by
    rw [List.length_append, List.length_append, hlength, hlengthF, hlengthE, Nat.add_assoc]
  refine ⟨_, ⟨hnumber, ?_, fun kind' text' hnumber' hstarts' => ?_⟩, htotal⟩
  · rw [startsWith_append, startsWith_append, List.drop_drop, hlength, hlengthF]
    exact ⟨hstarts, hstartsF, hstartsE⟩
  · cases hnumber' with
    | inBase hletter hdigits =>
        obtain ⟨rest, rfl, hrest⟩ := startsWith_cons.1 hstarts'
        obtain ⟨rest, rfl, -⟩ := startsWith_cons.1 hrest
        rw [baseDigits?_eq_some_iff.2 ⟨_, rest, hletter, rfl⟩] at hbase
        cases hbase
    | decimal hwhole' hfraction' hexponent' hon' =>
        have hle := length_le_of_decimal hwhole' hfraction' hexponent' hon' hstarts'
        rw [← hfractionLength, ← hexponentLength] at hle
        rw [htotal]
        exact hle

/-- The number that is read is one, and no number is longer. -/
theorem longestNumber_of_numberShape? {width : Nat} (hfront : frontIs Char.isDigit s = true)
    (h : numberShape? config s = some (kind, width)) :
    ∃ text, LongestNumber config s kind text ∧ text.length = width := by
  unfold numberShape? at h
  split at h
  next isDigit hbase =>
    dsimp only at h
    split at h
    next => cases h
    next hsome =>
      cases h
      exact longestNumber_of_base hbase (Nat.pos_of_ne_zero hsome)
  next hbase =>
    cases h
    exact longestNumber_of_decimal hfront hbase rfl rfl

/-! ## Numbers in a scan -/

/-- What goes on as a word is wrong up to the end of the word. -/
theorem malformedNumber_eq {width : Nat} {tail : Source} (hwidth : width ≤ text.length)
    (hword : ∀ c ∈ text.drop width, isWordChar c = true) (htail : frontIs isWordChar tail = false) :
    malformedNumber width (text.map .char ++ tail) =
      .error (.malformedNumber (String.ofList text)) text.length (String.ofList text) := by
  have hdrop : (text.map SourceUnit.char ++ tail).drop width =
      (text.drop width).map .char ++ tail := by
    rw [List.drop_append_of_le_length (by simpa using hwidth), List.map_drop]
  have hrun : run isWordChar ((text.drop width).map .char ++ tail) = text.length - width := by
    rw [run_of_startsWith (List.prefix_append _ _) hword, List.drop_left' (List.length_map _),
      run_eq_zero htail, List.length_drop, Nat.add_zero]
  unfold malformedNumber
  dsimp only
  rw [hdrop, hrun, Nat.add_sub_cancel' hwidth, List.take_left' (List.length_map _), text_map]

theorem readNumber_of_longest (hfront : frontIs Char.isDigit s = true)
    (h : LongestNumber config s kind text) :
    (frontIs isWordChar (s.drop text.length) = false →
      readNumber config s = .token (.number kind) text.length (String.ofList text)) ∧
    (frontIs isWordChar (s.drop text.length) = true →
      ∃ word tail, s = (text ++ word).map .char ++ tail ∧ (∀ c ∈ word, isWordChar c = true) ∧
        frontIs isWordChar tail = false ∧
        readNumber config s = .error (.malformedNumber (String.ofList (text ++ word)))
          (text ++ word).length (String.ofList (text ++ word))) := by
  obtain ⟨word, hstarts, hlength, hword, htail⟩ := exists_run isWordChar (s.drop text.length)
  rw [← hlength, List.drop_drop, ← List.length_append] at htail
  have heq := (startsWith_append.2 ⟨h.starts, hstarts⟩).eq_append
  cases hshape : numberShape? config s with
  | none =>
      -- The letter of the base is the first of the word after the zero.
      obtain ⟨hzero, hletter⟩ := longestNumber_zero hshape
      obtain ⟨rfl, rfl⟩ := h.unique hzero
      have hread : readNumber config s = malformedNumber 2 s := by
        rw [readNumber, hshape]
      have hpos := run_pos_of_frontIs hletter
      have hwidth : 2 ≤ (['0'] ++ word).length := by
        rw [List.length_append, hlength]
        exact Nat.add_le_add_left hpos 1
      refine ⟨fun hnot => (nomatch hletter.symm.trans hnot), fun _ => ?_⟩
      refine ⟨word, _, heq, hword, htail, ?_⟩
      have hmalformed := malformedNumber_eq hwidth
        (fun c hc => hword c (List.mem_of_mem_drop hc)) htail
      rw [← heq] at hmalformed
      rw [hread, hmalformed]
  | some shape =>
      obtain ⟨kind', width⟩ := shape
      obtain ⟨text', hlongest, rfl⟩ := longestNumber_of_numberShape? hfront hshape
      obtain ⟨rfl, rfl⟩ := h.unique hlongest
      have hread : readNumber config s =
          if frontIs isWordChar (s.drop text.length) then malformedNumber text.length s
          else .verbatim (.number kind) text.length s := by
        rw [readNumber, hshape]
      constructor
      · intro hnot
        rw [hread, hnot, if_neg Bool.false_ne_true, Reading.verbatim, h.starts.take, text_map]
      · intro hgoes
        refine ⟨word, _, heq, hword, htail, ?_⟩
        have hwidth : text.length ≤ (text ++ word).length := by
          rw [List.length_append]
          exact Nat.le_add_right _ _
        have hmalformed := malformedNumber_eq hwidth
          (by rw [List.drop_left]; exact hword) htail
        rw [← heq] at hmalformed
        rw [hread, if_pos hgoes, hmalformed]

/-- Where a digit begins a literal, there is a longest number, and the next step makes one token of
it if no word goes on there. If one does, the number and all of the word are one malformed number,
and a note follows if that is one error too many. -/
theorem step_digit (config : ScanConfig) (st : State) {rest : Source}
    (hmode : st.modes.top.holdsLiterals = true) (hrest : st.cursor.rest = .char c :: rest)
    (hc : c.isDigit = true) :
    (∃ kind text, LongestNumber config st.cursor.rest kind text) ∧
    ∀ kind text, LongestNumber config st.cursor.rest kind text →
      (frontIs isWordChar (st.cursor.rest.drop text.length) = false →
        (st.step config).cursor = st.cursor.advance text.length ∧
        (st.step config).emitted = .ofKind (.number kind) (String.ofList text)
          (st.cursor.spanTo (st.step config).cursor) :: st.emitted) ∧
      (frontIs isWordChar (st.cursor.rest.drop text.length) = true →
        ∃ word tail, st.cursor.rest = (text ++ word).map .char ++ tail ∧
          (∀ c ∈ word, isWordChar c = true) ∧ frontIs isWordChar tail = false ∧
          (st.step config).cursor = st.cursor.advance (text ++ word).length ∧
          (st.step config).emitted = st.note config (st.step config).cursor ++
            .ofError (.malformedNumber (String.ofList (text ++ word)))
              (String.ofList (text ++ word)) (st.cursor.spanTo (st.step config).cursor) ::
              st.emitted) := by
  have hfront : frontIs Char.isDigit st.cursor.rest = true := by
    rw [hrest]
    exact hc
  have hreading : st.reading config = readNumber config st.cursor.rest :=
    State.reading_of_digit hmode hrest hc
  constructor
  · cases hshape : numberShape? config st.cursor.rest with
    | none => exact ⟨_, _, (longestNumber_zero hshape).1⟩
    | some shape =>
        obtain ⟨text, hlongest, -⟩ := longestNumber_of_numberShape? hfront hshape
        exact ⟨_, text, hlongest⟩
  · intro kind text hlongest
    obtain ⟨hends, hgoes⟩ := readNumber_of_longest hfront hlongest
    constructor
    · intro hnot
      have hstep := State.step_of_piece (hreading.trans (hends hnot))
      rw [hstep]
      exact ⟨rfl, rfl⟩
    · intro hword
      obtain ⟨word, tail, heq, hall, htail, hread⟩ := hgoes hword
      have hstep := State.step_of_piece (hreading.trans hread)
      refine ⟨word, tail, heq, hall, htail, ?_⟩
      rw [hstep, State.cursor_place]
      exact ⟨rfl, State.emitted_place_error _ _ _⟩

/-- `1.5e+` -/
def danglingExponent : Source := .ofString "1.5e+"

/-- An exponent without digits is no part of the number, and its letter makes a word of it. -/
theorem step_digit_danglingExponent :
    (State.start danglingExponent).modes.top.holdsLiterals = true ∧
      '1'.isDigit = true ∧
      LongestNumber {} danglingExponent .float ['1', '.', '5'] ∧
      frontIs isWordChar (danglingExponent.drop 3) = true ∧
      ∃ word tail, danglingExponent = (['1', '.', '5'] ++ word).map .char ++ tail ∧
        (∀ c ∈ word, isWordChar c = true) ∧ frontIs isWordChar tail = false ∧
        ((State.start danglingExponent).step {}).cursor =
          (State.start danglingExponent).cursor.advance (['1', '.', '5'] ++ word).length ∧
        ((State.start danglingExponent).step {}).emitted =
          (State.start danglingExponent).note {} ((State.start danglingExponent).step {}).cursor ++
            [.ofError (.malformedNumber (String.ofList (['1', '.', '5'] ++ word)))
              (String.ofList (['1', '.', '5'] ++ word))
              ((State.start danglingExponent).cursor.spanTo
                ((State.start danglingExponent).step {}).cursor)] := by
  have hlongest : LongestNumber {} danglingExponent .float ['1', '.', '5'] := by
    have hshape : numberShape? {} danglingExponent = some (.float, 3) := by decide
    obtain ⟨text, hlongest, hlength⟩ := longestNumber_of_numberShape? rfl hshape
    have hstarts : danglingExponent.StartsWith ['1', '.', '5'] := ⟨Source.ofString "e+", rfl⟩
    rw [← hlongest.starts.eq_of_length hstarts hlength]
    exact hlongest
  exact ⟨rfl, rfl, hlongest, rfl,
    ((step_digit {} (State.start danglingExponent) rfl rfl rfl).2 _ _ hlongest).2 rfl⟩

end ComponentLang.Scan
