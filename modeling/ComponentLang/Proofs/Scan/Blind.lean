import ComponentLang.Scan.Read
import Mathlib.Data.List.Forall2

/-!
# Letters in another case

What a scan asks of the units that are still to come is blind to the case of letters: whether a
letter or a mark is next, how far a class of characters goes, how wide a name or a number is. So
sources that are alike but for the case of letters give the same answers.
-/
namespace ComponentLang

/-- The unit with a letter of ASCII in lower case. -/
def SourceUnit.lower : SourceUnit → SourceUnit
  | .char c => .char c.toLower
  | .invalid b => .invalid b

namespace Source

/-- Unit by unit the sources are the same but for the case of letters of ASCII. -/
abbrev Alike : Source → Source → Prop := List.Forall₂ fun u u' => u'.lower = u.lower

theorem alike_iff {s s' : Source} :
    Alike s s' ↔ s'.map SourceUnit.lower = s.map SourceUnit.lower := by
  rw [← List.forall₂_eq_eq_eq, List.forall₂_map_left_iff, List.forall₂_map_right_iff]
  exact ⟨List.Forall₂.flip, List.Forall₂.flip⟩

/-- The class does not tell the cases of a letter apart. -/
def Blind (p : Char → Bool) : Prop := ∀ c : Char, p c.toLower = p c

/-! ## Blind classes -/

/-- The letters of ASCII in upper case. -/
def upperLetters : List Char := (List.range' 65 26).map Char.ofNat

theorem toLower_of_not_upper {c : Char} (h : c ∉ upperLetters) : c.toLower = c := by
  unfold Char.toLower
  split
  next hupper =>
    refine absurd ?_ h
    have hfirst : 65 ≤ c.toNat := hupper.1
    have hlast : c.toNat ≤ 90 := hupper.2
    exact List.mem_map.2 ⟨c.toNat, List.mem_range'_1.2 (by omega), Char.ofNat_toNat c⟩
  next => rfl

section Classes

variable {p q : Char → Bool}

theorem blind_of_upper (h : (upperLetters.all fun c => p c.toLower == p c) = true) : Blind p := by
  intro c
  by_cases hc : c ∈ upperLetters
  · exact eq_of_beq (List.all_eq_true.1 h c hc)
  · rw [toLower_of_not_upper hc]

theorem Blind.eq (hp : Blind p) {c c' : Char} (h : c'.toLower = c.toLower) : p c' = p c := by
  rw [← hp c', h, hp c]

theorem blind_isAlpha : Blind Char.isAlpha := blind_of_upper rfl

theorem blind_isAlphanum : Blind Char.isAlphanum := blind_of_upper rfl

theorem blind_isDigit : Blind Char.isDigit := blind_of_upper rfl

theorem blind_isNameStart : Blind Scan.isNameStart := blind_of_upper rfl

theorem blind_isWordChar : Blind Scan.isWordChar := blind_of_upper rfl

theorem blind_isSpacing : Blind Scan.isSpacing := blind_of_upper rfl

theorem blind_isBlank : Blind Text.isBlank := blind_of_upper rfl

theorem blind_isTextChar : Blind Scan.isTextChar := blind_of_upper rfl

theorem blind_isHexDigit : Blind Scan.isHexDigit := blind_of_upper rfl

theorem blind_isBinaryDigit : Blind Scan.isBinaryDigit := blind_of_upper rfl

/-- A single character is a blind class if it is no letter. -/
theorem blind_single {d : Char} (hd : d.isAlpha = false) : Blind (· == d) := by
  intro c
  by_cases hc : c.toLower = c
  · rw [hc]
  · have hupper : c.isAlpha = true := by
      by_contra hno
      refine hc (toLower_of_not_upper fun hmem => hno ?_)
      exact List.all_eq_true.1 (show upperLetters.all Char.isAlpha = true from rfl) c hmem
    have hlower : c.toLower.isAlpha = true := (blind_isAlpha c).trans hupper
    show (c.toLower == d) = (c == d)
    rw [beq_false_of_ne, beq_false_of_ne]
    · rintro rfl
      rw [hupper] at hd
      cases hd
    · intro heq
      rw [heq, hd] at hlower
      cases hlower

end Classes

/-! ## What comes next -/

section Ahead

variable {p : Char → Bool} {s s' : Source} {u u' : SourceUnit} {c c' : Char}

theorem exists_char_of_alike (h : u'.lower = (SourceUnit.char c).lower) :
    ∃ c', u' = .char c' ∧ c'.toLower = c.toLower := by
  cases u' with
  | char c' => exact ⟨c', rfl, SourceUnit.char.inj h⟩
  | invalid b' => cases h

theorem eq_invalid_of_alike {b : UInt8} (h : u'.lower = (SourceUnit.invalid b).lower) :
    u' = .invalid b := by
  cases u' with
  | char c' => cases h
  | invalid b' => exact h

theorem satisfies_of_alike (hp : Blind p) (h : u'.lower = u.lower) :
    u'.satisfies p = u.satisfies p := by
  cases u with
  | char c =>
      obtain ⟨c', rfl, hlower⟩ := exists_char_of_alike h
      exact hp.eq hlower
  | invalid b => rw [eq_invalid_of_alike h]

theorem frontIs_of_alike (hp : Blind p) (h : Alike s s') : frontIs p s' = frontIs p s := by
  cases h with
  | nil => rfl
  | cons hu _ => exact satisfies_of_alike hp hu

theorem run_of_alike (hp : Blind p) (h : Alike s s') : run p s' = run p s := by
  induction h with
  | nil => rfl
  | cons hu _ ih => rw [run, run, satisfies_of_alike hp hu, ih]

theorem upTo_of_alike (hp : Blind p) (h : Alike s s') : upTo p s' = upTo p s := by
  induction h with
  | nil => rfl
  | cons hu _ ih => rw [upTo, upTo, satisfies_of_alike hp hu, ih]

/-- What is no letter is the same in both sources. -/
theorem eq_of_not_isAlpha (h : c'.toLower = c.toLower) (hc : c.isAlpha = false) : c' = c := by
  have hsame := (blind_single hc).eq h
  rw [beq_self_eq_true, beq_iff_eq] at hsame
  exact hsame

theorem Alike.drop (h : Alike s s') (n : Nat) : Alike (s.drop n) (s'.drop n) :=
  List.forall₂_drop n h

end Ahead

end Source

namespace Scan

open Source

variable {config : ScanConfig} {s s' : Source}

theorem nameWidth_of_alike (h : Alike s s') : nameWidth s' = nameWidth s := by
  induction h with
  | nil => rfl
  | @cons u u' s s' hu hs ih =>
      cases u with
      | char c =>
          obtain ⟨c', rfl, hlower⟩ := exists_char_of_alike hu
          have hhyphen : (c' == '-') = (c == '-') := (blind_single (d := '-') rfl).eq hlower
          rw [nameWidth, nameWidth, blind_isWordChar.eq hlower, hhyphen,
            frontIs_of_alike blind_isAlphanum hs, ih]
      | invalid b =>
          rw [eq_invalid_of_alike hu]
          rfl

/-! ### Comments and styles -/

theorem satisfies_single_iff {u : SourceUnit} {d : Char} :
    u.satisfies (· == d) = true ↔ u = .char d := by
  cases u with
  | char c => simp
  | invalid b => simp

theorem frontIs_single_iff {d : Char} :
    frontIs (· == d) s = true ↔ ∃ tail, s = .char d :: tail := by
  cases s with
  | nil => simp [frontIs]
  | cons u rest =>
      rw [frontIs, satisfies_single_iff]
      simp

theorem blockCommentWidth_cons (u : SourceUnit) (rest : Source) :
    blockCommentWidth (u :: rest) =
      if u.satisfies (· == '*') && frontIs (· == '/') rest then 2
      else blockCommentWidth rest + 1 := by
  split
  next hend =>
    rw [Bool.and_eq_true, satisfies_single_iff, frontIs_single_iff] at hend
    obtain ⟨rfl, tail, rfl⟩ := hend
    rfl
  next hend =>
    rw [blockCommentWidth]
    rintro tail rfl rfl
    exact hend rfl

theorem blockCommentWidth_of_alike (h : Alike s s') :
    blockCommentWidth s' = blockCommentWidth s := by
  induction h with
  | nil => rfl
  | cons hu hs ih =>
      rw [blockCommentWidth_cons, blockCommentWidth_cons, satisfies_of_alike (blind_single rfl) hu,
        frontIs_of_alike (blind_single rfl) hs, ih]

theorem styleWidth_cons (u : SourceUnit) (rest : Source) :
    styleWidth (u :: rest) =
      if u.satisfies (· == '>') || u.satisfies (· == '/') && frontIs (· == '>') rest then 0
      else styleWidth rest + 1 := by
  split
  next hend =>
    rw [Bool.or_eq_true, Bool.and_eq_true, satisfies_single_iff, satisfies_single_iff,
      frontIs_single_iff] at hend
    obtain rfl | ⟨rfl, tail, rfl⟩ := hend
    · rfl
    · rfl
  next hend =>
    rw [styleWidth]
    · rintro rfl
      exact hend rfl
    · rintro tail rfl rfl
      exact hend rfl

theorem styleWidth_of_alike (h : Alike s s') : styleWidth s' = styleWidth s := by
  induction h with
  | nil => rfl
  | cons hu hs ih =>
      rw [styleWidth_cons, styleWidth_cons, satisfies_of_alike (blind_single rfl) hu,
        satisfies_of_alike (blind_single rfl) hu, frontIs_of_alike (blind_single rfl) hs, ih]

theorem commentWidth?_eq (s : Source) :
    commentWidth? s =
      if frontIs (· == '/') s then some (upTo (· == '\n') (s.drop 1) + 2)
      else if frontIs (· == '*') s then some (blockCommentWidth (s.drop 1) + 2)
      else none := by
  split
  next hline =>
    obtain ⟨tail, rfl⟩ := frontIs_single_iff.1 hline
    rfl
  next hline =>
    split
    next hblock =>
      obtain ⟨tail, rfl⟩ := frontIs_single_iff.1 hblock
      rfl
    next hblock =>
      unfold commentWidth?
      split
      · exact absurd rfl hline
      · exact absurd rfl hblock
      · rfl

theorem commentWidth?_of_alike (h : Alike s s') : commentWidth? s' = commentWidth? s := by
  rw [commentWidth?_eq, commentWidth?_eq, frontIs_of_alike (blind_single rfl) h,
    frontIs_of_alike (blind_single rfl) h, upTo_of_alike (blind_single rfl) (h.drop 1),
    blockCommentWidth_of_alike (h.drop 1)]

/-! ### Numbers -/

theorem baseDigits?_eq (s : Source) :
    baseDigits? s =
      if frontIs (· == '0') s then
        if frontIs (fun c => c == 'x' || c == 'X') (s.drop 1) then some isHexDigit
        else if frontIs (fun c => c == 'b' || c == 'B') (s.drop 1) then some isBinaryDigit
        else none
      else none := by
  split
  next hzero =>
    obtain ⟨tail, rfl⟩ := frontIs_single_iff.1 hzero
    cases tail with
    | nil => rfl
    | cons u tail => cases u <;> rfl
  next hzero =>
    unfold baseDigits?
    split
    · exact absurd rfl hzero
    · rfl

theorem baseDigits?_of_alike (h : Alike s s') : baseDigits? s' = baseDigits? s := by
  have hhex : Blind fun c => c == 'x' || c == 'X' := blind_of_upper rfl
  have hbinary : Blind fun c => c == 'b' || c == 'B' := blind_of_upper rfl
  rw [baseDigits?_eq, baseDigits?_eq, frontIs_of_alike (blind_single rfl) h,
    frontIs_of_alike hhex (h.drop 1), frontIs_of_alike hbinary (h.drop 1)]

theorem blind_of_baseDigits? {isDigit : Char → Bool} (h : baseDigits? s = some isDigit) :
    Blind isDigit := by
  rw [baseDigits?_eq] at h
  split at h
  · split at h
    · cases h
      exact blind_isHexDigit
    · split at h
      · cases h
        exact blind_isBinaryDigit
      · cases h
  · cases h

theorem fractionWidth_eq (s : Source) :
    fractionWidth s =
      if frontIs (· == '.') s && frontIs Char.isDigit (s.drop 1) then
        run Char.isDigit (s.drop 1) + 1
      else 0 := by
  unfold fractionWidth
  split
  · rfl
  next hpoint =>
    rw [if_neg]
    intro hboth
    obtain ⟨tail, rfl⟩ := frontIs_single_iff.1 (Bool.and_eq_true_iff.1 hboth).1
    exact hpoint tail rfl

theorem fractionWidth_of_alike (h : Alike s s') : fractionWidth s' = fractionWidth s := by
  rw [fractionWidth_eq, fractionWidth_eq, frontIs_of_alike (blind_single rfl) h,
    frontIs_of_alike blind_isDigit (h.drop 1), run_of_alike blind_isDigit (h.drop 1)]

theorem exponentWidth_of_alike (h : Alike s s') : exponentWidth s' = exponentWidth s := by
  have hletter : Blind fun c => c == 'e' || c == 'E' := blind_of_upper rfl
  have hsign : Blind fun d => d == '+' || d == '-' := blind_of_upper rfl
  cases h with
  | nil => rfl
  | @cons u u' s s' hu hs =>
      cases u with
      | char c =>
          obtain ⟨c', rfl, hlower⟩ := exists_char_of_alike hu
          unfold exponentWidth
          dsimp only
          rw [hletter.eq hlower, frontIs_of_alike hsign hs,
            frontIs_of_alike blind_isDigit (Alike.drop hs _),
            run_of_alike blind_isDigit (Alike.drop hs _)]
      | invalid b =>
          rw [eq_invalid_of_alike hu]
          rfl

theorem numberShape?_of_alike (h : Alike s s') :
    numberShape? config s' = numberShape? config s := by
  unfold numberShape?
  rw [baseDigits?_of_alike h]
  split
  next isDigit hbase =>
    rw [run_of_alike (blind_of_baseDigits? hbase) (h.drop 2)]
  next =>
    dsimp only
    rw [run_of_alike blind_isDigit h, fractionWidth_of_alike (h.drop _),
      exponentWidth_of_alike (h.drop _)]

end Scan

end ComponentLang
