import ComponentLang.Proofs.Scan.Blind

/-!
# A blank put into a source

A reading that ends before a blank, or where the blank stands, does not look past it: names,
numbers, marks and runs of characters end at a blank at the latest. So widths that reach no further
than the place of the blank are the same with the blank and without. Only what ends at the end of a
line or of a tag may take the blank in.
-/
namespace ComponentLang.Scan

open Source

/-- The second source is the first with the blank `c` put in after `n` units. -/
inductive Gap (c : Char) : Nat → Source → Source → Prop
  | here (s : Source) : isSpacing c = true → Gap c 0 s (.char c :: s)
  | cons (u : SourceUnit) {n : Nat} {s s' : Source} :
      Gap c n s s' → Gap c (n + 1) (u :: s) (u :: s')

/-- The class has none of the blanks that separate tokens. -/
def Blankless (p : Char → Bool) : Prop := ∀ c : Char, isSpacing c = true → p c = false

section Classes

variable {p : Char → Bool}

theorem isSpacing_iff {c : Char} : isSpacing c = true ↔ c ∈ [' ', '\t', '\r', '\n'] := by
  simp [isSpacing, or_assoc]

theorem blankless_of_all (h : ([' ', '\t', '\r', '\n'].all fun c => !p c) = true) :
    Blankless p := fun c hc => by
  simpa using List.all_eq_true.1 h c (isSpacing_iff.1 hc)

theorem blankless_isAlpha : Blankless Char.isAlpha := blankless_of_all rfl

theorem blankless_isAlphanum : Blankless Char.isAlphanum := blankless_of_all rfl

theorem blankless_isDigit : Blankless Char.isDigit := blankless_of_all rfl

theorem blankless_isWordChar : Blankless isWordChar := blankless_of_all rfl

theorem blankless_isTextChar : Blankless isTextChar := blankless_of_all rfl

/-- A single character that is no blank. -/
theorem blankless_single {d : Char} (hd : isSpacing d = false) : Blankless (· == d) := by
  intro c hc
  rw [beq_eq_false_iff_ne]
  rintro rfl
  rw [hc] at hd
  cases hd

theorem isBlank_of_isSpacing {c : Char} (hc : isSpacing c = true) : Text.isBlank c = true :=
  List.all_eq_true.1 (show [' ', '\t', '\r', '\n'].all Text.isBlank = true from rfl) c
    (isSpacing_iff.1 hc)

end Classes

theorem run_pos_of_frontIs {p : Char → Bool} {s : Source} (h : frontIs p s = true) :
    0 < run p s := by
  cases s with
  | nil => cases h
  | cons u rest =>
      have hu : u.satisfies p = true := h
      rw [run, if_pos hu]
      exact Nat.succ_pos _

theorem frontIs_mono {p q : Char → Bool} {s : Source} (hpq : ∀ c : Char, p c = true → q c = true)
    (h : frontIs p s = true) : frontIs q s = true := by
  cases s with
  | nil => cases h
  | cons u rest =>
      cases u with
      | invalid b => cases h
      | char c => exact hpq c h

theorem isWordChar_of_isAlphanum {c : Char} (h : c.isAlphanum = true) : isWordChar c = true :=
  Bool.or_eq_true_iff.2 (.inl h)

theorem isWordChar_of_isAlpha {c : Char} (h : c.isAlpha = true) : isWordChar c = true :=
  isWordChar_of_isAlphanum (Bool.or_eq_true_iff.2 (.inl h))

theorem isWordChar_of_isNameStart {c : Char} (h : isNameStart c = true) : isWordChar c = true :=
  (Bool.or_eq_true_iff.1 h).elim isWordChar_of_isAlpha fun hunderscore =>
    Bool.or_eq_true_iff.2 (.inr hunderscore)

/-- What begins with a letter, a digit or an underscore begins with a name. -/
theorem nameWidth_pos_of_frontIs {s : Source} (h : frontIs isWordChar s = true) :
    0 < nameWidth s := by
  cases s with
  | nil => cases h
  | cons u rest =>
      cases u with
      | invalid b => cases h
      | char c =>
          have hword : isWordChar c = true := h
          rw [nameWidth, hword, Bool.true_or, if_pos rfl]
          exact Nat.succ_pos _

theorem blankless_of_baseDigits? {s : Source} {isDigit : Char → Bool}
    (h : baseDigits? s = some isDigit) : Blankless isDigit := by
  rw [baseDigits?_eq] at h
  split at h
  · split at h
    · cases h
      exact blankless_of_all rfl
    · split at h
      · cases h
        exact blankless_of_all rfl
      · cases h
  · cases h

/-- A blank may be put in at every place of a source. -/
theorem gap_insert {c : Char} (hc : isSpacing c = true) {s : Source} {n : Nat} (hn : n ≤ s.length) :
    Gap c n s (s.take n ++ .char c :: s.drop n) := by
  induction n generalizing s with
  | zero => exact .here s hc
  | succ n ih =>
      cases s with
      | nil => cases hn
      | cons u rest => exact .cons u (ih (Nat.le_of_succ_le_succ hn))

namespace Gap

variable {c : Char} {n m : Nat} {s s' : Source} {u : SourceUnit} {p : Char → Bool}

theorem isSpacing (h : Gap c n s s') : isSpacing c = true := by
  induction h with
  | here s hc => exact hc
  | cons u _ ih => exact ih

theorem le_length (h : Gap c n s s') : n ≤ s.length := by
  induction h with
  | here s hc => exact Nat.zero_le _
  | cons u _ ih => exact Nat.succ_le_succ ih

theorem length_eq (h : Gap c n s s') : s'.length = s.length + 1 := by
  induction h with
  | here s hc => rfl
  | cons u _ ih => exact congrArg (· + 1) ih

/-- The source with the blank begins with the same unit, unless it begins with the blank. -/
theorem exists_cons (h : Gap c n (u :: s) s') (hn : 0 < n) :
    ∃ m rest', n = m + 1 ∧ s' = u :: rest' ∧ Gap c m s rest' := by
  cases h with
  | here _ hc => cases hn
  | cons _ h => exact ⟨_, _, rfl, rfl, h⟩

theorem take (h : Gap c n s s') (hm : m ≤ n) : s'.take m = s.take m := by
  induction h generalizing m with
  | here s hc =>
      obtain rfl := Nat.le_zero.1 hm
      rfl
  | cons u _ ih =>
      cases m with
      | zero => rfl
      | succ m => rw [List.take_succ_cons, List.take_succ_cons, ih (Nat.le_of_succ_le_succ hm)]

theorem take_succ (h : Gap c n s s') : s'.take (n + 1) = s.take n ++ [.char c] := by
  induction h with
  | here s hc => rfl
  | cons u _ ih => rw [List.take_succ_cons, ih, List.take_succ_cons, List.cons_append]

theorem drop (h : Gap c n s s') (hm : m ≤ n) : Gap c (n - m) (s.drop m) (s'.drop m) := by
  induction h generalizing m with
  | here s hc =>
      obtain rfl := Nat.le_zero.1 hm
      exact .here s hc
  | cons u h ih =>
      cases m with
      | zero => exact .cons u h
      | succ m =>
          rw [Nat.succ_sub_succ]
          exact ih (Nat.le_of_succ_le_succ hm)

/-- Behind the blank the sources are the same. -/
theorem drop_succ (h : Gap c n s s') (hm : n ≤ m) : s'.drop (m + 1) = s.drop m := by
  induction h generalizing m with
  | here s hc => rfl
  | cons u _ ih =>
      cases m with
      | zero => cases hm
      | succ m => exact ih (Nat.le_of_succ_le_succ hm)

/-! ## What comes next -/

theorem frontIs_of_pos (h : Gap c n s s') (hn : 0 < n) : frontIs p s' = frontIs p s := by
  cases h with
  | here s hc => cases hn
  | cons u _ => rfl

/-- The blank is not in the class. -/
theorem of_frontIs (h : Gap c n s s') (hp : Blankless p) (hfront : frontIs p s' = true) :
    0 < n ∧ frontIs p s = true := by
  cases h with
  | here s hc =>
      rw [frontIs, SourceUnit.satisfies_char, hp c hc] at hfront
      cases hfront
  | cons u _ => exact ⟨Nat.succ_pos _, hfront⟩

theorem frontIs_zero (h : Gap c 0 s s') (hp : Blankless p) : frontIs p s' = false :=
  Bool.eq_false_iff.2 fun hfront => absurd (h.of_frontIs hp hfront).1 (Nat.lt_irrefl 0)

/-- A test for what comes next is the same if it can only hold before the blank. -/
theorem frontIs_eq (h : Gap c n s s') (hp : Blankless p) (hn : frontIs p s = true → 0 < n) :
    frontIs p s' = frontIs p s :=
  Bool.eq_iff_iff.2 ⟨fun hfront => (h.of_frontIs hp hfront).2, fun hfront => by
    rwa [h.frontIs_of_pos (hn hfront)]⟩

/-- Such a test after another one. -/
theorem and_frontIs_eq (h : Gap c n s s') (hp : Blankless p) {b : Bool}
    (hn : b = true → frontIs p s = true → 0 < n) :
    (b && frontIs p s') = (b && frontIs p s) := by
  cases b with
  | false => rfl
  | true => exact h.frontIs_eq hp (hn rfl)

theorem run_eq (h : Gap c n s s') (hp : Blankless p) (hle : run p s ≤ n) : run p s' = run p s := by
  induction h with
  | here s hc =>
      rw [run, SourceUnit.satisfies_char, hp c hc, Nat.le_zero.1 hle]
      rfl
  | cons u _ ih =>
      unfold run at hle ⊢
      split
      next hu =>
        rw [if_pos hu] at hle
        rw [ih (Nat.le_of_succ_le_succ hle)]
      next => rfl

/-- A run that ends before the blank, whether the blank is in the class or not. -/
theorem run_eq_of_lt (h : Gap c n s s') (hlt : run p s < n) : run p s' = run p s := by
  induction h with
  | here s hc => cases hlt
  | cons u _ ih =>
      unfold run at hlt ⊢
      split
      next hu =>
        rw [if_pos hu] at hlt
        rw [ih (Nat.lt_of_succ_lt_succ hlt)]
      next => rfl

/-- A run that goes on over the place of the blank takes it in. -/
theorem run_eq_succ (h : Gap c n s s') (hc : p c = true) (hle : n ≤ run p s) :
    run p s' = run p s + 1 := by
  induction h with
  | here s _ => rw [run, SourceUnit.satisfies_char, if_pos hc]
  | cons u _ ih =>
      unfold run at hle ⊢
      split
      next hu =>
        rw [if_pos hu] at hle
        rw [ih (Nat.le_of_succ_le_succ hle)]
      next hu =>
        rw [if_neg hu] at hle
        cases hle

/-- What follows a run of blanks is the same. -/
theorem frontIs_drop_run {q : Char → Bool} (h : Gap c n s s') (hc : q c = true) :
    frontIs p (s'.drop (run q s')) = frontIs p (s.drop (run q s)) := by
  rcases Nat.lt_or_ge (run q s) n with hlt | hle
  · rw [h.run_eq_of_lt hlt]
    exact (h.drop (Nat.le_of_lt hlt)).frontIs_of_pos (Nat.sub_pos_of_lt hlt)
  · rw [h.run_eq_succ hc hle, h.drop_succ hle]

/-- The first character of a class is found before the blank, or behind it. -/
theorem upTo_eq_or (h : Gap c n s s') (hle : upTo p s ≤ n) :
    upTo p s' = upTo p s ∨ upTo p s = n ∧ upTo p s' = n + 1 := by
  induction h with
  | here s hc =>
      rw [Nat.le_zero.1 hle]
      unfold upTo
      split
      · exact .inl rfl
      · rw [Nat.le_zero.1 hle]
        exact .inr ⟨rfl, rfl⟩
  | cons u _ ih =>
      unfold upTo at hle ⊢
      split
      next => exact .inl rfl
      next hu =>
        rw [if_neg hu] at hle
        have hrest := ih (Nat.le_of_succ_le_succ hle)
        omega

theorem upTo_eq (h : Gap c n s s') (hlt : upTo p s < n) : upTo p s' = upTo p s := by
  have hor := h.upTo_eq_or (Nat.le_of_lt hlt)
  omega

/-! ## Comments and styles -/

theorem blockCommentWidth_eq_or (h : Gap c n s s') (hle : blockCommentWidth s ≤ n) :
    blockCommentWidth s' = blockCommentWidth s ∨
      blockCommentWidth s = n ∧ blockCommentWidth s' = n + 1 := by
  induction h with
  | here s hc =>
      cases s with
      | nil => exact .inr ⟨rfl, by rw [blockCommentWidth_cons, frontIs, Bool.and_false]; rfl⟩
      | cons u rest =>
          rw [blockCommentWidth_cons] at hle
          split at hle <;> cases hle
  | @cons u n s s' h ih =>
      rw [blockCommentWidth_cons] at hle ⊢
      rw [blockCommentWidth_cons, h.and_frontIs_eq (blankless_single rfl)]
      · split
        next => exact .inl rfl
        next hopen =>
          rw [if_neg hopen] at hle
          have hrest := ih (Nat.le_of_succ_le_succ hle)
          omega
      · intro hstar hslash
        rw [hstar, hslash] at hle
        exact Nat.lt_of_succ_lt_succ hle

/-- A style without quotes takes the blank in where it ends. The blank does not stand in `/>`. -/
theorem styleWidth_eq_or (h : Gap c n s s') (hle : styleWidth s ≤ n)
    (hend : ∀ tail, s.drop (styleWidth s) = .char '/' :: .char '>' :: tail →
      styleWidth s + 1 ≠ n) :
    styleWidth s' = styleWidth s ∨ styleWidth s = n ∧ styleWidth s' = n + 1 := by
  induction h with
  | here s hc =>
      have hangle : (c == '>') = false := blankless_single (d := '>') rfl c hc
      have hslash : (c == '/') = false := blankless_single (d := '/') rfl c hc
      rw [styleWidth_cons, SourceUnit.satisfies_char, hangle, SourceUnit.satisfies_char, hslash,
        Nat.le_zero.1 hle]
      exact .inr ⟨rfl, rfl⟩
  | @cons u n s s' h ih =>
      rw [styleWidth_cons] at hle hend ⊢
      rw [styleWidth_cons, h.and_frontIs_eq (blankless_single rfl)]
      · split
        next => exact .inl rfl
        next hopen =>
          rw [if_neg hopen] at hle hend
          have hrest := ih (Nat.le_of_succ_le_succ hle) fun tail htail hn =>
            hend tail htail (congrArg (· + 1) hn)
          omega
      · intro hslash hangle
        rw [hslash, hangle] at hend
        obtain ⟨tail, rfl⟩ := frontIs_single_iff.1 hangle
        obtain rfl := satisfies_single_iff.1 hslash
        exact Nat.pos_of_ne_zero fun hn => hend tail rfl (congrArg (· + 1) hn.symm)

/-! ## Names and numbers -/

theorem nameWidth_eq (h : Gap c n s s') (hle : nameWidth s ≤ n) : nameWidth s' = nameWidth s := by
  induction h with
  | here s hc =>
      have hhyphen : (c == '-') = false := blankless_single (d := '-') rfl c hc
      rw [nameWidth, blankless_isWordChar c hc, hhyphen, Nat.le_zero.1 hle]
      rfl
  | @cons u n s s' h ih =>
      cases u with
      | invalid b => rfl
      | char d =>
          rw [nameWidth] at hle ⊢
          rw [nameWidth, h.and_frontIs_eq blankless_isAlphanum]
          · split
            next hname =>
              rw [if_pos hname] at hle
              rw [ih (Nat.le_of_succ_le_succ hle)]
            next => rfl
          · -- A hyphen belongs to the name only with the letter behind it.
            intro hhyphen hfront
            rw [hhyphen, hfront, Bool.and_true, Bool.or_true, if_pos rfl] at hle
            have hname := nameWidth_pos_of_frontIs (frontIs_mono (@isWordChar_of_isAlphanum) hfront)
            exact Nat.lt_of_lt_of_le hname (Nat.le_of_succ_le_succ hle)

theorem fractionWidth_eq (h : Gap c n s s') (hle : fractionWidth s ≤ n) :
    fractionWidth s' = fractionWidth s := by
  rcases Nat.eq_zero_or_pos n with rfl | hn
  · rw [Scan.fractionWidth_eq s', h.frontIs_zero (blankless_single rfl), Nat.le_zero.1 hle]
    rfl
  · have htail := h.drop hn
    rw [Scan.fractionWidth_eq] at hle ⊢
    rw [Scan.fractionWidth_eq s, h.frontIs_of_pos hn, htail.and_frontIs_eq blankless_isDigit]
    · split
      next hdigits =>
        rw [if_pos hdigits] at hle
        rw [htail.run_eq blankless_isDigit (Nat.le_sub_of_add_le hle)]
      next => rfl
    · intro hpoint hdigit
      rw [hpoint, hdigit] at hle
      exact Nat.lt_of_lt_of_le (run_pos_of_frontIs hdigit) (Nat.le_sub_of_add_le hle)

/-- The digits of an exponent, behind `width` units that make its sign. -/
theorem digits_eq (h : Gap c n s s') {width : Nat}
    (hle : (if frontIs Char.isDigit s then width + run Char.isDigit s + 1 else 0) ≤
      width + n + 1) :
    (if frontIs Char.isDigit s' then width + run Char.isDigit s' + 1 else 0) =
      if frontIs Char.isDigit s then width + run Char.isDigit s + 1 else 0 := by
  have hrun : frontIs Char.isDigit s = true → run Char.isDigit s ≤ n := fun hdigit => by
    rw [if_pos hdigit] at hle
    omega
  rw [h.frontIs_eq blankless_isDigit fun hdigit =>
    Nat.lt_of_lt_of_le (run_pos_of_frontIs hdigit) (hrun hdigit)]
  split
  next hdigit => rw [h.run_eq blankless_isDigit (hrun hdigit)]
  next => rfl

theorem exponentWidth_eq (h : Gap c n s s') (hle : exponentWidth s ≤ n) :
    exponentWidth s' = exponentWidth s := by
  cases h with
  | here s hc =>
      have hletter : (c == 'e' || c == 'E') = false :=
        blankless_of_all (p := fun c => c == 'e' || c == 'E') rfl c hc
      rw [exponentWidth, hletter, Nat.le_zero.1 hle]
      rfl
  | @cons u n s s' h =>
      cases u with
      | invalid b => rfl
      | char d =>
          have hblankless : Blankless fun d => d == '+' || d == '-' := blankless_of_all rfl
          unfold exponentWidth at hle ⊢
          dsimp only at hle ⊢
          split
          next hletter =>
            rw [if_pos hletter] at hle
            rcases Nat.eq_zero_or_pos n with rfl | hn
            · rw [h.frontIs_zero hblankless, if_neg Bool.false_ne_true, List.drop_zero,
                h.frontIs_zero blankless_isDigit, if_neg Bool.false_ne_true]
              generalize (if frontIs (fun d => d == '+' || d == '-') s = true then 1 else 0) =
                width at hle ⊢
              split at hle
              next hdigit =>
                have hpos := run_pos_of_frontIs hdigit
                omega
              next hdigit => rw [if_neg hdigit]
            · rw [h.frontIs_of_pos hn]
              have hwidth :
                  (if frontIs (fun d => d == '+' || d == '-') s = true then 1 else 0) ≤ n := by
                split
                · exact hn
                · exact Nat.zero_le _
              refine (h.drop hwidth).digits_eq ?_
              rwa [Nat.add_sub_cancel' hwidth]
          next => rfl

/-- The base of a number is announced by two units. -/
theorem baseDigits?_eq_some (h : Gap c n s s') {isDigit : Char → Bool}
    (hbase : baseDigits? s = some isDigit) (hn : 2 ≤ n) : baseDigits? s' = some isDigit := by
  rw [Scan.baseDigits?_eq] at hbase ⊢
  have htail := h.drop (m := 1) (by omega)
  rw [h.frontIs_of_pos (by omega), htail.frontIs_of_pos (by omega), htail.frontIs_of_pos (by omega)]
  exact hbase

theorem baseDigits?_eq_none (h : Gap c n s s') (hbase : baseDigits? s = none) :
    baseDigits? s' = none := by
  have hhex : Blankless fun c => c == 'x' || c == 'X' := blankless_of_all rfl
  have hbinary : Blankless fun c => c == 'b' || c == 'B' := blankless_of_all rfl
  rw [Scan.baseDigits?_eq] at hbase ⊢
  split
  next hzero =>
    obtain ⟨hn, hzero⟩ := h.of_frontIs (blankless_single rfl) hzero
    have htail := h.drop hn
    rw [if_pos hzero] at hbase
    split
    next hfront =>
      rw [if_pos (htail.of_frontIs hhex hfront).2] at hbase
      cases hbase
    next =>
      split
      next hfront =>
        split at hbase
        · cases hbase
        · rw [if_pos (htail.of_frontIs hbinary hfront).2] at hbase
          cases hbase
      next => rfl
  next => rfl

theorem numberShape?_eq {config : ScanConfig} {kind : NumberKind} {width : Nat}
    (h : Gap c n s s') (hshape : numberShape? config s = some (kind, width)) (hle : width ≤ n) :
    numberShape? config s' = some (kind, width) := by
  unfold numberShape? at hshape ⊢
  cases hbase : baseDigits? s with
  | some isDigit =>
      rw [hbase] at hshape
      dsimp only at hshape
      have hwidth : run isDigit (s.drop 2) + 2 ≤ n := by
        split at hshape
        · cases hshape
        · obtain ⟨-, rfl⟩ := Prod.mk.inj (Option.some.inj hshape)
          exact hle
      have hn : 2 ≤ n := Nat.le_of_add_left_le hwidth
      rw [h.baseDigits?_eq_some hbase hn]
      dsimp only
      rwa [(h.drop hn).run_eq (blankless_of_baseDigits? hbase) (Nat.le_sub_of_add_le hwidth)]
  | none =>
      rw [hbase] at hshape
      rw [h.baseDigits?_eq_none hbase]
      dsimp only at hshape ⊢
      obtain ⟨-, hwidth⟩ := Prod.mk.inj (Option.some.inj hshape)
      have hwhole : run Char.isDigit s ≤ n := by omega
      have hfraction := (h.drop hwhole).fractionWidth_eq (by omega)
      rw [h.run_eq blankless_isDigit hwhole, hfraction]
      split at hwidth
      next hscientific =>
        rw [if_pos hscientific] at hshape ⊢
        rwa [(h.drop (by omega)).exponentWidth_eq (by omega)]
      next hscientific =>
        rw [if_neg hscientific] at hshape ⊢
        exact hshape

end Gap

end ComponentLang.Scan
