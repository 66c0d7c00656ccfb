import ComponentLang.Proofs.Scan.Alike
import ComponentLang.Proofs.Scan.Gap

/-!
# Readings of a source with a blank put in

A reading that makes no mistake and ends before a blank, or where the blank stands, makes the same
tokens without the blank and with it. At most it takes the blank in: a comment up to the end of its
line, or a style up to the end of its tag, of which the blanks at both ends are no part.
-/
namespace ComponentLang.Scan

open Source

/-- Pieces that make the same token or both make none, whatever their widths are. -/
inductive Piece.SameToken : Piece → Piece → Prop
  | skip (width width' : Nat) : SameToken (.skip width) (.skip width')
  | token {kind : TokenKind} (width width' : Nat) (lexeme : String) : kind.isError = false →
      SameToken (.token kind width lexeme) (.token kind width' lexeme)

theorem Piece.IsSound.sameToken {piece : Piece} (h : piece.IsSound) : piece.SameToken piece := by
  cases piece with
  | skip width => exact .skip width width
  | token kind width lexeme => exact .token width width lexeme h
  | error => exact h.elim

/-- The reading makes no mistake and takes `n` units at most. -/
structure Reading.Within (n : Nat) (r : Reading) : Prop where
  le : r.width ≤ n
  sound : ∀ piece ∈ r.pieces, piece.IsSound

/-- The readings make the same tokens, and the second takes as much as the first, or a blank behind
the first `n` units as well. -/
structure Reading.Spaced (n : Nat) (r r' : Reading) : Prop where
  change : r'.change = r.change
  pieces : List.Forall₂ Piece.SameToken r.pieces r'.pieces
  width : r'.width = r.width ∧ r.width ≤ n ∨ r'.width = r.width + 1 ∧ n ≤ r.width

variable {config : ScanConfig} {mode : Mode} {afterOperand : Bool} {c d : Char} {n : Nat}
  {s s' rest rest' : Source}

namespace Reading

variable {r r' r₁ r₂ r₁' r₂' : Reading}

theorem Within.spaced (h : r.Within n) (heq : r' = r) : r.Spaced n r' := by
  subst heq
  exact ⟨rfl, List.forall₂_same.2 fun piece hpiece => (h.sound piece hpiece).sameToken,
    .inl ⟨rfl, h.le⟩⟩

/-- Readings that are chosen by a test that comes out the same. -/
theorem Within.ite {p p' : Prop} [Decidable p] [Decidable p']
    (h : (if p then r₁ else r₂).Within n) (hof : p' → p) (hto : p → r₁.Within n → p')
    (hthen : p → r₁.Within n → r₁.Spaced n r₁') (helse : ¬ p → r₂.Within n → r₂.Spaced n r₂') :
    (if p then r₁ else r₂).Spaced n (if p' then r₁' else r₂') := by
  by_cases hp : p
  · rw [if_pos hp] at h ⊢
    rw [if_pos (hto hp h)]
    exact hthen hp h
  · rw [if_neg hp] at h ⊢
    rw [if_neg (mt hof hp)]
    exact helse hp h

/-- Readings that are chosen by the same test. -/
theorem Within.ite_same {p : Prop} [Decidable p] (h : (if p then r₁ else r₂).Within n)
    (hthen : p → r₁.Within n → r₁.Spaced n r₁') (helse : ¬ p → r₂.Within n → r₂.Spaced n r₂') :
    (if p then r₁ else r₂).Spaced n (if p then r₁' else r₂') :=
  h.ite id (fun hp _ => hp) hthen helse

/-- The same where there may be no reading. -/
theorem rel_ite {p : Prop} [Decidable p] {o₁ o₂ o₁' o₂' : Option Reading}
    (h : ∀ r, (if p then o₁ else o₂) = some r → r.Within n)
    (hthen : p → (∀ r, o₁ = some r → r.Within n) → Option.Rel (Spaced n) o₁ o₁')
    (helse : ¬ p → (∀ r, o₂ = some r → r.Within n) → Option.Rel (Spaced n) o₂ o₂') :
    Option.Rel (Spaced n) (if p then o₁ else o₂) (if p then o₁' else o₂') := by
  split
  next hp => exact hthen hp fun r hr => h r ((if_pos hp).trans hr)
  next hp => exact helse hp fun r hr => h r ((if_neg hp).trans hr)

/-- A token that has the source text as its own. -/
theorem Within.verbatim {kind : TokenKind} {width : Nat} {change : ModeChange} (hgap : Gap c n s s')
    (h : ((Reading.verbatim kind width s).changing change).Within n) :
    ((Reading.verbatim kind width s).changing change).Spaced n
      ((Reading.verbatim kind width s').changing change) := by
  have hfront : s'.take width = s.take width := hgap.take h.le
  refine h.spaced ?_
  unfold Reading.verbatim
  rw [hfront]

theorem spaced_skip {width width' : Nat}
    (h : width' = width ∧ width ≤ n ∨ width' = width + 1 ∧ n ≤ width) :
    (Reading.skip width).Spaced n (.skip width') :=
  ⟨rfl, .cons (.skip width width') .nil, h⟩

end Reading

/-! ## Names, numbers and strings -/

theorem not_within_rejectChar : ¬ (rejectChar c rest).Within n :=
  fun h => h.sound _ List.mem_cons_self

theorem markedName_of_gap {kind : TokenKind} (h : Gap c n rest rest')
    (hr : (markedName kind rest).Within (n + 1)) :
    markedName kind rest' = markedName kind rest := by
  have hle : nameWidth rest ≤ n := Nat.le_of_succ_le_succ hr.le
  unfold markedName
  dsimp only
  rw [h.nameWidth_eq hle, h.take hle]

theorem readModifier_of_gap (h : Gap c n rest rest') (hr : (readModifier rest).Within (n + 1)) :
    readModifier rest' = readModifier rest := by
  unfold readModifier at hr ⊢
  split at hr
  next hname =>
    have hle : nameWidth rest ≤ n := Nat.le_of_succ_le_succ hr.le
    have hpos := nameWidth_pos_of_frontIs (frontIs_mono (@isWordChar_of_isNameStart) hname)
    rw [h.frontIs_of_pos (Nat.lt_of_lt_of_le hpos hle), if_pos hname, if_pos hname,
      markedName_of_gap h hr]
  next => exact absurd (hr.sound _ List.mem_cons_self) id

theorem readString_of_gap {quote : Char} (h : Gap c n rest rest')
    (hr : (readString quote rest).Within (n + 1)) :
    readString quote rest' = readString quote rest := by
  have hbody : quotedBody quote rest' = quotedBody quote rest := by
    unfold readString at hr
    dsimp only at hr
    split at hr
    next hclosed =>
      refine quotedBody_eq hclosed (h.take (Nat.le_of_succ_le_succ ?_))
      have hle := hr.le
      split at hle
      · exact hle
      · exact hle
    next => exact absurd (hr.sound _ List.mem_cons_self) id
  unfold readString
  rw [hbody]

theorem readNumber_of_gap (h : Gap c n s s') (hr : (readNumber config s).Within n) :
    readNumber config s' = readNumber config s := by
  unfold readNumber at hr ⊢
  cases hshape : numberShape? config s with
  | none =>
      rw [hshape] at hr
      exact absurd (hr.sound _ List.mem_cons_self) id
  | some shape =>
      obtain ⟨kind, width⟩ := shape
      rw [hshape] at hr
      dsimp only at hr ⊢
      split at hr
      next => exact absurd (hr.sound _ List.mem_cons_self) id
      next hword =>
        have hle : width ≤ n := hr.le
        have hword' : ¬ frontIs isWordChar (s'.drop width) = true := fun hfront =>
          hword ((h.drop hle).of_frontIs blankless_isWordChar hfront).2
        rw [h.numberShape?_eq hshape hle, if_neg hword]
        dsimp only
        rw [if_neg hword', Reading.verbatim, Reading.verbatim, h.take hle]

/-! ## Code and attributes -/

/-- A comment that goes on to the place of the blank may take it in. -/
theorem commentWidth?_of_gap (h : Gap c n rest rest')
    (hle : ∀ width, commentWidth? rest = some width → width ≤ n + 1) :
    Option.Rel (fun width width' =>
        width' = width ∧ width ≤ n + 1 ∨ width' = width + 1 ∧ n + 1 ≤ width)
      (commentWidth? rest) (commentWidth? rest') := by
  rw [commentWidth?_eq] at hle ⊢
  rw [commentWidth?_eq rest']
  by_cases hline : frontIs (· == '/') rest = true
  · rw [if_pos hline] at hle ⊢
    have hwidth := hle _ rfl
    have hn : 0 < n := by omega
    have hbody := (h.drop (m := 1) hn).upTo_eq_or (p := (· == '\n')) (by omega)
    rw [h.frontIs_of_pos hn, if_pos hline]
    exact .some (by omega)
  · rw [if_neg hline] at hle ⊢
    rw [if_neg fun hline' => hline (h.of_frontIs (blankless_single rfl) hline').2]
    by_cases hblock : frontIs (· == '*') rest = true
    · rw [if_pos hblock] at hle ⊢
      have hwidth := hle _ rfl
      have hn : 0 < n := by omega
      have hbody := (h.drop (m := 1) hn).blockCommentWidth_eq_or (by omega)
      rw [h.frontIs_of_pos hn, if_pos hblock]
      exact .some (by omega)
    · rw [if_neg hblock,
        if_neg fun hblock' => hblock (h.of_frontIs (blankless_single rfl) hblock').2]
      exact .none

/-- A mark before a letter has the name behind it, so the blank is not there. -/
theorem pos_of_markedName {kind : TokenKind} (hfront : frontIs Char.isAlpha rest = true)
    (hr : (markedName kind rest).Within (n + 1)) : 0 < n :=
  have hname := nameWidth_pos_of_frontIs (frontIs_mono (@isWordChar_of_isAlpha) hfront)
  Nat.lt_of_lt_of_le hname (Nat.le_of_succ_le_succ hr.le)

/-- Readings that begin with the same character in code and in the attributes of a tag. -/
theorem readShared?_of_gap (config : ScanConfig) (h : Gap c n rest rest')
    (hr : ∀ r, readShared? config (.char d :: rest) d rest = some r → r.Within (n + 1)) :
    Option.Rel (Reading.Spaced (n + 1)) (readShared? config (.char d :: rest) d rest)
      (readShared? config (.char d :: rest') d rest') := by
  unfold readShared? at hr ⊢
  refine Reading.rel_ite hr (fun _ hr => .some ((hr _ rfl).spaced rfl)) fun _ hr => ?_
  refine Reading.rel_ite hr (fun _ hr => ?_) fun _ hr => ?_
  · have hcomment := commentWidth?_of_gap h fun width hwidth => (hr _ (congrArg _ hwidth)).le
    generalize commentWidth? rest = width at hcomment ⊢
    generalize commentWidth? rest' = width' at hcomment ⊢
    cases hcomment with
    | none => exact .none
    | some hwidth => exact .some (Reading.spaced_skip hwidth)
  refine Reading.rel_ite hr
    (fun _ hr => .some ((hr _ rfl).spaced (readString_of_gap h (hr _ rfl)))) fun _ hr => ?_
  refine Reading.rel_ite hr
    (fun _ hr => .some ((hr _ rfl).spaced (readNumber_of_gap (.cons _ h) (hr _ rfl))))
    fun _ hr => ?_
  rw [h.and_frontIs_eq blankless_isAlpha fun hbang hfront =>
    pos_of_markedName hfront (hr _ (if_pos (Bool.and_eq_true_iff.2 ⟨hbang, hfront⟩)))]
  refine Reading.rel_ite hr
    (fun _ hr => .some ((hr _ rfl).spaced (markedName_of_gap h (hr _ rfl)))) fun _ hr => ?_
  exact Reading.rel_ite hr
    (fun _ hr => .some ((hr _ rfl).spaced (readModifier_of_gap h (hr _ rfl)))) fun _ _ => .none

theorem longer_of_gap {second : Char} {long short : TokenKind} (h : Gap c n rest rest')
    (hsecond : isSpacing second = false) (hle : (longer second long short rest).2 ≤ n + 1) :
    longer second long short rest' = longer second long short rest := by
  unfold longer at hle ⊢
  rw [h.frontIs_eq (blankless_single hsecond)]
  intro hfront
  rw [if_pos hfront] at hle
  exact Nat.lt_of_succ_lt_succ hle

theorem mark?_of_gap (h : Gap c n rest rest')
    (hle : ∀ mark, mark? d rest = some mark → mark.2 ≤ n + 1) : mark? d rest' = mark? d rest := by
  unfold mark? at hle ⊢
  split
  all_goals first
    | exact congrArg some (longer_of_gap h rfl (hle _ rfl))
    | rfl
    | skip
  -- What is left are the marks that are doubled: `**` and `&&`.
  · rw [h.frontIs_eq (blankless_single rfl) fun hdouble =>
      Nat.lt_of_succ_lt_succ (hle _ (if_pos hdouble))]
    split
    next => rfl
    next hsingle => exact congrArg some (longer_of_gap h rfl (hle _ (if_neg hsingle)))
  · rw [h.frontIs_eq (blankless_single rfl) fun hdouble =>
      Nat.lt_of_succ_lt_succ (hle _ (if_pos hdouble))]

theorem readTagOpen_of_gap (h : Gap c n rest rest') (hr : (readTagOpen rest).Within (n + 1)) :
    readTagOpen rest' = readTagOpen rest := by
  unfold readTagOpen
  rw [markedName_of_gap h ⟨hr.le, hr.sound⟩]

/-- The kind of a word depends on what follows the blanks behind it. -/
theorem wordKind_of_gap (name : String) (h : Gap c n s s') :
    wordKind config name s' = wordKind config name s := by
  unfold wordKind
  rw [h.frontIs_drop_run (isBlank_of_isSpacing h.isSpacing)]

theorem readWord_of_gap (h : Gap c n s s') (hr : (readWord config s).Within n) :
    readWord config s' = readWord config s := by
  have hle : nameWidth s ≤ n := hr.le
  unfold readWord
  dsimp only
  rw [h.nameWidth_eq hle, h.take hle, wordKind_of_gap _ (h.drop hle)]

theorem readCode_of_gap (h : Gap c n rest rest')
    (hr : (readCode config mode afterOperand (.char d :: rest) d rest).Within (n + 1)) :
    (readCode config mode afterOperand (.char d :: rest) d rest).Spaced (n + 1)
      (readCode config mode afterOperand (.char d :: rest') d rest') := by
  have hgap : Gap c (n + 1) (.char d :: rest) (.char d :: rest') := .cons _ h
  unfold readCode at hr ⊢
  have hshared := readShared?_of_gap (d := d) config h fun r hsome => by
    rw [hsome] at hr
    exact hr
  generalize readShared? config (.char d :: rest) d rest = shared at hr hshared ⊢
  generalize readShared? config (.char d :: rest') d rest' = shared' at hshared ⊢
  cases hshared with
  | some hspaced => exact hspaced
  | none =>
      refine hr.ite (fun htag => ?_) (fun htag hr => ?_)
        (fun _ hr => hr.spaced (readTagOpen_of_gap h hr)) fun _ hr => ?_
      · simp only [Bool.and_eq_true] at htag ⊢
        exact ⟨⟨htag.1.1, (h.of_frontIs blankless_isAlpha htag.1.2).2⟩, htag.2⟩
      · simp only [Bool.and_eq_true] at htag ⊢
        rwa [h.frontIs_of_pos (pos_of_markedName htag.1.2 ⟨hr.le, hr.sound⟩)]
      refine hr.ite_same (fun _ hr => hr.verbatim hgap) fun _ hr => ?_
      refine hr.ite_same (fun _ hr => hr.verbatim hgap) fun _ hr => ?_
      have hmark := mark?_of_gap (d := d) h fun mark hsome => by
        rw [hsome] at hr
        exact hr.le
      rw [hmark]
      cases hsome : mark? d rest with
      | some mark =>
          rw [hsome] at hr
          exact hr.verbatim hgap
      | none =>
          rw [hsome] at hr
          exact hr.ite_same (fun _ hr => hr.spaced (readWord_of_gap hgap hr)) fun _ hr =>
              absurd hr not_within_rejectChar

theorem readAttributeName_of_gap (h : Gap c n s s') (hr : (readAttributeName s).Within n) :
    readAttributeName s' = readAttributeName s := by
  have hle : nameWidth s ≤ n := by
    refine Nat.le_trans ?_ hr.le
    unfold readAttributeName
    dsimp only
    split
    · exact Nat.le_succ _
    · exact Nat.le_refl _
  have hstyle : (Source.text (s.take (nameWidth s)) == "style" &&
        frontIs (· == ':') (s'.drop (nameWidth s))) =
      (Source.text (s.take (nameWidth s)) == "style" &&
        frontIs (· == ':') (s.drop (nameWidth s))) := by
    refine (h.drop hle).and_frontIs_eq (blankless_single rfl) fun hname hcolon => ?_
    unfold readAttributeName at hr
    dsimp only at hr
    rw [hname, hcolon, Bool.and_self, if_pos rfl] at hr
    exact Nat.sub_pos_of_lt hr.le
  unfold readAttributeName
  dsimp only
  rw [h.nameWidth_eq hle, h.take hle, hstyle]

theorem readAttribute_of_gap (h : Gap c n rest rest')
    (hr : (readAttribute config (.char d :: rest) d rest).Within (n + 1)) :
    (readAttribute config (.char d :: rest) d rest).Spaced (n + 1)
      (readAttribute config (.char d :: rest') d rest') := by
  have hgap : Gap c (n + 1) (.char d :: rest) (.char d :: rest') := .cons _ h
  unfold readAttribute at hr ⊢
  have hshared := readShared?_of_gap (d := d) config h fun r hsome => by
    rw [hsome] at hr
    exact hr
  generalize readShared? config (.char d :: rest) d rest = shared at hr hshared ⊢
  generalize readShared? config (.char d :: rest') d rest' = shared' at hshared ⊢
  cases hshared with
  | some hspaced => exact hspaced
  | none =>
      refine hr.ite_same (fun _ hr => hr.verbatim hgap) fun _ hr => ?_
      refine hr.ite (fun hself => ?_) (fun hself hr => ?_) (fun _ hr => hr.verbatim hgap)
        fun _ hr => ?_
      · rw [Bool.and_eq_true] at hself ⊢
        exact hself.imp_right fun hangle => (h.of_frontIs (blankless_single rfl) hangle).2
      · rwa [h.frontIs_of_pos (Nat.lt_of_succ_lt_succ hr.le)]
      refine hr.ite_same (fun _ hr => hr.verbatim hgap) fun _ hr => ?_
      refine hr.ite_same (fun _ hr => hr.verbatim hgap) fun _ hr => ?_
      exact hr.ite_same (fun _ hr => hr.spaced (readAttributeName_of_gap hgap hr)) fun _ hr =>
          absurd hr not_within_rejectChar

/-! ## The content of tags -/

theorem two_le_width_readTagClose (rest : Source) : 2 ≤ (readTagClose rest).width := by
  unfold readTagClose
  extract_lets nameLength name afterName blanks width
  split
  · exact Nat.le_trans (Nat.le_add_left _ _) (Nat.le_succ _)
  · exact Nat.le_add_left _ _

/-- The `>` of a closing tag stands before the blank, so all of the tag does. -/
theorem readTagClose_of_gap (h : Gap c n rest rest') (hr : (readTagClose rest).Within (n + 2)) :
    readTagClose rest' = readTagClose rest := by
  unfold readTagClose at hr ⊢
  generalize hlength : (if frontIs isNameStart rest = true then nameWidth rest else 0) = length
    at hr ⊢
  dsimp only at hr ⊢
  split at hr
  next =>
    have hle : length + run isSpacing (rest.drop length) + 2 + 1 ≤ n + 2 := hr.le
    have hlength' : (if frontIs isNameStart rest' = true then nameWidth rest' else 0) = length := by
      rw [← hlength] at hle ⊢
      rw [h.frontIs_of_pos (by omega)]
      split
      next hname =>
        rw [if_pos hname] at hle
        exact h.nameWidth_eq (by omega)
      next => rfl
    have hblanks := h.drop (m := length) (by omega)
    rw [hlength', hblanks.run_eq_of_lt (by omega), h.take (by omega),
      (hblanks.drop (by omega)).frontIs_of_pos (by omega)]
  next => exact absurd (hr.sound _ (List.mem_cons_of_mem _ List.mem_cons_self)) id

theorem readContent_of_gap (h : Gap c n rest rest')
    (hr : (readContent (.char d :: rest) d rest).Within (n + 1)) :
    (readContent (.char d :: rest) d rest).Spaced (n + 1)
      (readContent (.char d :: rest') d rest') := by
  have hgap : Gap c (n + 1) (.char d :: rest) (.char d :: rest') := .cons _ h
  by_cases hangle : d = '<'
  · subst hangle
    rw [readContent_angle] at hr ⊢
    rw [readContent_angle]
    have hpos : ∀ {r : Reading}, 2 ≤ r.width → r.Within (n + 1) → 0 < n := fun hwidth hr =>
      Nat.lt_of_succ_lt_succ (Nat.le_trans hwidth hr.le)
    refine hr.ite (fun hclose => (h.of_frontIs (blankless_single rfl) hclose).2)
      (fun hclose hr => ?_) (fun _ hr => ?_) fun _ hr => ?_
    · rwa [h.frontIs_of_pos (hpos (two_le_width_readTagClose _) hr)]
    · have hn := hpos (two_le_width_readTagClose _) hr
      refine hr.spaced (readTagClose_of_gap (h.drop (m := 1) hn) ⟨?_, hr.sound⟩)
      exact Nat.le_trans hr.le (by omega)
    refine hr.ite (fun htag => (h.of_frontIs blankless_isAlpha htag).2) (fun htag hr => ?_)
      (fun _ hr => hr.spaced (readTagOpen_of_gap h hr)) fun _ hr => hr.verbatim hgap
    rwa [h.frontIs_of_pos (pos_of_markedName htag ⟨hr.le, hr.sound⟩)]
  · unfold readContent at hr ⊢
    refine hr.ite_same (fun _ hr => hr.spaced rfl) fun _ hr => ?_
    rw [if_neg hangle] at hr ⊢
    rw [if_neg hangle]
    refine hr.ite_same (fun _ hr => hr.verbatim hgap) fun _ hr => ?_
    refine hr.ite_same (fun _ hr => absurd hr not_within_rejectChar) fun _ hr => ?_
    have hle : run isTextChar (.char d :: rest) ≤ n + 1 := hr.le
    rw [hgap.run_eq blankless_isTextChar hle]
    exact hr.verbatim hgap

/-! ## Styles -/

theorem trim_append_blank {text : List Char} (hc : Text.isBlank c = true) :
    Text.trim (text ++ [c]) = Text.trim text := by
  unfold Text.trim
  rw [List.dropWhile_append]
  split
  next hempty =>
    rw [List.isEmpty_iff.1 hempty, List.dropWhile_cons, if_pos hc]
    rfl
  next =>
    rw [List.reverse_append, List.reverse_singleton, List.singleton_append, List.dropWhile_cons,
      if_pos hc]

/-- Pieces that make the same token. The second may take in a blank behind the first `n` units. -/
structure Piece.Spaced (n : Nat) (piece piece' : Piece) : Prop where
  same : piece.SameToken piece'
  width : piece'.width = piece.width ∧ piece.width ≤ n ∨
    piece'.width = piece.width + 1 ∧ n ≤ piece.width

/-- A style without quotes loses the blank that it takes in when it is trimmed. -/
theorem bareStyle_of_gap (h : Gap c n s s') (hle : styleWidth s ≤ n)
    (hend : ∀ tail, s.drop (styleWidth s) = .char '/' :: .char '>' :: tail →
      styleWidth s + 1 ≠ n) :
    (Piece.token .styleProperty (styleWidth s) (styleText (s.take (styleWidth s)))).Spaced n
      (.token .styleProperty (styleWidth s') (styleText (s'.take (styleWidth s')))) := by
  obtain heq | ⟨hn, heq⟩ := h.styleWidth_eq_or hle hend
  · rw [heq, h.take hle]
    exact ⟨.token _ _ _ rfl, .inl ⟨rfl, hle⟩⟩
  · have htext : styleText (s'.take (n + 1)) = styleText (s.take n) := by
      unfold styleText
      rw [h.take_succ, chars_append, chars_cons, chars_nil, SourceUnit.toChar_char,
        trim_append_blank (isBlank_of_isSpacing h.isSpacing)]
    rw [hn, heq, htext]
    exact ⟨.token _ _ _ rfl, .inr ⟨rfl, Nat.le_refl n⟩⟩

theorem stylePiece_of_gap (h : Gap c n s s') (hn : 0 < n) (hsound : (stylePiece s).IsSound)
    (hle : (stylePiece s).width ≤ n)
    (hend : ∀ tail, s.drop (stylePiece s).width = .char '/' :: .char '>' :: tail →
      (stylePiece s).width + 1 ≠ n) : (stylePiece s).Spaced n (stylePiece s') := by
  obtain ⟨u, rest, rfl⟩ : ∃ u rest, s = u :: rest := by
    cases h with
    | here _ hc => cases hn
    | cons u _ => exact ⟨u, _, rfl⟩
  obtain ⟨m, rest', rfl, rfl, hrest⟩ := h.exists_cons hn
  cases u with
  | invalid b => exact bareStyle_of_gap h hle hend
  | char quote =>
      rw [stylePiece_cons] at hsound hle hend ⊢
      rw [stylePiece_cons]
      split
      next hquote =>
        rw [if_pos hquote] at hsound hle
        split at hsound
        next => exact hsound.elim
        next hopen =>
          rw [if_neg hopen] at hle ⊢
          have hlt : upTo (· == quote) rest < m := Nat.le_of_succ_le_succ hle
          have hlength := hrest.le_length
          rw [hrest.upTo_eq hlt, if_neg (by rw [hrest.length_eq]; omega),
            hrest.take (Nat.le_of_lt hlt)]
          exact ⟨.token _ _ _ rfl, .inl ⟨rfl, hle⟩⟩
      next hquote =>
        rw [if_neg hquote] at hle hend
        exact bareStyle_of_gap h hle hend

theorem width_readStyle (s : Source) : (readStyle s).width =
    run isSpacing s + (stylePiece (s.drop (run isSpacing s))).width := rfl

/-- A style takes in a blank that stands among those in front of it, and may take in one that stands
where it ends. -/
theorem readStyle_of_gap (h : Gap c n s s')
    (hsound : ∀ piece ∈ (readStyle s).pieces, piece.IsSound)
    (hle : (readStyle s).width ≤ n ∨ n ≤ run isSpacing s)
    (hend : ∀ tail, s.drop (readStyle s).width = .char '/' :: .char '>' :: tail →
      (readStyle s).width + 1 ≠ n) : (readStyle s).Spaced n (readStyle s') := by
  have hpiece : (stylePiece (s.drop (run isSpacing s))).IsSound :=
    hsound _ (List.mem_cons_of_mem _ List.mem_cons_self)
  rw [width_readStyle] at hle hend
  rcases Nat.lt_or_ge (run isSpacing s) n with hlt | hblanks
  · have hgap := h.drop (Nat.le_of_lt hlt)
    have hspaced := stylePiece_of_gap hgap (Nat.sub_pos_of_lt hlt) hpiece (by omega)
      fun tail htail hn => by
        rw [List.drop_drop] at htail
        exact hend tail htail (by omega)
    have hwidth := hspaced.width
    refine ⟨rfl, .cons (.skip _ _) (.cons ?_ .nil), ?_⟩
    · rw [h.run_eq_of_lt hlt]
      exact hspaced.same
    · rw [width_readStyle, width_readStyle, h.run_eq_of_lt hlt]
      omega
  · have hrun := h.run_eq_succ h.isSpacing hblanks
    refine ⟨rfl, .cons (.skip _ _) (.cons ?_ .nil), .inr ⟨?_, ?_⟩⟩
    · rw [hrun, h.drop_succ hblanks]
      exact hpiece.sameToken
    · rw [width_readStyle, width_readStyle, hrun, h.drop_succ hblanks, Nat.add_right_comm]
    · rw [width_readStyle]
      exact Nat.le_trans hblanks (Nat.le_add_right _ _)

/-! ## All modes -/

theorem read_of_gap (h : Gap c n s s') (hn : 0 < n) (hmode : mode ≠ .styleValue)
    (hr : (read config mode afterOperand s).Within n) :
    (read config mode afterOperand s).Spaced n (read config mode afterOperand s') := by
  cases h with
  | here _ hc => cases hn
  | @cons u n rest rest' h =>
      cases u with
      | invalid b => exact absurd (hr.sound _ List.mem_cons_self) id
      | char d =>
          cases mode with
          | normal => exact readCode_of_gap h hr
          | expression => exact readCode_of_gap h hr
          | tagAttribute => exact readAttribute_of_gap h hr
          | tagContent => exact readContent_of_gap h hr
          | styleValue => exact absurd rfl hmode

end ComponentLang.Scan
