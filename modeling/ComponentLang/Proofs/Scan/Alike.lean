import ComponentLang.Proofs.Scan.Blind
import ComponentLang.Proofs.Scan.Mistakes
import ComponentLang.Proofs.Scan.Progress

/-!
# Readings of sources that are alike

A reading that makes no mistake depends on the units that it takes, and on the others only up to the
case of letters. So it is made of every source that is alike and has the same units at its place.
-/
namespace ComponentLang

namespace Source

variable {s s' : Source} {m n : Nat}

theorem take_of_le (h : s'.take n = s.take n) (hle : m ≤ n) : s'.take m = s.take m := by
  rw [← Nat.min_eq_left hle, ← List.take_take, h, List.take_take]

theorem take_drop_of_take (h : s'.take (m + n) = s.take (m + n)) :
    (s'.drop m).take n = (s.drop m).take n := by
  have hdrop := congrArg (List.drop m) h
  rwa [List.drop_take, List.drop_take, Nat.add_sub_cancel_left] at hdrop

theorem exists_cons_of_take {u : SourceUnit} (h : s'.take (n + 1) = (u :: s).take (n + 1)) :
    ∃ rest, s' = u :: rest ∧ rest.take n = s.take n := by
  cases s' with
  | nil => cases h
  | cons u' rest =>
      rw [List.take_succ_cons, List.take_succ_cons] at h
      obtain ⟨rfl, hrest⟩ := List.cons.inj h
      exact ⟨rest, rfl, hrest⟩

end Source

namespace Scan

open Source

variable {config : ScanConfig} {mode : Mode} {afterOperand : Bool} {s s' rest rest' : Source}
  {c : Char}

/-- The sources are alike, the reading of the first makes no mistake, and the second has the same
units where it is made. -/
structure Reading.Stays (r : Reading) (s s' : Source) : Prop where
  alike : Alike s s'
  front : s'.take r.width = s.take r.width
  sound : ∀ piece ∈ r.pieces, piece.IsSound

namespace Reading.Stays

theorem alike_rest {r : Reading} {u u' : SourceUnit} (h : r.Stays (u :: rest) (u' :: rest')) :
    Alike rest rest' :=
  (List.forall₂_cons.1 h.alike).2

/-- What a reading takes after its first unit. -/
theorem front_rest {r : Reading} {u u' : SourceUnit} {width : Nat}
    (h : r.Stays (u :: rest) (u' :: rest')) (hwidth : width + 1 ≤ r.width) :
    rest'.take width = rest.take width := by
  have hfront := take_of_le h.front hwidth
  rw [List.take_succ_cons, List.take_succ_cons] at hfront
  exact (List.cons.inj hfront).2

/-- A token that has the source text as its own. -/
theorem verbatim {kind : TokenKind} {width : Nat} {change : ModeChange}
    (h : ((Reading.verbatim kind width s).changing change).Stays s s') :
    (Reading.verbatim kind width s').changing change =
      (Reading.verbatim kind width s).changing change := by
  unfold Reading.verbatim
  rw [show s'.take width = s.take width from h.front]

/-- Readings that are chosen by a test that comes out the same. -/
theorem ite {p : Prop} [Decidable p] {r₁ r₂ r₁' r₂' : Reading}
    (h : (if p then r₁ else r₂).Stays s s') (hthen : p → r₁.Stays s s' → r₁' = r₁)
    (helse : ¬ p → r₂.Stays s s' → r₂' = r₂) :
    (if p then r₁' else r₂') = if p then r₁ else r₂ := by
  split
  next hp => exact hthen hp (by rwa [if_pos hp] at h)
  next hp => exact helse hp (by rwa [if_neg hp] at h)

end Reading.Stays

/-! ## Names, numbers and strings -/

theorem markedName_eq {kind : TokenKind} (halike : Alike rest rest')
    (hfront : rest'.take (nameWidth rest) = rest.take (nameWidth rest)) :
    markedName kind rest' = markedName kind rest := by
  unfold markedName
  dsimp only
  rw [nameWidth_of_alike halike, hfront]

theorem readModifier_eq (h : (readModifier rest).Stays (.char c :: rest) (.char c :: rest')) :
    readModifier rest' = readModifier rest := by
  unfold readModifier at h ⊢
  rw [frontIs_of_alike blind_isNameStart h.alike_rest]
  split
  next hname =>
    rw [if_pos hname] at h
    exact markedName_eq h.alike_rest (h.front_rest (Nat.le_refl _))
  next hname =>
    rw [if_neg hname] at h
    exact absurd (h.sound _ List.mem_cons_self) id

/-- A literal that is closed depends on nothing after it. -/
theorem quotedBody_eq {quote : Char} (hclosed : (quotedBody quote s).closed = true)
    (hfront : s'.take (quotedBody quote s).width = s.take (quotedBody quote s).width) :
    quotedBody quote s' = quotedBody quote s := by
  fun_induction quotedBody quote s generalizing s' with
  | case1 => cases hclosed
  | case2 b rest ih =>
      rw [QuotedBody.cons, Nat.add_comm] at hfront
      obtain ⟨rest', rfl, hrest⟩ := exists_cons_of_take hfront
      rw [quotedBody, ih hclosed hrest]
  | case3 => cases hclosed
  | case4 rest hline =>
      obtain ⟨rest', rfl, -⟩ := exists_cons_of_take hfront
      rw [quotedBody.eq_def]
      dsimp only
      rw [if_neg hline, if_pos rfl]
  | case5 => cases hclosed
  | case6 u rest d hd hline hquote ih =>
      rw [QuotedBody.cons, Nat.add_comm] at hfront
      obtain ⟨_, rfl, htail⟩ := exists_cons_of_take hfront
      obtain ⟨rest', rfl, hrest⟩ := exists_cons_of_take htail
      rw [quotedBody, if_neg hline, if_neg hquote, if_pos rfl, hd, ih hclosed hrest]
  | case7 u rest hd hline hquote ih =>
      rw [QuotedBody.cons, Nat.add_comm] at hfront
      obtain ⟨_, rfl, htail⟩ := exists_cons_of_take hfront
      obtain ⟨rest', rfl, hrest⟩ := exists_cons_of_take htail
      rw [quotedBody, if_neg hline, if_neg hquote, if_pos rfl, hd, ih hclosed hrest]
  | case8 c rest hline hquote hescape ih =>
      rw [QuotedBody.cons, Nat.add_comm] at hfront
      obtain ⟨rest', rfl, hrest⟩ := exists_cons_of_take hfront
      rw [quotedBody.eq_def]
      dsimp only
      rw [if_neg hline, if_neg hquote, if_neg hescape, ih hclosed hrest]

theorem readString_eq {quote : Char}
    (h : (readString quote rest).Stays (.char quote :: rest) (.char quote :: rest')) :
    readString quote rest' = readString quote rest := by
  have hbody : quotedBody quote rest' = quotedBody quote rest := by
    unfold readString at h
    dsimp only at h
    split at h
    next hclosed =>
      apply quotedBody_eq hclosed
      apply h.front_rest
      split
      · exact Nat.le_refl _
      · exact Nat.le_refl _
    next => exact absurd (h.sound _ List.mem_cons_self) id
  unfold readString
  rw [hbody]

theorem readNumber_eq (h : (readNumber config s).Stays s s') :
    readNumber config s' = readNumber config s := by
  unfold readNumber at h ⊢
  rw [numberShape?_of_alike h.alike]
  split
  next hshape =>
    rw [hshape] at h
    exact absurd (h.sound _ List.mem_cons_self) id
  next kind width hshape =>
    rw [hshape] at h
    dsimp only at h ⊢
    rw [frontIs_of_alike blind_isWordChar (h.alike.drop width)]
    split
    next hword =>
      rw [if_pos hword] at h
      exact absurd (h.sound _ List.mem_cons_self) id
    next hword =>
      rw [if_neg hword] at h
      exact h.verbatim

/-- Readings that begin with the same character in code and in the attributes of a tag. -/
theorem readShared?_eq (halike : Alike rest rest')
    (h : ∀ r, readShared? config (.char c :: rest) c rest = some r →
      r.Stays (.char c :: rest) (.char c :: rest')) :
    readShared? config (.char c :: rest') c rest' =
      readShared? config (.char c :: rest) c rest := by
  unfold readShared? at h ⊢
  rw [commentWidth?_of_alike halike, frontIs_of_alike blind_isAlpha halike]
  split
  next => rfl
  next hspacing =>
    rw [if_neg hspacing] at h
    split
    next => rfl
    next hslash =>
      rw [if_neg hslash] at h
      split
      next hquote =>
        rw [if_pos hquote] at h
        rw [readString_eq (h _ rfl)]
      next hquote =>
        rw [if_neg hquote] at h
        split
        next hdigit =>
          rw [if_pos hdigit] at h
          rw [readNumber_eq (h _ rfl)]
        next hdigit =>
          rw [if_neg hdigit] at h
          split
          next houtside =>
            rw [if_pos houtside] at h
            rw [markedName_eq halike ((h _ rfl).front_rest (Nat.le_refl _))]
          next houtside =>
            rw [if_neg houtside] at h
            split
            next hat =>
              rw [if_pos hat] at h
              rw [readModifier_eq (h _ rfl)]
            next => rfl

/-! ## Code -/

theorem mark?_of_alike (c : Char) (h : Alike rest rest') : mark? c rest' = mark? c rest := by
  have hequals := frontIs_of_alike (blind_single (d := '=') rfl) h
  have hstar := frontIs_of_alike (blind_single (d := '*') rfl) h
  have hpipe := frontIs_of_alike (blind_single (d := '|') rfl) h
  have hand := frontIs_of_alike (blind_single (d := '&') rfl) h
  unfold mark? longer
  simp only [hequals, hstar, hpipe, hand]

theorem readTagOpen_eq (h : (readTagOpen rest).Stays (.char c :: rest) (.char c :: rest')) :
    readTagOpen rest' = readTagOpen rest := by
  unfold readTagOpen
  rw [markedName_eq h.alike_rest (h.front_rest (Nat.le_refl _))]

/-- The kind of a word depends on what follows it up to the case of letters. -/
theorem wordKind_of_alike (name : String) (h : Alike s s') :
    wordKind config name s' = wordKind config name s := by
  unfold wordKind
  rw [run_of_alike blind_isBlank h, frontIs_of_alike (blind_single rfl) (h.drop _)]

theorem readWord_eq (h : (readWord config s).Stays s s') :
    readWord config s' = readWord config s := by
  have hfront : s'.take (nameWidth s) = s.take (nameWidth s) := h.front
  unfold readWord
  dsimp only
  rw [nameWidth_of_alike h.alike, hfront, wordKind_of_alike _ (h.alike.drop _)]

theorem not_stays_rejectChar : ¬ (rejectChar c rest).Stays s s' :=
  fun h => h.sound _ List.mem_cons_self

theorem readCode_eq (h : (readCode config mode afterOperand (.char c :: rest) c rest).Stays
      (.char c :: rest) (.char c :: rest')) :
    readCode config mode afterOperand (.char c :: rest') c rest' =
      readCode config mode afterOperand (.char c :: rest) c rest := by
  have halike : Alike rest rest' := h.alike_rest
  unfold readCode at h ⊢
  rw [readShared?_eq halike, frontIs_of_alike blind_isAlpha halike, mark?_of_alike c halike]
  · cases hshared : readShared? config (.char c :: rest) c rest with
    | some r => rfl
    | none =>
        rw [hshared] at h
        refine h.ite (fun _ htag => readTagOpen_eq htag) fun _ h => ?_
        refine h.ite (fun _ hopen => hopen.verbatim) fun _ h => ?_
        refine h.ite (fun _ hclose => hclose.verbatim) fun _ h => ?_
        cases hmark : mark? c rest with
        | some mark =>
            rw [hmark] at h
            exact h.verbatim
        | none =>
            rw [hmark] at h
            exact h.ite (fun _ hword => readWord_eq hword) fun _ h => absurd h not_stays_rejectChar
  · intro r hr
    rw [hr] at h
    exact h

/-! ## Markup -/

theorem readAttributeName_eq (h : (readAttributeName s).Stays s s') :
    readAttributeName s' = readAttributeName s := by
  have hfront : s'.take (nameWidth s) = s.take (nameWidth s) := by
    apply take_of_le h.front
    unfold readAttributeName
    dsimp only
    split
    · exact Nat.le_succ _
    · exact Nat.le_refl _
  unfold readAttributeName
  dsimp only
  rw [nameWidth_of_alike h.alike, hfront, frontIs_of_alike (blind_single rfl) (h.alike.drop _)]

theorem readAttribute_eq (h : (readAttribute config (.char c :: rest) c rest).Stays
      (.char c :: rest) (.char c :: rest')) :
    readAttribute config (.char c :: rest') c rest' =
      readAttribute config (.char c :: rest) c rest := by
  have halike : Alike rest rest' := h.alike_rest
  unfold readAttribute at h ⊢
  rw [readShared?_eq halike, frontIs_of_alike (blind_single rfl) halike]
  · cases hshared : readShared? config (.char c :: rest) c rest with
    | some r => rfl
    | none =>
        rw [hshared] at h
        refine h.ite (fun _ hend => hend.verbatim) fun _ h => ?_
        refine h.ite (fun _ hself => hself.verbatim) fun _ h => ?_
        refine h.ite (fun _ hopen => hopen.verbatim) fun _ h => ?_
        refine h.ite (fun _ hequals => hequals.verbatim) fun _ h => ?_
        exact h.ite (fun _ hname => readAttributeName_eq hname) fun _ h =>
          absurd h not_stays_rejectChar
  · intro r hr
    rw [hr] at h
    exact h

theorem readTagClose_eq
    (h : (readTagClose rest).Stays (.char '<' :: .char '/' :: rest)
      (.char '<' :: .char '/' :: rest')) :
    readTagClose rest' = readTagClose rest := by
  have halike : Alike rest rest' := (List.forall₂_cons.1 h.alike_rest).2
  unfold readTagClose at h ⊢
  rw [frontIs_of_alike blind_isNameStart halike, nameWidth_of_alike halike]
  generalize (if frontIs isNameStart rest = true then nameWidth rest else 0) = nameLength at h ⊢
  dsimp only at h ⊢
  rw [run_of_alike blind_isSpacing (halike.drop _),
    frontIs_of_alike (blind_single rfl) ((halike.drop _).drop _)]
  have hname : rest'.take nameLength = rest.take nameLength := by
    split at h
    · apply take_of_le ((List.cons.inj (List.cons.inj h.front).2).2)
      exact Nat.le_trans (Nat.le_add_right _ _) (Nat.le_succ _)
    · exact absurd (h.sound _ (List.mem_cons_of_mem _ List.mem_cons_self)) id
  rw [hname]

/-- What stands at `<` in the content of a tag. -/
theorem readContent_angle (rest : Source) :
    readContent (.char '<' :: rest) '<' rest =
      if frontIs (· == '/') rest then readTagClose (rest.drop 1)
      else if frontIs Char.isAlpha rest then readTagOpen rest
      else (Reading.verbatim .text 1 (.char '<' :: rest)).changing .stay := by
  split
  next hclose =>
    obtain ⟨tail, rfl⟩ := frontIs_single_iff.1 hclose
    rfl
  next hclose =>
    unfold readContent
    rw [if_neg (by decide), if_pos rfl]
    split
    · exact absurd rfl hclose
    · rfl

theorem readContent_eq (h : (readContent (.char c :: rest) c rest).Stays
      (.char c :: rest) (.char c :: rest')) :
    readContent (.char c :: rest') c rest' = readContent (.char c :: rest) c rest := by
  by_cases hangle : c = '<'
  · subst hangle
    have halike : Alike rest rest' := h.alike_rest
    rw [readContent_angle] at h ⊢
    rw [readContent_angle, frontIs_of_alike (blind_single rfl) halike,
      frontIs_of_alike blind_isAlpha halike]
    apply h.ite
    · intro hclose hstays
      obtain ⟨tail, rfl⟩ := frontIs_single_iff.1 hclose
      rw [← frontIs_of_alike (blind_single rfl) halike] at hclose
      obtain ⟨tail', rfl⟩ := frontIs_single_iff.1 hclose
      exact readTagClose_eq hstays
    · intro _ h
      exact h.ite (fun _ hopen => readTagOpen_eq hopen) fun _ htext => htext.verbatim
  · unfold readContent at h ⊢
    refine h.ite (fun _ _ => rfl) fun _ h => ?_
    rw [if_neg hangle] at h ⊢
    rw [if_neg hangle]
    refine h.ite (fun _ hopen => hopen.verbatim) fun _ h => ?_
    refine h.ite (fun _ h => absurd h not_stays_rejectChar) fun _ h => ?_
    rw [run_of_alike blind_isTextChar h.alike]
    exact h.verbatim

/-! ## Styles -/

/-- A style that begins with a quote, or with another character. -/
theorem stylePiece_cons (quote : Char) (body : Source) :
    stylePiece (.char quote :: body) =
      if quote = '"' || quote = '\'' then
        if upTo (· == quote) body = body.length then
          .error .unterminatedStyle (upTo (· == quote) body + 1) (Source.text body)
        else .token .styleProperty (upTo (· == quote) body + 2)
          (styleText (body.take (upTo (· == quote) body)))
      else .token .styleProperty (styleWidth (.char quote :: body))
        (styleText ((SourceUnit.char quote :: body).take (styleWidth (.char quote :: body)))) :=
  rfl

theorem bareStyle_eq (halike : Alike s s')
    (hfront : s'.take (styleWidth s) = s.take (styleWidth s)) :
    Piece.token .styleProperty (styleWidth s') (styleText (s'.take (styleWidth s'))) =
      .token .styleProperty (styleWidth s) (styleText (s.take (styleWidth s))) := by
  rw [styleWidth_of_alike halike, hfront]

theorem stylePiece_eq (halike : Alike s s') (hsound : (stylePiece s).IsSound)
    (hfront : s'.take (stylePiece s).width = s.take (stylePiece s).width) :
    stylePiece s' = stylePiece s := by
  cases halike with
  | nil => rfl
  | @cons u u' rest rest' hu hrest =>
      cases u with
      | invalid b =>
          obtain rfl := eq_invalid_of_alike hu
          exact bareStyle_eq (.cons hu hrest) hfront
      | char quote =>
          obtain ⟨quote', rfl, hlower⟩ := exists_char_of_alike hu
          have hquotes : Blind fun c => c = '"' || c = '\'' := blind_of_upper rfl
          have htest := hquotes.eq hlower
          rw [stylePiece_cons] at hsound hfront ⊢
          rw [stylePiece_cons, htest]
          split
          next hquote =>
            rw [if_pos hquote] at hsound hfront
            have hmark : quote.isAlpha = false := by
              rw [Bool.or_eq_true, decide_eq_true_eq, decide_eq_true_eq] at hquote
              rcases hquote with rfl | rfl
              · rfl
              · rfl
            obtain rfl : quote' = quote := eq_of_not_isAlpha hlower hmark
            rw [upTo_of_alike (blind_single hmark) hrest, ← List.Forall₂.length_eq hrest]
            split
            next hopen =>
              rw [if_pos hopen] at hsound
              exact hsound.elim
            next hopen =>
              rw [if_neg hopen] at hfront
              have hbody := take_of_le (List.cons.inj hfront).2 (Nat.le_succ _)
              rw [hbody]
          next hquote =>
            rw [if_neg hquote] at hfront
            exact bareStyle_eq (.cons hu hrest) hfront

theorem readStyle_eq (h : (readStyle s).Stays s s') : readStyle s' = readStyle s := by
  have hpiece : stylePiece (s'.drop (run isSpacing s)) = stylePiece (s.drop (run isSpacing s)) := by
    apply stylePiece_eq (h.alike.drop _)
    · exact h.sound _ (List.mem_cons_of_mem _ List.mem_cons_self)
    · exact take_drop_of_take h.front
  unfold readStyle
  rw [run_of_alike blind_isSpacing h.alike]
  dsimp only
  rw [hpiece]

/-! ## All modes -/

theorem toNat_of_isAlpha (hc : c.isAlpha = true) : 65 ≤ c.toNat ∧ c.toNat ≤ 122 := by
  rcases Bool.or_eq_true_iff.1 hc with hupper | hlower
  · have hrange : 65 ≤ c.toNat ∧ c.toNat ≤ 90 := of_decide_eq_true hupper
    omega
  · have hfirst : 97 ≤ c.toNat := of_decide_eq_true (Bool.and_eq_true_iff.1 hlower).1
    have hlast : c.toNat ≤ 122 := of_decide_eq_true (Bool.and_eq_true_iff.1 hlower).2
    omega

theorem isForeignBlank_of_isAlpha (hc : c.isAlpha = true) : isForeignBlank c = false := by
  have hlast := (toNat_of_isAlpha hc).2
  rw [isForeignBlank, decide_eq_false (by omega), Bool.and_false]

/-- A letter is never passed over. -/
theorem width_pos_of_isAlpha (hmode : mode ≠ .styleValue) (hc : c.isAlpha = true) :
    0 < (read config mode afterOperand (.char c :: rest)).width := by
  cases mode with
  | normal => exact width_readCode_pos ..
  | expression => exact width_readCode_pos ..
  | tagAttribute => exact width_readAttribute_pos ..
  | tagContent =>
      exact width_readContent_pos rest (isForeignBlank_of_isAlpha hc)
  | styleValue => exact absurd rfl hmode

/-- The same reading is made of a source that is alike and the same where the reading is made. -/
theorem read_eq (h : (read config mode afterOperand s).Stays s s') :
    read config mode afterOperand s' = read config mode afterOperand s := by
  have halike := h.alike
  cases halike with
  | nil => rfl
  | @cons u u' rest rest' hu hrest =>
      cases u with
      | invalid b => exact absurd (h.sound _ List.mem_cons_self) id
      | char c =>
          obtain ⟨c', rfl, hlower⟩ := exists_char_of_alike hu
          by_cases hstyle : mode = .styleValue
          · subst hstyle
            exact readStyle_eq h
          · have hsame : c' = c := by
              cases hc : c.isAlpha with
              | false => exact eq_of_not_isAlpha hlower hc
              | true =>
                  have hfront := take_of_le h.front (width_pos_of_isAlpha hstyle hc)
                  exact SourceUnit.char.inj (List.cons.inj hfront).1
            subst hsame
            cases mode with
            | normal => exact readCode_eq h
            | expression => exact readCode_eq h
            | tagAttribute => exact readAttribute_eq h
            | tagContent => exact readContent_eq h
            | styleValue => exact absurd rfl hstyle

end Scan

end ComponentLang
