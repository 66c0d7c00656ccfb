import ComponentLang.Proofs.Scan.Alike

/-!
# Words

The words of the language are its keywords, `async` before a block, and the literals that are
spelled in letters. They are read in code alone, where a name may begin. If case is ignored, what a
word is does not depend on the case of its letters.
-/
namespace ComponentLang

/-- Whether a token of this kind is a word of the language. -/
def TokenKind.isWord : TokenKind → Bool
  | .keyword _ | .asyncBlock | .boolean | .null => true
  | _ => false

namespace Scan

open Source

variable {config : ScanConfig} {mode : Mode} {afterOperand : Bool} {s s' rest : Source} {c : Char}

/-! ## What is no word -/

/-- A piece that is no word. -/
def Piece.wordless : Piece → Bool
  | .token kind _ _ => !kind.isWord
  | .skip _ | .error .. => true

/-- A reading that makes no word. -/
def Reading.Wordless (r : Reading) : Prop := r.pieces.all Piece.wordless = true

theorem wordless_recovery (s : Source) : (recovery s).all Piece.wordless = true := by
  unfold recovery
  dsimp only
  split
  · rfl
  · rfl

theorem wordless_rejectUnit (problem : ScanError) (u : SourceUnit) (rest : Source) :
    (rejectUnit problem u rest).Wordless := wordless_recovery rest

theorem wordless_readModifier (rest : Source) : (readModifier rest).Wordless := by
  unfold readModifier
  split
  · rfl
  · exact wordless_recovery rest

theorem wordless_readString (quote : Char) (rest : Source) : (readString quote rest).Wordless := by
  unfold readString
  dsimp only
  repeat' split
  all_goals rfl

theorem wordless_readNumber (config : ScanConfig) (s : Source) :
    (readNumber config s).Wordless := by
  unfold readNumber
  repeat' split
  all_goals rfl

theorem wordless_of_mark? {kind : TokenKind} {width : Nat} (h : mark? c rest = some (kind, width)) :
    (Reading.verbatim kind width s).Wordless := by
  have hkinds : ∀ kind ∈ markKinds, kind.isWord = false := by decide
  show (!kind.isWord && true) = true
  rw [hkinds kind (mem_markKinds h)]
  rfl

theorem wordless_of_readShared? {r : Reading} (h : readShared? config s c rest = some r) :
    r.Wordless := by
  unfold readShared? at h
  split at h
  · cases h
    rfl
  split at h
  · obtain ⟨width, -, rfl⟩ := Option.map_eq_some_iff.1 h
    rfl
  split at h
  · cases h
    exact wordless_readString c rest
  split at h
  · cases h
    exact wordless_readNumber config s
  split at h
  · cases h
    rfl
  split at h
  · cases h
    exact wordless_readModifier rest
  · cases h

theorem wordless_readCode (hc : isNameStart c = false) :
    (readCode config mode afterOperand s c rest).Wordless := by
  unfold readCode
  split
  next hr => exact wordless_of_readShared? hr
  split
  · rfl
  split
  · rfl
  split
  · split
    · rfl
    · rfl
  split
  next hmark => exact wordless_of_mark? hmark
  · rw [hc]
    exact wordless_rejectUnit ..

theorem wordless_readAttribute : (readAttribute config s c rest).Wordless := by
  unfold readAttribute
  split
  next hr => exact wordless_of_readShared? hr
  split
  · rfl
  split
  · rfl
  split
  · rfl
  split
  · rfl
  split
  · unfold readAttributeName
    dsimp only
    split
    · rfl
    · rfl
  · exact wordless_rejectUnit ..

theorem wordless_readTagClose (rest : Source) : (readTagClose rest).Wordless := by
  unfold readTagClose
  extract_lets nameLength name afterName blanks width
  split
  · rfl
  · rfl

theorem wordless_readContent : (readContent s c rest).Wordless := by
  unfold readContent
  split
  · rfl
  split
  · split
    · exact wordless_readTagClose _
    · split
      · rfl
      · rfl
  split
  · rfl
  split
  · exact wordless_rejectUnit ..
  · rfl

theorem wordless_readStyle (s : Source) : (readStyle s).Wordless := by
  have hpiece : (stylePiece (s.drop (run isSpacing s))).wordless = true := by
    unfold stylePiece
    dsimp only
    repeat' split
    all_goals rfl
  unfold Reading.Wordless readStyle
  rw [List.all_cons, List.all_cons, hpiece]
  rfl

/-! ## What a word is -/

theorem isDigit_of_isNameStart (hc : isNameStart c = true) : c.isDigit = false := by
  have hfirst : 65 ≤ c.toNat := by
    rcases Bool.or_eq_true_iff.1 hc with hletter | hunderscore
    · exact (toNat_of_isAlpha hletter).1
    · rw [eq_of_beq hunderscore]
      decide
  apply Bool.eq_false_iff.2
  intro hdigit
  have hlast : c.toNat ≤ 57 := of_decide_eq_true (Bool.and_eq_true_iff.1 hdigit).2
  omega

/-- Where a name may begin, a word is read. -/
theorem readCode_of_isNameStart (hc : isNameStart c = true) :
    readCode config mode afterOperand s c rest = readWord config s := by
  have hne : ∀ d, isNameStart d = false → c ≠ d := by
    rintro d hd rfl
    rw [hc] at hd
    cases hd
  have hshared : readShared? config s c rest = none := by
    simp [readShared?, isSpacing, isDigit_of_isNameStart hc, hne ' ' rfl, hne '\t' rfl,
      hne '\r' rfl, hne '\n' rfl, hne '/' rfl, hne '"' rfl, hne '\'' rfl, hne '!' rfl, hne '@' rfl]
  have hmark : mark? c rest = none := by
    unfold mark?
    split
    all_goals first
      | rfl
      | exact absurd hc (by decide)
  simp [readCode, hshared, hmark, hne '<' rfl, hne '{' rfl, hne '}' rfl, hc]

/-- A reading makes no word, or it reads a word where a name begins in code. -/
theorem wordless_or_word (config : ScanConfig) (mode : Mode) (afterOperand : Bool) (s : Source) :
    (read config mode afterOperand s).Wordless ∨
      frontIs isNameStart s = true ∧ (mode = .normal ∨ mode = .expression) := by
  cases s with
  | nil => exact .inl rfl
  | cons u rest =>
      cases u with
      | invalid b => exact .inl (wordless_rejectUnit ..)
      | char c =>
          cases hc : isNameStart c with
          | true =>
              cases mode with
              | normal => exact .inr ⟨hc, .inl rfl⟩
              | expression => exact .inr ⟨hc, .inr rfl⟩
              | tagAttribute => exact .inl wordless_readAttribute
              | tagContent => exact .inl wordless_readContent
              | styleValue => exact .inl (wordless_readStyle _)
          | false =>
              cases mode with
              | normal => exact .inl (wordless_readCode hc)
              | expression => exact .inl (wordless_readCode hc)
              | tagAttribute => exact .inl wordless_readAttribute
              | tagContent => exact .inl wordless_readContent
              | styleValue => exact .inl (wordless_readStyle _)

theorem read_of_name (hfront : frontIs isNameStart s = true)
    (hmode : mode = .normal ∨ mode = .expression) :
    read config mode afterOperand s = readWord config s := by
  cases s with
  | nil => cases hfront
  | cons u rest =>
      cases u with
      | invalid b => cases hfront
      | char c =>
          rcases hmode with rfl | rfl
          · exact readCode_of_isNameStart hfront
          · exact readCode_of_isNameStart hfront

/-! ## Words in another case -/

theorem toLower_chars_of_alike (h : Alike s s') :
    (Source.chars s').map Char.toLower = (Source.chars s).map Char.toLower := by
  induction h with
  | nil => rfl
  | @cons u u' s s' hu _ ih =>
      rw [chars_cons, chars_cons, List.map_cons, List.map_cons, ih]
      cases u with
      | char c =>
          obtain ⟨c', rfl, hlower⟩ := exists_char_of_alike hu
          exact congrArg (· :: _) hlower
      | invalid b => rw [eq_invalid_of_alike hu]

/-- If case is ignored, a word is of the same kind in every source that is alike. -/
theorem readWord_of_alike (hconfig : config.keywordCase = .insensitive) (h : Alike s s') :
    readWord config s' =
      .token (wordKind config (Source.text (s.take (nameWidth s))) (s.drop (nameWidth s)))
        (nameWidth s) (Source.text (s'.take (nameWidth s))) := by
  have hlower := toLower_chars_of_alike (List.forall₂_take (nameWidth s) h)
  unfold readWord
  dsimp only
  rw [nameWidth_of_alike h, wordKind_of_alike _ (h.drop _)]
  unfold wordKind
  rw [hconfig]
  dsimp only [Source.text]
  rw [String.toList_ofList, String.toList_ofList, hlower]

/-- The type `Array` is no word of the language. -/
theorem ne_array_of_isWord (hconfig : config.keywordCase = .insensitive) {name : String}
    (h : (wordKind config name s).isWord = true) : name ≠ "Array" := by
  rintro rfl
  have hkind : wordKind config "Array" s = .identifier := by
    unfold wordKind
    rw [hconfig]
    rfl
  rw [hkind] at h
  cases h

end Scan

end ComponentLang
