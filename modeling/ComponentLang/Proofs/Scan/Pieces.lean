import ComponentLang.Scan.Read

/-!
# What the pieces of a reading stand for

A piece stands for the units at the front of a source that it is wide. A token of most kinds has
these units as its text, apart from one mark in front of it, and units are left out of all tokens
only as blanks, as a comment or as the mark of a style. Every reading consists of such pieces.
-/
namespace ComponentLang

/-- The mark in front of a token that is not part of its text. -/
def TokenKind.sigil : TokenKind → List Char
  | .tagOpen => ['<']
  | .valueBinding => ['!']
  | .atModifier => ['@']
  | _ => []

/-- Whether a token of a kind has the source text as its own, apart from the mark in front. -/
def TokenKind.isVerbatim : TokenKind → Bool
  | .string | .styleProperty | .tagClose | .error => false
  | _ => true

namespace Source

theorem length_pos_of_frontIs {p : Char → Bool} {s : Source} (h : frontIs p s = true) :
    0 < s.length := by
  cases s with
  | nil => cases h
  | cons u rest => simp

theorem run_drop_le (p : Char → Bool) (s : Source) {width : Nat} (h : width ≤ s.length) :
    width + run p (s.drop width) ≤ s.length := by
  have hrun := run_le p (s.drop width)
  rw [List.length_drop] at hrun
  omega

/-- The unit at the place that `upTo` finds, if there is one, is in the class. -/
theorem satisfies_of_getElem?_upTo {p : Char → Bool} {s : Source} {u : SourceUnit}
    (h : s[upTo p s]? = some u) : u.satisfies p = true := by
  induction s with
  | nil => cases h
  | cons v rest ih =>
      unfold upTo at h
      split at h
      · rename_i hv
        obtain rfl := Option.some.inj h
        exact hv
      · exact ih h

end Source

namespace Scan
open Source (frontIs run upTo)

/-- A comment of `width` units at the front of `s`. -/
inductive Comment (s : Source) (width : Nat) : Prop
  | line (body : Source) : s.take width = .char '/' :: .char '/' :: body →
      .char '\n' ∉ body → (∀ u, s[width]? = some u → u = .char '\n') → Comment s width
  | block (body : Source) :
      s.take width = .char '/' :: .char '*' :: (body ++ [.char '*', .char '/']) →
      ¬ [.char '*', .char '/'] <:+: body → Comment s width
  | openBlock (body : Source) : s = .char '/' :: .char '*' :: body → width = s.length →
      ¬ [.char '*', .char '/'] <:+: body → Comment s width

/-- `width` units at the front of `s` that belong to no token. -/
inductive Skipped (s : Source) (width : Nat) : Prop
  | blanks : (∀ u ∈ s.take width, u.satisfies isSpacing = true) → Skipped s width
  | comment : Comment s width → Skipped s width
  | style : Source.chars (s.take width) = "style:".toList → Skipped s width

/-- A piece stands for the front of `s`. -/
def Piece.Fits (s : Source) (piece : Piece) : Prop :=
  piece.width ≤ s.length ∧
    match piece with
    | .skip width => Skipped s width
    | .token kind width lexeme =>
      kind.isVerbatim = true → kind.sigil ++ lexeme.toList = Source.chars (s.take width)
    | .error .. => True

/-- Pieces that stand for the front of `s`, one after the other. -/
def Piece.FitAll (s : Source) : List Piece → Prop
  | [] => True
  | piece :: rest => piece.Fits s ∧ FitAll (s.drop piece.width) rest

/-- The reading stands for the front of `s`. -/
def Reading.Fits (s : Source) (r : Reading) : Prop := Piece.FitAll s r.pieces

/-! ## Comments -/

/-- Whether `*/` begins further on is decided by what follows the first unit. -/
theorem not_infix_cons {u : SourceUnit} {rest body : Source} (hbody : body <+: rest)
    (h : ¬ [.char '*', .char '/'] <:+: body)
    (hu : ∀ tail, u = .char '*' → rest = .char '/' :: tail → False) :
    ¬ [.char '*', .char '/'] <:+: u :: body := by
  intro hinfix
  rcases List.infix_cons_iff.mp hinfix with hprefix | hinfix
  · obtain ⟨hstar, hslash⟩ := List.cons_prefix_cons.mp hprefix
    obtain ⟨tail, htail⟩ := hslash.trans hbody
    exact hu tail hstar.symm htail.symm
  · exact h hinfix

/-- A block comment ends with the first `*/` or with the source. -/
theorem blockCommentWidth_spec (s : Source) :
    (∃ body, s.take (blockCommentWidth s) = body ++ [.char '*', .char '/'] ∧
      ¬ [.char '*', .char '/'] <:+: body) ∨
    (blockCommentWidth s = s.length ∧ ¬ [.char '*', .char '/'] <:+: s) := by
  induction s using blockCommentWidth.induct with
  | case1 => exact .inr ⟨rfl, by simp⟩
  | case2 rest => exact .inl ⟨[], by simp [blockCommentWidth]⟩
  | case3 u rest hu ih =>
      have hwidth : blockCommentWidth (u :: rest) = blockCommentWidth rest + 1 := by
        rw [blockCommentWidth]
        exact hu
      rw [hwidth]
      rcases ih with ⟨body, htake, hnot⟩ | ⟨hlength, hnot⟩
      · have hbody : body <+: rest :=
          (List.prefix_append body _).trans (htake ▸ List.take_prefix _ rest)
        exact .inl ⟨u :: body, by simp [htake], not_infix_cons hbody hnot hu⟩
      · exact .inr ⟨by simp [hlength], not_infix_cons List.prefix_rfl hnot hu⟩

theorem blockCommentWidth_le (s : Source) : blockCommentWidth s ≤ s.length := by
  induction s using blockCommentWidth.induct with
  | case1 => simp [blockCommentWidth]
  | case2 rest => simp [blockCommentWidth]
  | case3 u rest hu ih =>
      have hwidth : blockCommentWidth (u :: rest) = blockCommentWidth rest + 1 := by
        rw [blockCommentWidth]
        exact hu
      rw [hwidth, List.length_cons]
      omega

theorem comment_of_commentWidth? {rest : Source} {width : Nat}
    (h : commentWidth? rest = some width) :
    width ≤ rest.length + 1 ∧ Comment (.char '/' :: rest) width := by
  unfold commentWidth? at h
  split at h
  · rename_i tail
    obtain rfl := Option.some.inj h
    have hle := Source.upTo_le (· == '\n') tail
    refine ⟨by simpa using hle, .line (tail.take (upTo (· == '\n') tail)) ?_ ?_ ?_⟩
    · simp
    · intro hmem
      have hnot := Source.not_satisfies_of_mem_take_upTo hmem
      simp at hnot
    · intro u hu
      have hline : u.satisfies (· == '\n') = true :=
        Source.satisfies_of_getElem?_upTo (s := tail) hu
      cases u with
      | char c => simpa using hline
      | invalid b => cases hline
  · rename_i tail
    obtain rfl := Option.some.inj h
    have hle := blockCommentWidth_le tail
    refine ⟨by simpa using hle, ?_⟩
    rcases blockCommentWidth_spec tail with ⟨body, htake, hnot⟩ | ⟨hlength, hnot⟩
    · exact .block body (by simp [htake]) hnot
    · exact .openBlock tail rfl (by simp [hlength]) hnot
  · cases h

/-! ## One piece -/

theorem fits_skip {s : Source} {width : Nat} (hwidth : width ≤ s.length)
    (hskipped : Skipped s width) : (Reading.skip width).Fits s :=
  ⟨⟨hwidth, hskipped⟩, trivial⟩

theorem fits_error (problem : ScanError) {s : Source} {width : Nat} (lexeme : String)
    (hwidth : width ≤ s.length) : (Reading.error problem width lexeme).Fits s :=
  ⟨⟨hwidth, trivial⟩, trivial⟩

theorem fits_token {kind : TokenKind} {s : Source} {width : Nat} {lexeme : String}
    (hwidth : width ≤ s.length)
    (hlexeme : kind.isVerbatim = true → kind.sigil ++ lexeme.toList = Source.chars (s.take width)) :
    (Reading.token kind width lexeme).Fits s :=
  ⟨⟨hwidth, hlexeme⟩, trivial⟩

theorem fits_verbatim {kind : TokenKind} {s : Source} {width : Nat} (hkind : kind.sigil = [])
    (hwidth : width ≤ s.length) : (Reading.verbatim kind width s).Fits s := by
  refine fits_token hwidth fun _ => ?_
  rw [hkind, Source.text, String.toList_ofList, List.nil_append]

theorem nameWidth_le (s : Source) : nameWidth s ≤ s.length := by
  induction s with
  | nil => simp [nameWidth]
  | cons u rest ih =>
      cases u with
      | invalid b => simp [nameWidth]
      | char c =>
          unfold nameWidth
          split
          · simpa using ih
          · simp

theorem fits_markedName {kind : TokenKind} {c : Char} (hkind : kind.sigil = [c]) (rest : Source) :
    (markedName kind rest).Fits (.char c :: rest) := by
  refine fits_token (by simpa using nameWidth_le rest) fun _ => ?_
  rw [hkind, Source.text, String.toList_ofList, List.take_succ_cons]
  rfl

theorem fitAll_recovery (s : Source) : Piece.FitAll s (recovery s) := by
  unfold recovery
  dsimp only
  split
  · trivial
  · exact fits_verbatim rfl (Source.upTo_le _ s)

theorem fits_rejectUnit (problem : ScanError) (u : SourceUnit) (rest : Source) :
    (rejectUnit problem u rest).Fits (u :: rest) :=
  ⟨⟨by simp [Piece.width], trivial⟩, fitAll_recovery rest⟩

theorem fits_readModifier (rest : Source) : (readModifier rest).Fits (.char '@' :: rest) := by
  unfold readModifier
  split
  · exact fits_markedName rfl rest
  · exact ⟨⟨by simp [Piece.width], trivial⟩, fitAll_recovery rest⟩

theorem width_quotedBody_le (quote : Char) (s : Source) :
    (quotedBody quote s).width ≤ s.length := by
  fun_induction quotedBody quote s with
  | case1 => exact Nat.le_refl 0
  | case2 b rest ih =>
      simp only [QuotedBody.cons, List.length_cons]
      omega
  | case3 rest => exact Nat.zero_le _
  | case4 rest hline => simp
  | case5 hline hquote => simp
  | case6 u rest d hd hline hquote ih =>
      simp only [QuotedBody.cons, List.length_cons]
      omega
  | case7 u rest hnone hline hquote ih =>
      simp only [QuotedBody.cons, List.length_cons]
      omega
  | case8 c rest hline hquote hslash ih =>
      simp only [QuotedBody.cons, List.length_cons]
      omega

theorem fits_readString (quote : Char) (rest : Source) :
    (readString quote rest).Fits (.char quote :: rest) := by
  have hwidth : (quotedBody quote rest).width + 1 ≤ (SourceUnit.char quote :: rest).length := by
    simpa using width_quotedBody_le quote rest
  unfold readString
  dsimp only
  split
  · split
    · exact fits_token hwidth fun h => by cases h
    · exact fits_error _ _ hwidth
  · exact fits_error _ _ hwidth

/-! ## Numbers and marks -/

theorem fractionWidth_le (s : Source) : fractionWidth s ≤ s.length := by
  unfold fractionWidth
  split
  · rename_i rest
    split
    · simpa using Source.run_le Char.isDigit rest
    · simp
  · simp

theorem exponentWidth_le (s : Source) : exponentWidth s ≤ s.length := by
  unfold exponentWidth
  split
  · rename_i c rest
    split
    · extract_lets sign digits
      split
      · rename_i hfront
        have hdigits := Source.length_pos_of_frontIs hfront
        have hrun := Source.run_le Char.isDigit digits
        simp only [digits, List.length_drop] at hdigits hrun ⊢
        simp only [List.length_cons]
        omega
      · simp
    · simp
  · simp

theorem length_of_baseDigits? {s : Source} {isDigit : Char → Bool}
    (h : baseDigits? s = some isDigit) : 2 ≤ s.length := by
  unfold baseDigits? at h
  split at h
  · simp
  · cases h

theorem width_le_of_numberShape? {config : ScanConfig} {s : Source} {kind : NumberKind}
    {width : Nat} (h : numberShape? config s = some (kind, width)) : width ≤ s.length := by
  unfold numberShape? at h
  split at h
  · rename_i isDigit hbase
    have hrun := Source.run_drop_le isDigit s (length_of_baseDigits? hbase)
    dsimp only at h
    split at h
    · cases h
    · obtain ⟨-, rfl⟩ := Prod.mk.inj (Option.some.inj h)
      omega
  · obtain ⟨-, rfl⟩ := Prod.mk.inj (Option.some.inj h)
    have hwhole := Source.run_le Char.isDigit s
    have hfraction := fractionWidth_le (s.drop (run Char.isDigit s))
    have hexponent := exponentWidth_le
      (s.drop (run Char.isDigit s + fractionWidth (s.drop (run Char.isDigit s))))
    simp only [List.length_drop] at hfraction hexponent
    split <;> omega

theorem fits_malformedNumber {s : Source} {width : Nat} (h : width ≤ s.length) :
    (malformedNumber width s).Fits s :=
  fits_error _ _ (Source.run_drop_le isWordChar s h)

theorem fits_readNumber (config : ScanConfig) (s : Source) : (readNumber config s).Fits s := by
  unfold readNumber
  split
  · rename_i hnone
    apply fits_malformedNumber
    unfold numberShape? at hnone
    split at hnone
    · rename_i hbase
      exact length_of_baseDigits? hbase
    · cases hnone
  · rename_i kind width hshape
    have hwidth := width_le_of_numberShape? hshape
    split
    · exact fits_malformedNumber hwidth
    · exact fits_verbatim rfl hwidth

theorem longer_spec (second : Char) {long short : TokenKind} (rest : Source)
    (hlong : long.sigil = []) (hshort : short.sigil = []) :
    (longer second long short rest).1.sigil = [] ∧
      (longer second long short rest).2 ≤ rest.length + 1 := by
  unfold longer
  split
  · rename_i hfront
    have hlength := Source.length_pos_of_frontIs hfront
    exact ⟨hlong, by omega⟩
  · exact ⟨hshort, by omega⟩

theorem mark?_spec {c : Char} {rest : Source} {kind : TokenKind} {width : Nat}
    (h : mark? c rest = some (kind, width)) : kind.sigil = [] ∧ width ≤ rest.length + 1 := by
  have hpair : ∀ {pair : TokenKind × Nat}, pair.1.sigil = [] ∧ pair.2 ≤ rest.length + 1 →
      some pair = some (kind, width) → kind.sigil = [] ∧ width ≤ rest.length + 1 := by
    intro pair hspec heq
    obtain rfl := Option.some.inj heq
    exact hspec
  unfold mark? at h
  split at h
  all_goals try split at h
  all_goals first
    | exact hpair (longer_spec _ rest rfl rfl) h
    | (rename_i hfront
       exact hpair ⟨rfl, Nat.succ_le_succ (Source.length_pos_of_frontIs hfront)⟩ h)
    | exact hpair ⟨rfl, Nat.le_add_left ..⟩ h
    | cases h

/-! ## All modes -/

theorem fits_readShared? {config : ScanConfig} {c : Char} {rest : Source} {r : Reading}
    (h : readShared? config (.char c :: rest) c rest = some r) : r.Fits (.char c :: rest) := by
  unfold readShared? at h
  split at h
  · rename_i hspacing
    obtain rfl := Option.some.inj h
    refine fits_skip (by simp) (.blanks fun u hu => ?_)
    obtain rfl := List.mem_singleton.mp hu
    exact hspacing
  split at h
  · rename_i hslash
    obtain ⟨width, hwidth, rfl⟩ := Option.map_eq_some_iff.mp h
    obtain ⟨hle, hcomment⟩ := comment_of_commentWidth? hwidth
    subst hslash
    exact fits_skip hle (.comment hcomment)
  split at h
  · obtain rfl := Option.some.inj h
    exact fits_readString c rest
  split at h
  · obtain rfl := Option.some.inj h
    exact fits_readNumber config _
  split at h
  · rename_i hbang
    obtain rfl := Option.some.inj h
    simp only [Bool.and_eq_true, decide_eq_true_eq] at hbang
    obtain rfl := hbang.1
    exact fits_markedName rfl rest
  split at h
  · rename_i hat
    obtain rfl := Option.some.inj h
    subst hat
    exact fits_readModifier rest
  · cases h

theorem fits_readTagOpen (rest : Source) : (readTagOpen rest).Fits (.char '<' :: rest) :=
  fits_markedName rfl rest

theorem fits_readWord (config : ScanConfig) (s : Source) : (readWord config s).Fits s := by
  refine fits_token (nameWidth_le s) fun _ => ?_
  have hkind : ∀ name rest, (wordKind config name rest).sigil = [] := by
    intro name rest
    unfold wordKind
    dsimp only
    repeat' split
    all_goals rfl
  rw [hkind, Source.text, String.toList_ofList, List.nil_append]

theorem fits_readCode (config : ScanConfig) (mode : Mode) (afterOperand : Bool) (c : Char)
    (rest : Source) :
    (readCode config mode afterOperand (.char c :: rest) c rest).Fits (.char c :: rest) := by
  unfold readCode
  split
  · rename_i r hr
    exact fits_readShared? hr
  split
  · rename_i htag
    simp only [Bool.and_eq_true, decide_eq_true_eq] at htag
    obtain rfl := htag.1.1.1
    exact fits_readTagOpen rest
  split
  · exact fits_verbatim rfl (by simp)
  split
  · refine fits_verbatim ?_ (by simp)
    split <;> rfl
  split
  · rename_i kind width hmark
    obtain ⟨hsigil, hwidth⟩ := mark?_spec hmark
    exact fits_verbatim hsigil hwidth
  split
  · exact fits_readWord config _
  · exact fits_rejectUnit ..

/-- The mark of a style is the word and the colon after it. -/
theorem chars_take_style {s : Source} {width : Nat}
    (hname : Source.text (s.take width) = "style")
    (hcolon : frontIs (· == ':') (s.drop width) = true) :
    width + 1 ≤ s.length ∧ Source.chars (s.take (width + 1)) = "style:".toList := by
  have hlength := Source.length_pos_of_frontIs hcolon
  rw [List.length_drop] at hlength
  refine ⟨by omega, ?_⟩
  have hchars : Source.chars (s.take width) = "style".toList := by
    rw [← hname, Source.text, String.toList_ofList]
  have htake : s.take (width + 1) = s.take width ++ (s.drop width).take 1 := List.take_add
  cases hdrop : s.drop width with
  | nil => simp [hdrop, frontIs] at hcolon
  | cons u rest =>
      rw [hdrop] at hcolon
      have hu : u = .char ':' := by
        cases u with
        | invalid b => cases hcolon
        | char c => simpa [frontIs] using hcolon
      rw [htake, hdrop, Source.chars_append, hchars, hu]
      rfl

theorem fits_readAttributeName (s : Source) : (readAttributeName s).Fits s := by
  unfold readAttributeName
  dsimp only
  split
  · rename_i hstyle
    simp only [Bool.and_eq_true, beq_iff_eq] at hstyle
    obtain ⟨hwidth, hchars⟩ := chars_take_style hstyle.1 hstyle.2
    exact fits_skip hwidth (.style hchars)
  · exact fits_verbatim rfl (nameWidth_le s)

theorem fits_readAttribute (config : ScanConfig) (c : Char) (rest : Source) :
    (readAttribute config (.char c :: rest) c rest).Fits (.char c :: rest) := by
  unfold readAttribute
  split
  · rename_i r hr
    exact fits_readShared? hr
  split
  · exact fits_verbatim rfl (by simp)
  split
  · rename_i hclose
    simp only [Bool.and_eq_true] at hclose
    exact fits_verbatim rfl (Nat.succ_le_succ (Source.length_pos_of_frontIs hclose.2))
  split
  · exact fits_verbatim rfl (by simp)
  split
  · exact fits_verbatim rfl (by simp)
  split
  · exact fits_readAttributeName _
  · exact fits_rejectUnit ..

theorem fits_readTagClose (rest : Source) :
    (readTagClose rest).Fits (.char '<' :: .char '/' :: rest) := by
  unfold readTagClose
  extract_lets nameLength name afterName blanks width
  have hname : nameLength ≤ rest.length := by
    simp only [nameLength]
    split
    · exact nameWidth_le rest
    · exact Nat.zero_le _
  have hblanks : nameLength + blanks ≤ rest.length := Source.run_drop_le isSpacing rest hname
  split
  · rename_i hangle
    have hlength := Source.length_pos_of_frontIs hangle
    simp only [afterName, List.length_drop] at hlength
    refine fits_token ?_ fun h => by cases h
    simp only [width, List.length_cons]
    omega
  · have hwidth : width ≤ (SourceUnit.char '<' :: .char '/' :: rest).length := by
      simp only [width, List.length_cons]
      omega
    exact ⟨⟨hwidth, fun h => by cases h⟩, ⟨Nat.zero_le _, trivial⟩, trivial⟩

theorem fits_readContent (c : Char) (rest : Source) :
    (readContent (.char c :: rest) c rest).Fits (.char c :: rest) := by
  unfold readContent
  split
  · rename_i hspacing
    refine fits_skip (by simp) (.blanks fun u hu => ?_)
    obtain rfl := List.mem_singleton.mp hu
    exact hspacing
  split
  · rename_i hangle
    subst hangle
    split
    · exact fits_readTagClose _
    · split
      · exact fits_readTagOpen rest
      · exact fits_verbatim rfl (by simp)
  split
  · exact fits_verbatim rfl (by simp)
  split
  · exact fits_rejectUnit ..
  · exact fits_verbatim rfl (Source.run_le isTextChar _)

theorem styleWidth_le (s : Source) : styleWidth s ≤ s.length := by
  fun_induction styleWidth s with
  | case1 => exact Nat.le_refl 0
  | case2 rest => exact Nat.zero_le _
  | case3 rest => exact Nat.zero_le _
  | case4 u rest _ _ ih => exact Nat.succ_le_succ ih

theorem fits_stylePiece (s : Source) : (stylePiece s).Fits s := by
  unfold stylePiece
  extract_lets bare
  have hbare : bare ≤ s.length := styleWidth_le s
  split
  · rename_i quote body
    split
    · extract_lets width
      have hwidth : width ≤ body.length := Source.upTo_le (· == quote) body
      split
      · exact ⟨Nat.succ_le_succ hwidth, trivial⟩
      · rename_i hne
        refine ⟨?_, fun h => by cases h⟩
        simp only [Piece.width, List.length_cons]
        omega
    · exact ⟨hbare, fun h => by cases h⟩
  · exact ⟨hbare, fun h => by cases h⟩

theorem fits_readStyle (s : Source) : (readStyle s).Fits s :=
  ⟨⟨Source.run_le isSpacing s, .blanks fun _ hu => Source.satisfies_of_mem_take_run hu⟩,
    fits_stylePiece _, trivial⟩

/-- Every reading stands for the front of the source that it is made of. -/
theorem fits_read (config : ScanConfig) (mode : Mode) (afterOperand : Bool) (s : Source) :
    (read config mode afterOperand s).Fits s := by
  unfold read
  split
  · trivial
  · exact fits_rejectUnit ..
  · cases mode with
    | normal => exact fits_readCode ..
    | expression => exact fits_readCode ..
    | tagAttribute => exact fits_readAttribute ..
    | tagContent => exact fits_readContent ..
    | styleValue => exact fits_readStyle _

end Scan

end ComponentLang
