import ComponentLang.Proofs.Scan.Reached

/-!
# How a reading changes the mode

Modes may not stand on each other in every way. A few kinds of tokens enter or leave a mode, and
all others leave the modes alone; the one mode that no token enters is that of a style value.
`Reading.Moves` lists the ways in which a reading changes the mode it is made in, and every reading
is one of them.
-/
namespace ComponentLang

/-- Which mode may be entered from which. -/
def Mode.mayStandOn : Mode → Mode → Bool
  | .normal, .normal | .normal, .expression => true
  | .tagAttribute, .normal | .tagAttribute, .tagContent => true
  | .tagContent, .normal | .tagContent, .tagContent => true
  | .expression, .tagAttribute | .expression, .tagContent => true
  | .styleValue, .tagAttribute => true
  | _, _ => false

/-- Modes, innermost first, each of which may stand on the next, with `normal` outermost. -/
inductive NestedModes : List Mode → Prop
  | outermost : NestedModes [.normal]
  | on {upper lower : Mode} {below : List Mode} : upper.mayStandOn lower = true →
      NestedModes (lower :: below) → NestedModes (upper :: lower :: below)

namespace ModeStack

def Nested (modes : ModeStack) : Prop := NestedModes (modes.top :: modes.below)

theorem nested_initial : initial.Nested := .outermost

theorem Nested.push {modes : ModeStack} (h : modes.Nested) {mode : Mode}
    (hmode : mode.mayStandOn modes.top = true) : (modes.push mode).Nested := .on hmode h

/-- A mode that is not outermost stands on another. -/
theorem Nested.exists_below {modes : ModeStack} (h : modes.Nested) (htop : modes.top ≠ .normal) :
    ∃ lower below, modes.below = lower :: below ∧ modes.top.mayStandOn lower = true ∧
      NestedModes (lower :: below) := by
  obtain ⟨top, below⟩ := modes
  cases h with
  | outermost => exact absurd rfl htop
  | on hmay hbelow => exact ⟨_, _, rfl, hmay, hbelow⟩

theorem Nested.pop {modes : ModeStack} (h : modes.Nested) : modes.pop.Nested := by
  obtain ⟨top, below⟩ := modes
  cases h with
  | outermost => exact .outermost
  | on _ hbelow => exact hbelow

/-- Nothing stands on a style value. -/
theorem Nested.styleValue_notMem_below {modes : ModeStack} (h : modes.Nested) :
    Mode.styleValue ∉ modes.below := by
  obtain ⟨top, below⟩ := modes
  suffices ∀ l, NestedModes l → Mode.styleValue ∉ l.tail from this _ h
  intro l hl
  induction hl with
  | outermost => simp
  | @on upper lower below hmay _ ih =>
      intro hmem
      rcases List.mem_cons.mp hmem with rfl | hmem
      · cases upper <;> cases hmay
      · exact ih hmem

/-- A style value is never what is returned to. -/
theorem Nested.top_pop_ne {modes : ModeStack} (h : modes.Nested) : modes.pop.top ≠ .styleValue := by
  have hmem := h.styleValue_notMem_below
  unfold ModeStack.pop
  split
  · simp [initial]
  · rename_i mode below hbelow
    rw [hbelow] at hmem
    exact fun hstyle => hmem (hstyle ▸ List.mem_cons_self)

/-- What a token of a kind does to the modes. -/
def onKind (modes : ModeStack) : TokenKind → ModeStack
  | .lbrace => modes.push .normal
  | .expressionStart => modes.push .expression
  | .tagOpen => modes.push .tagAttribute
  | .tagEnd => { modes with top := .tagContent }
  | .rbrace | .expressionEnd | .tagSelfClose | .tagClose => modes.pop
  | _ => modes

/-- The modes after tokens of the given kinds, read off the kinds alone. -/
def replay (kinds : List TokenKind) : ModeStack := kinds.foldl onKind initial

theorem replay_append_singleton (kinds : List TokenKind) (kind : TokenKind) :
    replay (kinds ++ [kind]) = (replay kinds).onKind kind := by
  simp [replay]

theorem count_toList (modes : ModeStack) (mode : Mode) :
    modes.toList.count mode = modes.below.count mode + if modes.top = mode then 1 else 0 := by
  simp [toList, List.count_cons]

theorem count_pop (modes : ModeStack) {mode : Mode} (h : mode ≠ .normal) :
    modes.pop.toList.count mode = modes.below.count mode := by
  obtain ⟨top, below⟩ := modes
  cases below with
  | nil => simp [pop, h.symm]
  | cons lower below => simp [pop, toList, List.count_cons]

end ModeStack

/-- Whether tokens of a kind stand for a part of a source and leave the modes alone. -/
def TokenKind.isNeutral : TokenKind → Bool
  | .lbrace | .expressionStart | .tagOpen | .tagEnd | .rbrace | .expressionEnd | .tagSelfClose
  | .tagClose | .eof => false
  | _ => true

/-- The mode that a token of a kind enters. -/
def TokenKind.enters? : TokenKind → Option Mode
  | .lbrace => some .normal
  | .expressionStart => some .expression
  | .tagOpen => some .tagAttribute
  | _ => none

/-- The mode that a token of a kind leaves. -/
def TokenKind.leaves? : TokenKind → Option Mode
  | .rbrace => some .normal
  | .expressionEnd => some .expression
  | .tagSelfClose => some .tagAttribute
  | .tagClose => some .tagContent
  | _ => none

theorem ModeStack.onKind_of_enters (modes : ModeStack) {kind : TokenKind} {mode : Mode}
    (h : kind.enters? = some mode) : modes.onKind kind = modes.push mode := by
  cases kind <;> first | (obtain rfl := Option.some.inj h; rfl) | cases h

theorem ModeStack.onKind_of_leaves (modes : ModeStack) {kind : TokenKind} {mode : Mode}
    (h : kind.leaves? = some mode) : modes.onKind kind = modes.pop := by
  cases kind <;> first | rfl | cases h

theorem ModeStack.onKind_of_isNeutral (modes : ModeStack) {kind : TokenKind}
    (h : kind.isNeutral = true) : modes.onKind kind = modes := by
  cases kind <;> first | rfl | cases h

theorem ModeStack.replay_append_neutral (kinds : List TokenKind) {more : List TokenKind}
    (h : ∀ kind ∈ more, kind.isNeutral = true) : replay (kinds ++ more) = replay kinds := by
  induction more generalizing kinds with
  | nil => rw [List.append_nil]
  | cons kind more ih =>
      rw [List.append_cons, ih _ fun k hk => h k (List.mem_cons_of_mem _ hk),
        replay_append_singleton, onKind_of_isNeutral _ (h kind List.mem_cons_self)]

namespace Scan
open Source (frontIs run upTo)

/-- A piece that makes no token, or a token that leaves the modes alone. -/
def Piece.Neutral : Piece → Prop
  | .token kind _ _ => kind.isNeutral = true
  | .skip _ | .error .. => True

def Reading.Neutral (r : Reading) : Prop := r.change = .stay ∧ ∀ piece ∈ r.pieces, piece.Neutral

/-- The ways in which a reading made in a mode can change the modes, each with its tokens. -/
inductive Reading.Moves : Mode → Reading → Prop
  | neutral {mode : Mode} {r : Reading} : r.Neutral → Moves mode r
  | brace {mode : Mode} (width : Nat) (lexeme : String) : Mode.normal.mayStandOn mode = true →
      Moves mode ⟨[.token .lbrace width lexeme], .push .normal⟩
  | expression {mode : Mode} (width : Nat) (lexeme : String) :
      Mode.expression.mayStandOn mode = true →
      Moves mode ⟨[.token .expressionStart width lexeme], .push .expression⟩
  | tag {mode : Mode} (width : Nat) (lexeme : String) : Mode.tagAttribute.mayStandOn mode = true →
      Moves mode ⟨[.token .tagOpen width lexeme], .push .tagAttribute⟩
  | content (width : Nat) (lexeme : String) :
      Moves .tagAttribute ⟨[.token .tagEnd width lexeme], .replace .tagContent⟩
  | style (width : Nat) : Moves .tagAttribute ⟨[.skip width], .push .styleValue⟩
  | endBrace (width : Nat) (lexeme : String) : Moves .normal ⟨[.token .rbrace width lexeme], .pop⟩
  | endExpression (width : Nat) (lexeme : String) :
      Moves .expression ⟨[.token .expressionEnd width lexeme], .pop⟩
  | selfClose (width : Nat) (lexeme : String) :
      Moves .tagAttribute ⟨[.token .tagSelfClose width lexeme], .pop⟩
  | close {pieces : List Piece} (width : Nat) (lexeme : String) :
      (∀ piece ∈ pieces, piece.Neutral) →
      Moves .tagContent ⟨.token .tagClose width lexeme :: pieces, .pop⟩
  | endStyle {pieces : List Piece} : (∀ piece ∈ pieces, piece.Neutral) →
      Moves .styleValue ⟨pieces, .pop⟩

theorem neutral_skip (width : Nat) : (Reading.skip width).Neutral :=
  ⟨rfl, by simp [Reading.skip, Piece.Neutral]⟩

theorem neutral_token {kind : TokenKind} (h : kind.isNeutral = true) (width : Nat)
    (lexeme : String) : (Reading.token kind width lexeme).Neutral :=
  ⟨rfl, by simpa [Reading.token, Piece.Neutral] using h⟩

theorem neutral_error (problem : ScanError) (width : Nat) (lexeme : String) :
    (Reading.error problem width lexeme).Neutral :=
  ⟨rfl, by simp [Reading.error, Piece.Neutral]⟩

theorem neutral_of_mem_recovery {s : Source} {piece : Piece} (h : piece ∈ recovery s) :
    piece.Neutral := by
  unfold recovery at h
  dsimp only at h
  split at h
  · cases h
  · obtain rfl := List.mem_singleton.mp h
    rfl

theorem neutral_rejectUnit (problem : ScanError) (u : SourceUnit) (rest : Source) :
    (rejectUnit problem u rest).Neutral := by
  refine ⟨rfl, fun piece hpiece => ?_⟩
  rcases List.mem_cons.mp hpiece with rfl | hpiece
  · trivial
  · exact neutral_of_mem_recovery hpiece

theorem neutral_readModifier (rest : Source) : (readModifier rest).Neutral := by
  unfold readModifier
  split
  · exact neutral_token rfl _ _
  · refine ⟨rfl, fun piece hpiece => ?_⟩
    rcases List.mem_cons.mp hpiece with rfl | hpiece
    · trivial
    · exact neutral_of_mem_recovery hpiece

theorem neutral_readString (quote : Char) (rest : Source) : (readString quote rest).Neutral := by
  unfold readString
  dsimp only
  split
  · split
    · exact neutral_token rfl _ _
    · exact neutral_error _ _ _
  · exact neutral_error _ _ _

theorem neutral_readNumber (config : ScanConfig) (s : Source) : (readNumber config s).Neutral := by
  unfold readNumber
  split
  · exact neutral_error _ _ _
  · split
    · exact neutral_error _ _ _
    · exact neutral_token rfl _ _

theorem isNeutral_wordKind (config : ScanConfig) (name : String) (rest : Source) :
    (wordKind config name rest).isNeutral = true := by
  unfold wordKind
  dsimp only
  repeat' split
  all_goals rfl

theorem isNeutral_longer {second : Char} {long short : TokenKind} (rest : Source)
    (hlong : long.isNeutral = true) (hshort : short.isNeutral = true) :
    (longer second long short rest).1.isNeutral = true := by
  unfold longer
  split
  · exact hlong
  · exact hshort

theorem isNeutral_of_mark? {c : Char} {rest : Source} {kind : TokenKind} {width : Nat}
    (h : mark? c rest = some (kind, width)) : kind.isNeutral = true := by
  unfold mark? at h
  split at h
  all_goals try split at h
  all_goals first
    | cases h; done
    | (obtain ⟨rfl, -⟩ := Prod.mk.inj (Option.some.inj h); rfl)
    | (have hkind := congrArg Prod.fst (Option.some.inj h)
       rw [show kind = _ from hkind.symm]
       exact isNeutral_longer rest rfl rfl)

theorem neutral_of_readShared? {config : ScanConfig} {s : Source} {c : Char} {rest : Source}
    {r : Reading} (h : readShared? config s c rest = some r) : r.Neutral := by
  unfold readShared? at h
  split at h
  · obtain rfl := Option.some.inj h
    exact neutral_skip 1
  split at h
  · obtain ⟨width, -, rfl⟩ := Option.map_eq_some_iff.mp h
    exact neutral_skip width
  split at h
  · obtain rfl := Option.some.inj h
    exact neutral_readString c rest
  split at h
  · obtain rfl := Option.some.inj h
    exact neutral_readNumber config s
  split at h
  · obtain rfl := Option.some.inj h
    exact neutral_token rfl _ _
  split at h
  · obtain rfl := Option.some.inj h
    exact neutral_readModifier rest
  · cases h

theorem moves_readTagOpen {mode : Mode} (h : Mode.tagAttribute.mayStandOn mode = true)
    (rest : Source) : (readTagOpen rest).Moves mode := .tag _ _ h

theorem moves_readCode (config : ScanConfig) {mode : Mode}
    (hmode : mode = .normal ∨ mode = .expression) (afterOperand : Bool) (s : Source) (c : Char)
    (rest : Source) : (readCode config mode afterOperand s c rest).Moves mode := by
  unfold readCode
  split
  · rename_i r hr
    exact .neutral (neutral_of_readShared? hr)
  split
  · rename_i htag
    refine moves_readTagOpen ?_ rest
    simp only [Bool.and_eq_true, decide_eq_true_eq] at htag
    rw [htag.1.1.2]
    rfl
  split
  · refine .brace _ _ ?_
    rcases hmode with rfl | rfl <;> rfl
  split
  · rcases hmode with rfl | rfl
    · exact .endBrace _ _
    · exact .endExpression _ _
  split
  · rename_i kind width hmark
    exact .neutral (neutral_token (isNeutral_of_mark? hmark) _ _)
  split
  · exact .neutral (neutral_token (isNeutral_wordKind ..) _ _)
  · exact .neutral (neutral_rejectUnit ..)

theorem moves_readAttributeName (s : Source) : (readAttributeName s).Moves .tagAttribute := by
  unfold readAttributeName
  dsimp only
  split
  · exact .style _
  · exact .neutral (neutral_token rfl _ _)

theorem moves_readAttribute (config : ScanConfig) (s : Source) (c : Char) (rest : Source) :
    (readAttribute config s c rest).Moves .tagAttribute := by
  unfold readAttribute
  split
  · rename_i r hr
    exact .neutral (neutral_of_readShared? hr)
  split
  · exact .content _ _
  split
  · exact .selfClose _ _
  split
  · exact .expression _ _ rfl
  split
  · exact .neutral (neutral_token rfl _ _)
  split
  · exact moves_readAttributeName s
  · exact .neutral (neutral_rejectUnit ..)

theorem moves_readTagClose (rest : Source) : (readTagClose rest).Moves .tagContent := by
  unfold readTagClose
  extract_lets nameLength name afterName blanks width
  split
  · refine .close _ _ ?_
    simp
  · refine .close _ _ ?_
    simp [Piece.Neutral]

theorem moves_readContent (s : Source) (c : Char) (rest : Source) :
    (readContent s c rest).Moves .tagContent := by
  unfold readContent
  split
  · exact .neutral (neutral_skip 1)
  split
  · split
    · exact moves_readTagClose _
    · split
      · exact moves_readTagOpen rfl rest
      · exact .neutral (neutral_token rfl _ _)
  split
  · exact .expression _ _ rfl
  split
  · exact .neutral (neutral_rejectUnit ..)
  · exact .neutral (neutral_token rfl _ _)

theorem neutral_stylePiece (s : Source) : (stylePiece s).Neutral := by
  unfold stylePiece
  dsimp only
  repeat' split
  all_goals trivial

theorem moves_readStyle (s : Source) : (readStyle s).Moves .styleValue := by
  refine .endStyle fun piece hpiece => ?_
  rcases List.mem_cons.mp hpiece with rfl | hpiece
  · trivial
  · obtain rfl := List.mem_singleton.mp hpiece
    exact neutral_stylePiece _

/-- All that a reading can do to the modes. -/
theorem moves_read (config : ScanConfig) (mode : Mode) (afterOperand : Bool) (s : Source) :
    (read config mode afterOperand s).Moves mode := by
  unfold read
  split
  · exact .neutral ⟨rfl, by simp⟩
  · exact .neutral (neutral_rejectUnit ..)
  · cases mode with
    | normal => exact moves_readCode config (.inl rfl) ..
    | expression => exact moves_readCode config (.inr rfl) ..
    | tagAttribute => exact moves_readAttribute ..
    | tagContent => exact moves_readContent ..
    | styleValue => exact moves_readStyle _

end Scan

end ComponentLang
