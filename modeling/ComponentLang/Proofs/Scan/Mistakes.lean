import ComponentLang.Proofs.Scan.Reached

/-!
# Mistakes in a reading

A reading holds one mistake at most. What is passed over because of it follows it directly, and what
comes before it has been read well. So a token that was passed over always stands behind the error
token of its own reading.
-/
namespace ComponentLang.Scan
open Source (frontIs run upTo)

/-- A piece that has been read well. -/
def Piece.IsSound : Piece → Prop
  | .skip _ => True
  | .token kind _ _ => kind.isError = false
  | .error .. => False

/-- The pieces that follow a mistake. -/
def Recovers (pieces : List Piece) : Prop :=
  pieces = [] ∨ ∃ width lexeme, pieces = [.token .errorRecovery width lexeme]

/-- At most one piece is a mistake, and what follows it is passed over. -/
inductive OneMistake : List Piece → Prop
  | none {pieces : List Piece} : (∀ piece ∈ pieces, piece.IsSound) → OneMistake pieces
  | one (sound : List Piece) {passed : List Piece} (problem : ScanError) (width : Nat)
      (lexeme : String) :
      (∀ piece ∈ sound, piece.IsSound) → Recovers passed →
      OneMistake (sound ++ .error problem width lexeme :: passed)

theorem oneMistake_skip (width : Nat) : OneMistake [.skip width] :=
  .none (List.forall_mem_singleton.2 trivial)

theorem oneMistake_token {kind : TokenKind} (h : kind.isError = false) (width : Nat)
    (lexeme : String) : OneMistake [.token kind width lexeme] :=
  .none (List.forall_mem_singleton.2 h)

theorem oneMistake_error (problem : ScanError) (width : Nat) (lexeme : String) :
    OneMistake [.error problem width lexeme] :=
  .one [] problem width lexeme (List.forall_mem_nil _) (.inl rfl)

theorem recovers_recovery (s : Source) : Recovers (recovery s) := by
  unfold recovery
  dsimp only
  split
  · exact .inl rfl
  · exact .inr ⟨_, _, rfl⟩

theorem oneMistake_rejectUnit (problem : ScanError) (u : SourceUnit) (rest : Source) :
    OneMistake (rejectUnit problem u rest).pieces :=
  .one [] _ _ _ (List.forall_mem_nil _) (recovers_recovery rest)

theorem oneMistake_readModifier (rest : Source) : OneMistake (readModifier rest).pieces := by
  unfold readModifier
  split
  · exact oneMistake_token rfl _ _
  · exact .one [] _ _ _ (List.forall_mem_nil _) (recovers_recovery rest)

theorem oneMistake_readString (quote : Char) (rest : Source) :
    OneMistake (readString quote rest).pieces := by
  unfold readString
  dsimp only
  split
  · split
    · exact oneMistake_token rfl _ _
    · exact oneMistake_error _ _ _
  · exact oneMistake_error _ _ _

theorem oneMistake_readNumber (config : ScanConfig) (s : Source) :
    OneMistake (readNumber config s).pieces := by
  unfold readNumber
  split
  · exact oneMistake_error _ _ _
  · split
    · exact oneMistake_error _ _ _
    · exact oneMistake_token rfl _ _

theorem isError_wordKind (config : ScanConfig) (name : String) (rest : Source) :
    (wordKind config name rest).isError = false := by
  unfold wordKind
  dsimp only
  repeat' split
  all_goals rfl

/-- The kinds of operators and punctuation marks. -/
def markKinds : List TokenKind :=
  [.plus, .plusEquals, .minus, .minusEquals, .star, .starStar, .starEquals, .slash, .slashEquals,
   .percent, .percentEquals, .equals, .eqEq, .bang, .notEq, .lt, .ltEq, .gt, .gtEq, .pipe, .orOr,
   .andAnd, .question, .lparen, .rparen, .lbracket, .rbracket, .comma, .dot, .colon, .semicolon]

theorem mem_markKinds {c : Char} {rest : Source} {kind : TokenKind} {width : Nat}
    (h : mark? c rest = some (kind, width)) : kind ∈ markKinds := by
  unfold mark? longer at h
  repeat' split at h
  all_goals first
    | cases h; done
    | (obtain ⟨rfl, -⟩ := Prod.mk.inj (Option.some.inj h); decide)

theorem oneMistake_of_readShared? {config : ScanConfig} {s : Source} {c : Char} {rest : Source}
    {r : Reading} (h : readShared? config s c rest = some r) : OneMistake r.pieces := by
  unfold readShared? at h
  split at h
  · obtain rfl := Option.some.inj h
    exact oneMistake_skip 1
  split at h
  · obtain ⟨width, -, rfl⟩ := Option.map_eq_some_iff.mp h
    exact oneMistake_skip width
  split at h
  · obtain rfl := Option.some.inj h
    exact oneMistake_readString c rest
  split at h
  · obtain rfl := Option.some.inj h
    exact oneMistake_readNumber config s
  split at h
  · obtain rfl := Option.some.inj h
    exact oneMistake_token rfl _ _
  split at h
  · obtain rfl := Option.some.inj h
    exact oneMistake_readModifier rest
  · cases h

theorem oneMistake_readCode (config : ScanConfig) (mode : Mode) (afterOperand : Bool) (s : Source)
    (c : Char) (rest : Source) : OneMistake (readCode config mode afterOperand s c rest).pieces := by
  unfold readCode
  split
  · rename_i r hr
    exact oneMistake_of_readShared? hr
  split
  · exact oneMistake_token rfl _ _
  split
  · exact oneMistake_token rfl _ _
  split
  · exact oneMistake_token (by split <;> rfl) _ _
  split
  · rename_i kind width hmark
    have hkinds : ∀ kind ∈ markKinds, kind.isError = false := by decide
    exact oneMistake_token (hkinds kind (mem_markKinds hmark)) _ _
  split
  · exact oneMistake_token (isError_wordKind ..) _ _
  · exact oneMistake_rejectUnit ..

theorem oneMistake_readAttribute (config : ScanConfig) (s : Source) (c : Char) (rest : Source) :
    OneMistake (readAttribute config s c rest).pieces := by
  unfold readAttribute
  split
  · rename_i r hr
    exact oneMistake_of_readShared? hr
  split
  · exact oneMistake_token rfl _ _
  split
  · exact oneMistake_token rfl _ _
  split
  · exact oneMistake_token rfl _ _
  split
  · exact oneMistake_token rfl _ _
  split
  · unfold readAttributeName
    dsimp only
    split
    · exact oneMistake_skip _
    · exact oneMistake_token rfl _ _
  · exact oneMistake_rejectUnit ..

/-- A closing tag without its `>` closes the tag before it is a mistake. -/
theorem oneMistake_readTagClose (rest : Source) : OneMistake (readTagClose rest).pieces := by
  unfold readTagClose
  extract_lets nameLength name afterName blanks width
  split
  · exact oneMistake_token rfl _ _
  · exact .one [.token .tagClose width name] _ _ _ (List.forall_mem_singleton.2 rfl)
      (.inl rfl)

theorem oneMistake_readContent (s : Source) (c : Char) (rest : Source) :
    OneMistake (readContent s c rest).pieces := by
  unfold readContent
  split
  · exact oneMistake_skip 1
  split
  · split
    · exact oneMistake_readTagClose _
    · split
      · exact oneMistake_token rfl _ _
      · exact oneMistake_token rfl _ _
  split
  · exact oneMistake_token rfl _ _
  split
  · exact oneMistake_rejectUnit ..
  · exact oneMistake_token rfl _ _

theorem oneMistake_readStyle (s : Source) : OneMistake (readStyle s).pieces := by
  have hsound : ∀ (width : Nat) (lexeme : String), OneMistake
      [.skip (run isSpacing s), .token .styleProperty width lexeme] := fun width lexeme =>
    .none (List.forall_mem_cons.2 ⟨trivial, List.forall_mem_singleton.2 rfl⟩)
  have hmistake : ∀ (width : Nat) (lexeme : String), OneMistake
      [.skip (run isSpacing s), .error .unterminatedStyle width lexeme] := fun width lexeme =>
    .one [.skip (run isSpacing s)] _ _ _ (List.forall_mem_singleton.2 trivial) (.inl rfl)
  unfold readStyle stylePiece
  dsimp only
  split
  · split
    · split
      · exact hmistake _ _
      · exact hsound _ _
    · exact hsound _ _
  · exact hsound _ _

theorem oneMistake_read (config : ScanConfig) (mode : Mode) (afterOperand : Bool) (s : Source) :
    OneMistake (read config mode afterOperand s).pieces := by
  unfold read
  split
  · exact .none (List.forall_mem_nil _)
  · exact oneMistake_rejectUnit ..
  · cases mode with
    | normal => exact oneMistake_readCode ..
    | expression => exact oneMistake_readCode ..
    | tagAttribute => exact oneMistake_readAttribute ..
    | tagContent => exact oneMistake_readContent ..
    | styleValue => exact oneMistake_readStyle _

end ComponentLang.Scan
