import ComponentLang.Proofs.Scan.Lossless
import ComponentLang.Proofs.Scan.Mistakes
import ComponentLang.Proofs.Scan.Recased

/-!
# The forms of tokens

A token is a mark, a word of code or one whose text may be anything. A mark has some width. A word
of code is a whole name, and its kind is that of the name.
-/
namespace ComponentLang

/-- The kinds whose tokens are marks, in code and in markup. -/
def TokenKind.isMark (kind : TokenKind) : Bool :=
  kind ∈ Scan.markKinds ++
    [.lbrace, .rbrace, .tagEnd, .tagSelfClose, .expressionStart, .expressionEnd]

/-- The kinds whose tokens are neither marks nor words of code. -/
def TokenKind.isLoose : TokenKind → Bool
  | .number _ | .string | .tagOpen | .tagClose | .attributeName | .text | .styleProperty
  | .atModifier | .valueBinding | .error | .errorRecovery | .eof => true
  | _ => false

namespace Scan
open Source (frontIs run upTo)

variable {config : ScanConfig} {s : Source} {c : Char} {rest : Source} {mode : Mode}
  {afterOperand : Bool}

/-- The word is a whole name at the front of a source, and of the kind that the name has there. -/
def NamedWord (config : ScanConfig) (kind : TokenKind) (lexeme : String) : Prop :=
  ∃ s : Source, frontIs isNameStart s = true ∧ lexeme = Source.text (s.take (nameWidth s)) ∧
    kind = wordKind config lexeme (s.drop (nameWidth s))

/-- What the pieces of a reading are. -/
inductive Piece.Form (config : ScanConfig) : Piece → Prop
  | skip (width : Nat) : Form config (.skip width)
  | error (problem : ScanError) (width : Nat) (lexeme : String) :
      Form config (.error problem width lexeme)
  | loose {kind : TokenKind} (width : Nat) (lexeme : String) : kind.isLoose = true →
      Form config (.token kind width lexeme)
  | mark {kind : TokenKind} {width : Nat} (lexeme : String) : kind.isMark = true → 0 < width →
      Form config (.token kind width lexeme)
  | word {kind : TokenKind} {lexeme : String} (width : Nat) : NamedWord config kind lexeme →
      Form config (.token kind width lexeme)

/-- Every piece of the reading has its form. -/
def Reading.Formed (config : ScanConfig) (r : Reading) : Prop :=
  ∀ piece ∈ r.pieces, piece.Form config

/-! ## Readings -/

theorem formed_skip (width : Nat) : (Reading.skip width).Formed config :=
  List.forall_mem_singleton.2 (.skip width)

theorem formed_error (problem : ScanError) (width : Nat) (lexeme : String) :
    (Reading.error problem width lexeme).Formed config :=
  List.forall_mem_singleton.2 (.error problem width lexeme)

theorem formed_loose {kind : TokenKind} (h : kind.isLoose = true) (width : Nat) (lexeme : String)
    (change : ModeChange) : Reading.Formed config ⟨[.token kind width lexeme], change⟩ :=
  List.forall_mem_singleton.2 (.loose width lexeme h)

theorem formed_mark {kind : TokenKind} {width : Nat} (h : kind.isMark = true) (hwidth : 0 < width)
    (lexeme : String) (change : ModeChange) :
    Reading.Formed config ⟨[.token kind width lexeme], change⟩ :=
  List.forall_mem_singleton.2 (.mark lexeme h hwidth)

theorem form_of_mem_recovery {piece : Piece} (h : piece ∈ recovery s) : piece.Form config := by
  rcases recovers_recovery s with hnil | ⟨width, lexeme, hpieces⟩
  · rw [hnil] at h
    cases h
  · rw [hpieces, List.mem_singleton] at h
    subst h
    exact .loose width lexeme rfl

theorem formed_rejectUnit (problem : ScanError) (u : SourceUnit) (rest : Source) :
    (rejectUnit problem u rest).Formed config :=
  List.forall_mem_cons.2 ⟨.error .., fun _ => form_of_mem_recovery⟩

theorem formed_readString (quote : Char) (rest : Source) :
    (readString quote rest).Formed config := by
  unfold readString
  dsimp only
  split
  · split
    · exact formed_loose rfl _ _ _
    · exact formed_error _ _ _
  · exact formed_error _ _ _

theorem formed_readNumber (config : ScanConfig) (s : Source) :
    (readNumber config s).Formed config := by
  unfold readNumber
  split
  · exact formed_error _ _ _
  · split
    · exact formed_error _ _ _
    · exact formed_loose rfl _ _ _

theorem formed_of_readShared? {r : Reading} (h : readShared? config s c rest = some r) :
    r.Formed config := by
  unfold readShared? at h
  split at h
  · obtain rfl := Option.some.inj h
    exact formed_skip 1
  split at h
  · obtain ⟨width, -, rfl⟩ := Option.map_eq_some_iff.1 h
    exact formed_skip width
  split at h
  · obtain rfl := Option.some.inj h
    exact formed_readString c rest
  split at h
  · obtain rfl := Option.some.inj h
    exact formed_readNumber config s
  split at h
  · obtain rfl := Option.some.inj h
    exact formed_loose rfl _ _ _
  split at h
  · obtain rfl := Option.some.inj h
    unfold readModifier
    split
    · exact formed_loose rfl _ _ _
    · exact List.forall_mem_cons.2 ⟨.error .., fun _ => form_of_mem_recovery⟩
  · cases h

theorem formed_readCode (mode : Mode) (afterOperand : Bool) (c : Char) (rest : Source) :
    (readCode config mode afterOperand (.char c :: rest) c rest).Formed config := by
  unfold readCode
  split
  · rename_i r hr
    exact formed_of_readShared? hr
  split
  · exact formed_loose rfl _ _ _
  split
  · exact formed_mark rfl Nat.one_pos _ _
  split
  · exact formed_mark (by split <;> rfl) Nat.one_pos _ _
  split
  · rename_i kind width hmark
    have hkinds : ∀ kind ∈ markKinds, kind.isMark = true := by decide
    exact formed_mark (hkinds kind (mem_markKinds hmark)) (width_pos_of_mark? hmark) _ _
  split
  · rename_i hname
    exact List.forall_mem_singleton.2 (.word _ ⟨.char c :: rest, hname, rfl, rfl⟩)
  · exact formed_rejectUnit _ _ _

theorem formed_readAttribute (c : Char) (rest : Source) :
    (readAttribute config s c rest).Formed config := by
  unfold readAttribute
  split
  · rename_i r hr
    exact formed_of_readShared? hr
  split
  · exact formed_mark rfl Nat.one_pos _ _
  split
  · exact formed_mark rfl Nat.two_pos _ _
  split
  · exact formed_mark rfl Nat.one_pos _ _
  split
  · exact formed_mark rfl Nat.one_pos _ _
  split
  · unfold readAttributeName
    dsimp only
    split
    · exact formed_skip _
    · exact formed_loose rfl _ _ _
  · exact formed_rejectUnit _ _ _

theorem formed_readContent (c : Char) (rest : Source) : (readContent s c rest).Formed config := by
  unfold readContent
  split
  · exact formed_skip 1
  split
  · split
    · unfold readTagClose
      extract_lets nameLength name afterName blanks width
      split
      · exact formed_loose rfl _ _ _
      · exact List.forall_mem_cons.2
          ⟨.loose _ _ rfl, List.forall_mem_singleton.2 (.error ..)⟩
    · split
      · exact formed_loose rfl _ _ _
      · exact formed_loose rfl _ _ _
  split
  · exact formed_mark rfl Nat.one_pos _ _
  split
  · exact formed_rejectUnit _ _ _
  · exact formed_loose rfl _ _ _

theorem formed_readStyle : (readStyle s).Formed config := by
  refine List.forall_mem_cons.2 ⟨.skip _, List.forall_mem_singleton.2 ?_⟩
  unfold stylePiece
  dsimp only
  split
  · split
    · split
      · exact .error ..
      · exact .loose _ _ rfl
    · exact .loose _ _ rfl
  · exact .loose _ _ rfl

theorem formed_read (config : ScanConfig) (mode : Mode) (afterOperand : Bool) (s : Source) :
    (read config mode afterOperand s).Formed config := by
  unfold read
  split
  · exact List.forall_mem_nil _
  · exact formed_rejectUnit _ _ _
  · cases mode with
    | normal => exact formed_readCode _ _ _ _
    | expression => exact formed_readCode _ _ _ _
    | tagAttribute => exact formed_readAttribute _ _
    | tagContent => exact formed_readContent _ _
    | styleValue => exact formed_readStyle

/-! ## Tokens -/

/-- A mark among the tokens is not empty. -/
def Wide (tokens : List Token) : Prop :=
  ∀ t ∈ tokens, t.kind.isMark = true → t.span.start < t.span.stop

variable {st : State}

theorem not_isMark_of_isLoose {kind : TokenKind} (h : kind.isLoose = true) :
    kind.isMark = false := by
  cases kind <;> first | rfl | cases h

theorem not_isMark_wordKind (name : String) (rest : Source) :
    (wordKind config name rest).isMark = false := by
  unfold wordKind
  dsimp only
  repeat' split
  all_goals rfl

theorem Wide.place (h : Wide st.emitted) (haccounts : Accounts s st.cursor st.emitted)
    {piece : Piece} (hform : piece.Form config) (hfits : piece.Fits st.cursor.rest) :
    Wide (st.place config piece).emitted := by
  cases piece with
  | skip width => exact h
  | token kind width lexeme =>
    refine List.forall_mem_cons.2 ⟨fun hmark => ?_, h⟩
    have hpos : 0 < width := by
      cases hform with
      | loose _ _ hloose =>
        exact absurd hmark (by simp [Token.ofKind, not_isMark_of_isLoose hloose])
      | mark _ _ hwidth => exact hwidth
      | word _ hword =>
        obtain ⟨front, -, -, hkind⟩ := hword
        exact absurd hmark (by simp [Token.ofKind, hkind, not_isMark_wordKind])
    have hstop : (st.cursor.advance width).pos = st.cursor.pos + width :=
      (haccounts.pos_advance hfits.1).1
    show st.cursor.pos < (st.cursor.advance width).pos
    omega
  | error problem width lexeme =>
    have herror : ∀ (p : ScanError) (lexeme : String) (span : Span) {tokens : List Token},
        Wide tokens → Wide (.ofError p lexeme span :: tokens) :=
      fun _ _ _ _ htokens => List.forall_mem_cons.2 ⟨fun hmark => Bool.noConfusion hmark, htokens⟩
    unfold State.place
    dsimp only
    split
    · exact herror _ _ _ (herror _ _ _ h)
    · exact herror _ _ _ h

theorem Wide.placeAll (h : Wide st.emitted) (haccounts : Accounts s st.cursor st.emitted)
    {pieces : List Piece} (hforms : ∀ piece ∈ pieces, piece.Form config)
    (hfits : Piece.FitAll st.cursor.rest pieces) : Wide (st.placeAll config pieces).emitted := by
  induction pieces generalizing st with
  | nil => exact h
  | cons piece rest ih =>
    obtain ⟨hform, hforms⟩ := List.forall_mem_cons.1 hforms
    obtain ⟨hpiece, hrest⟩ := hfits
    refine ih (h.place haccounts hform hpiece) (haccounts.place hpiece) hforms ?_
    rw [State.cursor_place, Cursor.rest_advance]
    exact hrest

theorem Reached.wide (h : Reached config s st) : Wide st.emitted := by
  induction h with
  | start => exact List.forall_mem_nil _
  | step hreached _ ih =>
    rw [State.emitted_step]
    exact ih.placeAll hreached.accounts (formed_read _ _ _ _) (fits_read _ _ _ _)

/-- No mark of a scan is empty. -/
theorem wide_of_scan {scanned : Scanned} (h : scan config s = some scanned) :
    Wide scanned.tokens := by
  obtain ⟨st, hreached, -, rfl⟩ := exists_reached_of_scan h
  intro t ht
  rw [tokens_ofState, List.mem_append, List.mem_reverse, List.mem_singleton] at ht
  rcases ht with hemitted | rfl
  · exact hreached.wide t hemitted
  · exact fun hmark => Bool.noConfusion hmark

/-- A token of a reached state that is neither a mark nor loose is a word of code. -/
theorem Reached.namedWord (h : Reached config s st) {t : Token} (ht : t ∈ st.emitted)
    (hloose : t.kind.isLoose = false) (hmark : t.kind.isMark = false) :
    NamedWord config t.kind t.lexeme := by
  induction h with
  | start => cases ht
  | step _ _ ih =>
    obtain hbefore | ⟨-, herror | ⟨width, hpiece⟩⟩ := State.mem_step ht
    · exact ih hbefore
    · rw [herror] at hloose
      cases hloose
    · have hform : Piece.Form config (.token t.kind width t.lexeme) := formed_read _ _ _ _ _ hpiece
      cases hform with
      | loose _ _ hkind =>
        rw [hloose] at hkind
        cases hkind
      | mark _ hkind _ =>
        rw [hmark] at hkind
        cases hkind
      | word _ hword => exact hword

/-- A token of a scan that is neither a mark nor loose is a word of code. -/
theorem namedWord_of_scan {scanned : Scanned} (h : scan config s = some scanned) {t : Token}
    (ht : t ∈ scanned.tokens) (hloose : t.kind.isLoose = false) (hmark : t.kind.isMark = false) :
    NamedWord config t.kind t.lexeme := by
  obtain ⟨st, hreached, -, rfl⟩ := exists_reached_of_scan h
  rw [tokens_ofState, List.mem_append, List.mem_reverse, List.mem_singleton] at ht
  rcases ht with hemitted | rfl
  · exact hreached.namedWord hemitted hloose hmark
  · cases hloose

end Scan

end ComponentLang
