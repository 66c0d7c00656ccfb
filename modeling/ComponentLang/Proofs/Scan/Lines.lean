import ComponentLang.Proofs.Scan.Reached
import ComponentLang.Proofs.Text

/-!
# Tokens and lines

No token reaches over the end of a line but a string, whose escapes may denote one, a style and what
could not be read. What is said about a mistake fits on one line as well, with one exception: an
escape that is none is shown as it is written, and a backslash may be written before a line end.
-/
namespace ComponentLang

open Text

/-- The kinds whose tokens may have line ends in their texts. -/
def TokenKind.spansLines : TokenKind → Bool
  | .string | .styleProperty | .error | .errorRecovery => true
  | _ => false

/-- The text of the token and what is said about it fit on one line, unless the text is one that
need not, and what is said shows an escape of a line end. Something is said about errors only. -/
structure Token.Lined (t : Token) : Prop where
  lexeme : t.kind.spansLines = false → OneLine t.lexeme
  problem : ∀ p ∈ t.problem, p ≠ .invalidEscape '\n' → OneLine p.message
  error : ∀ p ∈ t.problem, t.kind = .error

/-! ## Units without line ends -/

namespace Source

variable {s : Source} {p : Char → Bool} {m n : Nat}

theorem oneLine_text (h : .char '\n' ∉ s) : OneLine (text s) := by
  rw [text, oneLine_ofList]
  intro hmem
  obtain ⟨u, hu, heq⟩ := List.mem_map.1 hmem
  cases u with
  | char c =>
      obtain rfl : c = '\n' := heq
      exact h hu
  | invalid b => cases heq

theorem notMem_take_run (hp : p '\n' = false) (s : Source) : .char '\n' ∉ s.take (run p s) := by
  intro hmem
  have hline := satisfies_of_mem_take_run hmem
  rw [SourceUnit.satisfies_char, hp] at hline
  cases hline

theorem notMem_take_add (h : .char '\n' ∉ s.take m) (h' : .char '\n' ∉ (s.drop m).take n) :
    .char '\n' ∉ s.take (m + n) := by
  rw [List.take_add, List.mem_append, not_or]
  exact ⟨h, h'⟩

theorem notMem_take_one {c : Char} (hc : c ≠ '\n') (rest : Source) :
    .char '\n' ∉ (SourceUnit.char c :: rest).take 1 := by
  simpa using Ne.symm hc

/-- One more unit that ends no line. -/
theorem notMem_take_cons {c : Char} (hc : c ≠ '\n') (h : .char '\n' ∉ s.take n) :
    .char '\n' ∉ (SourceUnit.char c :: s).take (n + 1) := by
  rw [List.take_succ_cons, List.mem_cons, not_or]
  exact ⟨fun heq => hc (SourceUnit.char.inj heq).symm, h⟩

theorem notMem_take_front (hp : p '\n' = false) (h : frontIs p s = true) :
    .char '\n' ∉ s.take 1 := by
  cases s with
  | nil => cases h
  | cons u rest =>
      rw [List.take_succ_cons, List.take_zero, List.mem_singleton]
      rintro rfl
      rw [frontIs, SourceUnit.satisfies_char, hp] at h
      cases h

end Source

namespace Scan
open Source

variable {config : ScanConfig} {s : Source} {c : Char} {rest : Source} {mode : Mode}

theorem notMem_take_nameWidth (s : Source) : .char '\n' ∉ s.take (nameWidth s) := by
  fun_induction nameWidth s with
  | case1 => exact List.not_mem_nil
  | case2 => exact List.not_mem_nil
  | case3 c rest hword ih =>
      refine notMem_take_cons ?_ ih
      rintro rfl
      simp [isWordChar] at hword
  | case4 => exact List.not_mem_nil

theorem notMem_take_fractionWidth (s : Source) : .char '\n' ∉ s.take (fractionWidth s) := by
  fun_cases fractionWidth s with
  | case1 rest _ => exact notMem_take_cons (by decide) (notMem_take_run rfl rest)
  | case2 => exact List.not_mem_nil
  | case3 => exact List.not_mem_nil

theorem notMem_take_exponentWidth (s : Source) : .char '\n' ∉ s.take (exponentWidth s) := by
  unfold exponentWidth
  split
  next c rest =>
    split
    next hletter =>
      have hc : c ≠ '\n' := by
        rintro rfl
        simp at hletter
      dsimp only
      split
      next hsign =>
        split
        · exact notMem_take_cons hc (notMem_take_add (notMem_take_front rfl hsign)
            (notMem_take_run rfl _))
        · exact List.not_mem_nil
      next =>
        split
        · exact notMem_take_cons hc (notMem_take_add List.not_mem_nil (notMem_take_run rfl _))
        · exact List.not_mem_nil
    next => exact List.not_mem_nil
  next => exact List.not_mem_nil

/-- The digits of another base stand behind two characters that end no line. -/
theorem notMem_of_baseDigits? {isDigit : Char → Bool} (h : baseDigits? s = some isDigit) :
    isDigit '\n' = false ∧ .char '\n' ∉ s.take 2 := by
  unfold baseDigits? at h
  split at h
  next c rest =>
    have htake (hc : c ≠ '\n') : .char '\n' ∉ (SourceUnit.char '0' :: .char c :: rest).take 2 :=
      notMem_take_cons (by decide) (notMem_take_one hc rest)
    split at h
    next hc =>
      cases h
      exact ⟨rfl, htake (by rintro rfl; simp at hc)⟩
    next =>
      split at h
      next hc =>
        cases h
        exact ⟨rfl, htake (by rintro rfl; simp at hc)⟩
      next => cases h
  next => cases h

theorem notMem_of_numberShape? {kind : NumberKind} {width : Nat}
    (h : numberShape? config s = some (kind, width)) : .char '\n' ∉ s.take width := by
  unfold numberShape? at h
  split at h
  next isDigit hbase =>
    obtain ⟨hdigit, htwo⟩ := notMem_of_baseDigits? hbase
    dsimp only at h
    split at h
    · cases h
    · obtain ⟨-, rfl⟩ := Prod.mk.inj (Option.some.inj h)
      rw [Nat.add_comm]
      exact notMem_take_add htwo (notMem_take_run hdigit _)
  next =>
    obtain ⟨-, rfl⟩ := Prod.mk.inj (Option.some.inj h)
    refine notMem_take_add (notMem_take_add (notMem_take_run rfl s) (notMem_take_fractionWidth _)) ?_
    split
    · exact notMem_take_exponentWidth _
    · exact List.not_mem_nil

/-- There is a base, but no digit of it. -/
theorem notMem_of_numberShape?_none (h : numberShape? config s = none) :
    .char '\n' ∉ s.take 2 := by
  unfold numberShape? at h
  split at h
  next isDigit hbase => exact (notMem_of_baseDigits? hbase).2
  next => cases h

theorem notMem_of_longer {second : Char} {long short kind : TokenKind} {width : Nat}
    (hc : c ≠ '\n') (hsecond : second ≠ '\n') (h : longer second long short rest = (kind, width)) :
    .char '\n' ∉ (SourceUnit.char c :: rest).take width := by
  unfold longer at h
  split at h
  next hfront =>
    obtain ⟨-, rfl⟩ := Prod.mk.inj h
    have hline : ('\n' == second) = false := beq_false_of_ne hsecond.symm
    exact notMem_take_cons hc (notMem_take_front (p := (· == second)) hline hfront)
  next =>
    obtain ⟨-, rfl⟩ := Prod.mk.inj h
    exact notMem_take_one hc rest

theorem notMem_of_mark? {kind : TokenKind} {width : Nat} (h : mark? c rest = some (kind, width)) :
    .char '\n' ∉ (SourceUnit.char c :: rest).take width := by
  have hlonger {first second : Char} {long short : TokenKind}
      (h : some (longer second long short rest) = some (kind, width)) (hfirst : first ≠ '\n')
      (hsecond : second ≠ '\n') : .char '\n' ∉ (SourceUnit.char first :: rest).take width :=
    notMem_of_longer hfirst hsecond (Option.some.inj h)
  have hone {first : Char} {short : TokenKind} (h : some (short, 1) = some (kind, width))
      (hfirst : first ≠ '\n') : .char '\n' ∉ (SourceUnit.char first :: rest).take width := by
    obtain ⟨-, rfl⟩ := Prod.mk.inj (Option.some.inj h)
    exact notMem_take_one hfirst rest
  unfold mark? at h
  split at h
  case h_3 =>
    split at h
    next hfront =>
      obtain ⟨-, rfl⟩ := Prod.mk.inj (Option.some.inj h)
      exact notMem_take_cons (by decide) (notMem_take_front rfl hfront)
    next => exact hlonger h (by decide) (by decide)
  case h_11 =>
    split at h
    next hfront =>
      obtain ⟨-, rfl⟩ := Prod.mk.inj (Option.some.inj h)
      exact notMem_take_cons (by decide) (notMem_take_front rfl hfront)
    next => cases h
  all_goals first
    | exact hlonger h (by decide) (by decide)
    | exact hone h (by decide)
    | cases h

/-! ## Readings -/

/-- What the piece says fits on one line, unless it is one of the exceptions. -/
def Piece.Lined : Piece → Prop
  | .skip _ => True
  | .token kind _ lexeme => kind.spansLines = false → OneLine lexeme
  | .error problem _ _ => problem ≠ .invalidEscape '\n' → OneLine problem.message

def Reading.Lined (r : Reading) : Prop := ∀ piece ∈ r.pieces, piece.Lined

theorem lined_skip (width : Nat) : (Reading.skip width).Lined := List.forall_mem_singleton.2 trivial

theorem lined_token {kind : TokenKind} {width : Nat} {lexeme : String} {change : ModeChange}
    (h : OneLine lexeme) : Reading.Lined ⟨[.token kind width lexeme], change⟩ :=
  List.forall_mem_singleton.2 fun _ => h

/-- A token may have any text if its kind may span lines. -/
theorem lined_spanning {kind : TokenKind} (h : kind.spansLines = true) (width : Nat)
    (lexeme : String) : (Reading.token kind width lexeme).Lined := by
  refine List.forall_mem_singleton.2 fun hline => ?_
  rw [h] at hline
  cases hline

theorem lined_verbatim {kind : TokenKind} {width : Nat} {change : ModeChange}
    (h : .char '\n' ∉ s.take width) : ((Reading.verbatim kind width s).changing change).Lined :=
  lined_token (oneLine_text h)

theorem lined_error {problem : ScanError} (h : OneLine problem.message) (width : Nat)
    (lexeme : String) : (Reading.error problem width lexeme).Lined :=
  List.forall_mem_singleton.2 fun _ => h

theorem lined_of_mem_recovery {piece : Piece} (h : piece ∈ recovery s) : piece.Lined := by
  unfold recovery at h
  dsimp only at h
  split at h
  · cases h
  · obtain rfl := List.mem_singleton.1 h
    intro hline
    cases hline

theorem lined_rejectUnit {problem : ScanError} (h : OneLine problem.message) (u : SourceUnit)
    (rest : Source) : (rejectUnit problem u rest).Lined :=
  List.forall_mem_cons.2 ⟨fun _ => h, fun _ => lined_of_mem_recovery⟩

/-- A control character is named by its code point, and any other stands as it is. -/
theorem lined_rejectChar (c : Char) (rest : Source) : (rejectChar c rest).Lined := by
  apply lined_rejectUnit
  split
  next => exact oneLine_append.2 ⟨by decide, oneLine_codePoint _⟩
  next hcontrol =>
    have hc : c ≠ '\n' := by
      rintro rfl
      exact hcontrol rfl
    exact oneLine_append.2 ⟨oneLine_append.2 ⟨by decide, oneLine_char.2 hc⟩, by decide⟩

/-- The first mistake in a literal is said on one line, unless it is a backslash before a line end. -/
theorem oneLine_of_quotedBody {quote : Char} {problem : ScanError}
    (h : (quotedBody quote s).problem = some problem) (hescape : problem ≠ .invalidEscape '\n') :
    OneLine problem.message := by
  have hcons {d : Char} {width : Nat} {found : Option ScanError} {body : QuotedBody}
      (hbody : body.problem = some problem → OneLine problem.message)
      (hfound : found = some problem → OneLine problem.message)
      (h : (body.cons d width found).problem = some problem) : OneLine problem.message := by
    cases found with
    | none => exact hbody h
    | some first => exact hfound h
  have hnone : none = some problem → OneLine problem.message := fun heq => nomatch heq
  fun_induction quotedBody quote s with
  | case1 | case3 | case4 | case5 => cases h
  | case2 b rest ih =>
      refine hcons ih ?_ h
      rintro ⟨⟩
      decide
  | case6 u rest d _ _ _ ih => exact hcons ih hnone h
  | case7 u rest _ _ _ ih =>
      refine hcons ih ?_ h
      rintro ⟨⟩
      have hu : u.toChar ≠ '\n' := fun heq => hescape (congrArg ScanError.invalidEscape heq)
      exact oneLine_append.2 ⟨oneLine_append.2 ⟨by decide, oneLine_char.2 hu⟩, by decide⟩
  | case8 c rest _ _ _ ih => exact hcons ih hnone h

theorem lined_readString (quote : Char) (rest : Source) : (readString quote rest).Lined := by
  unfold readString
  dsimp only
  split
  · split
    · exact lined_spanning rfl _ _
    next problem hproblem =>
      exact List.forall_mem_singleton.2 fun hescape => oneLine_of_quotedBody hproblem hescape
  · exact lined_error (by decide) _ _

theorem lined_malformedNumber {width : Nat} (h : .char '\n' ∉ s.take width) :
    (malformedNumber width s).Lined := by
  have htext : OneLine (Source.text (s.take (width + run isWordChar (s.drop width)))) :=
    oneLine_text (notMem_take_add h (notMem_take_run rfl _))
  exact lined_error (oneLine_append.2 ⟨oneLine_append.2 ⟨by decide, htext⟩, by decide⟩) _ _

theorem lined_readNumber (config : ScanConfig) (s : Source) : (readNumber config s).Lined := by
  unfold readNumber
  split
  next hshape => exact lined_malformedNumber (notMem_of_numberShape?_none hshape)
  next kind width hshape =>
    split
    · exact lined_malformedNumber (notMem_of_numberShape? hshape)
    · exact lined_token (oneLine_text (notMem_of_numberShape? hshape))

theorem lined_markedName (kind : TokenKind) (rest : Source) (change : ModeChange) :
    ((markedName kind rest).changing change).Lined :=
  lined_token (oneLine_text (notMem_take_nameWidth rest))

theorem lined_readModifier (rest : Source) : (readModifier rest).Lined := by
  unfold readModifier
  split
  · exact lined_markedName _ rest .stay
  · exact List.forall_mem_cons.2 ⟨fun _ => by decide, fun _ => lined_of_mem_recovery⟩

theorem lined_of_readShared? {r : Reading} (h : readShared? config s c rest = some r) : r.Lined := by
  unfold readShared? at h
  split at h
  · obtain rfl := Option.some.inj h
    exact lined_skip 1
  split at h
  · obtain ⟨width, -, rfl⟩ := Option.map_eq_some_iff.1 h
    exact lined_skip width
  split at h
  · obtain rfl := Option.some.inj h
    exact lined_readString c rest
  split at h
  · obtain rfl := Option.some.inj h
    exact lined_readNumber config s
  split at h
  · obtain rfl := Option.some.inj h
    exact lined_markedName _ rest .stay
  split at h
  · obtain rfl := Option.some.inj h
    exact lined_readModifier rest
  · cases h

theorem lined_readCode (config : ScanConfig) (mode : Mode) (afterOperand : Bool) (c : Char)
    (rest : Source) : (readCode config mode afterOperand (.char c :: rest) c rest).Lined := by
  have hone {first : Char} (hfirst : first ≠ '\n') :
      .char '\n' ∉ (SourceUnit.char first :: rest).take 1 := notMem_take_one hfirst rest
  unfold readCode
  split
  next r hr => exact lined_of_readShared? hr
  split
  · exact lined_markedName _ rest _
  split
  next hc => exact lined_verbatim (hone (by rw [hc]; decide))
  split
  next hc => exact lined_verbatim (hone (by rw [hc]; decide))
  split
  next kind width hmark => exact lined_token (oneLine_text (notMem_of_mark? hmark))
  split
  · exact lined_token (oneLine_text (notMem_take_nameWidth _))
  · exact lined_rejectChar c rest

theorem lined_readAttribute (config : ScanConfig) (c : Char) (rest : Source) :
    (readAttribute config (.char c :: rest) c rest).Lined := by
  have hone {first : Char} (hfirst : first ≠ '\n') :
      .char '\n' ∉ (SourceUnit.char first :: rest).take 1 := notMem_take_one hfirst rest
  unfold readAttribute
  split
  next r hr => exact lined_of_readShared? hr
  split
  next hc => exact lined_verbatim (hone (by rw [hc]; decide))
  split
  next hc =>
    have hclose : c = '/' ∧ frontIs (· == '>') rest = true := by simpa using hc
    refine lined_verbatim (notMem_take_cons ?_ (notMem_take_front rfl hclose.2))
    rw [hclose.1]
    decide
  split
  next hc => exact lined_verbatim (hone (by rw [hc]; decide))
  split
  next hc => exact lined_token (oneLine_text (hone (by rw [hc]; decide)))
  split
  · unfold readAttributeName
    dsimp only
    split
    · exact lined_skip _
    · exact lined_token (oneLine_text (notMem_take_nameWidth _))
  · exact lined_rejectChar c rest

theorem lined_readTagClose (rest : Source) : (readTagClose rest).Lined := by
  unfold readTagClose
  extract_lets nameLength name afterName blanks width
  have hname : OneLine name := by
    apply oneLine_text
    show .char '\n' ∉ rest.take (if frontIs isNameStart rest then nameWidth rest else 0)
    split
    · exact notMem_take_nameWidth rest
    · exact List.not_mem_nil
  split
  · exact lined_token hname
  · refine List.forall_mem_cons.2 ⟨fun _ => hname, List.forall_mem_singleton.2 fun _ => ?_⟩
    exact oneLine_append.2 ⟨by decide, hname⟩

theorem lined_readContent (c : Char) (rest : Source) :
    (readContent (.char c :: rest) c rest).Lined := by
  unfold readContent
  split
  · exact lined_skip 1
  next hspacing =>
    have hone : .char '\n' ∉ (SourceUnit.char c :: rest).take 1 := by
      refine notMem_take_one ?_ rest
      rintro rfl
      exact hspacing rfl
    split
    · split
      · exact lined_readTagClose _
      · split
        · exact lined_markedName _ _ _
        · exact lined_token (oneLine_text hone)
    split
    · exact lined_verbatim hone
    split
    · exact lined_rejectChar c rest
    · exact lined_token (oneLine_text (notMem_take_run rfl _))

theorem lined_readStyle (s : Source) : (readStyle s).Lined := by
  have hstyle (width : Nat) (lexeme : String) :
      Piece.Lined (.token .styleProperty width lexeme) := fun hline => nomatch hline
  refine List.forall_mem_cons.2 ⟨trivial, List.forall_mem_singleton.2 ?_⟩
  unfold stylePiece
  dsimp only
  split
  · split
    · split
      · exact fun _ => by decide
      · exact hstyle _ _
    · exact hstyle _ _
  · exact hstyle _ _

theorem lined_read (config : ScanConfig) (mode : Mode) (afterOperand : Bool) (s : Source) :
    (read config mode afterOperand s).Lined := by
  unfold read
  split
  · exact List.forall_mem_nil _
  · exact lined_rejectUnit (by decide) _ _
  · cases mode with
    | normal | expression => exact lined_readCode _ _ _ _ _
    | tagAttribute => exact lined_readAttribute _ _ _
    | tagContent => exact lined_readContent _ _
    | styleValue => exact lined_readStyle _

/-! ## Tokens -/

variable {st : State}

theorem lined_ofKind {kind : TokenKind} {lexeme : String} {span : Span}
    (h : kind.spansLines = false → OneLine lexeme) : (Token.ofKind kind lexeme span).Lined :=
  ⟨h, nofun, nofun⟩

theorem lined_ofError {problem : ScanError} {lexeme : String} {span : Span}
    (h : problem ≠ .invalidEscape '\n' → OneLine problem.message) :
    (Token.ofError problem lexeme span).Lined where
  lexeme hline := nomatch hline
  problem p hp := by
    cases hp
    exact h
  error _ _ := rfl

theorem lined_place (h : ∀ t ∈ st.emitted, t.Lined) {piece : Piece} (hpiece : piece.Lined) :
    ∀ t ∈ (st.place config piece).emitted, t.Lined := by
  cases piece with
  | skip width => exact h
  | token kind width lexeme => exact List.forall_mem_cons.2 ⟨lined_ofKind hpiece, h⟩
  | error problem width lexeme =>
      have herror {span : Span} : ∀ t ∈ Token.ofError problem lexeme span :: st.emitted, t.Lined :=
        List.forall_mem_cons.2 ⟨lined_ofError hpiece, h⟩
      unfold State.place
      dsimp only
      split
      · refine List.forall_mem_cons.2 ⟨lined_ofError fun _ => ?_, herror⟩
        exact oneLine_append.2 ⟨oneLine_append.2 ⟨by decide, oneLine_toString _⟩, by decide⟩
      · exact herror

theorem lined_placeAll {pieces : List Piece} (h : ∀ t ∈ st.emitted, t.Lined)
    (hpieces : ∀ piece ∈ pieces, piece.Lined) :
    ∀ t ∈ (st.placeAll config pieces).emitted, t.Lined := by
  induction pieces generalizing st with
  | nil => exact h
  | cons piece rest ih =>
      obtain ⟨hpiece, hrest⟩ := List.forall_mem_cons.1 hpieces
      exact ih (lined_place h hpiece) hrest

theorem Reached.lined (h : Reached config s st) : ∀ t ∈ st.emitted, t.Lined := by
  induction h with
  | start => exact List.forall_mem_nil _
  | step _ _ ih =>
      rw [State.emitted_step]
      exact lined_placeAll ih (lined_read _ _ _ _)

/-- The tokens of a source keep to lines. -/
theorem lined_of_scan {scanned : Scanned} (h : scan config s = some scanned) :
    ∀ t ∈ scanned.tokens, t.Lined := by
  obtain ⟨st, hreached, -, rfl⟩ := exists_reached_of_scan h
  intro t ht
  rcases List.mem_cons.1 (List.mem_reverse.1 ht) with rfl | hemitted
  · exact lined_ofKind fun _ => by decide
  · exact hreached.lined t hemitted

/-- No escape among the mistakes is one of a line end. -/
def Scanned.EscapesNoLineEnd (scanned : Scanned) : Prop :=
  ∀ t ∈ scanned.tokens, t.problem ≠ some (.invalidEscape '\n')

instance (scanned : Scanned) : Decidable scanned.EscapesNoLineEnd :=
  inferInstanceAs (Decidable (∀ t ∈ scanned.tokens, _))

theorem oneLine_problems {scanned : Scanned} (h : scan config s = some scanned) :
    (∀ t ∈ scanned.tokens, ∀ p ∈ t.problem, OneLine p.message) ↔ scanned.EscapesNoLineEnd := by
  constructor
  · intro hline t ht hproblem
    exact absurd (hline t ht _ hproblem) (by decide)
  · intro hescape t ht p hp
    refine (lined_of_scan h t ht).problem p hp ?_
    rintro rfl
    exact hescape t ht hp

/-- The diagnostics say what the tokens do, and that a token is invalid. -/
theorem oneLine_diagnostics {scanned : Scanned} (h : scan config s = some scanned) :
    (∀ d ∈ scanned.diagnostics, OneLine d.message) ↔ scanned.EscapesNoLineEnd := by
  rw [← oneLine_problems h]
  constructor
  · intro hline t ht p hp
    have hd : t.diagnostic? = some (.ofSpan .lex p.message t.span) := by
      rw [Token.diagnostic?, if_pos ((lined_of_scan h t ht).error p hp), hp]
      rfl
    exact hline _ (List.mem_filterMap.2 ⟨t, ht, hd⟩)
  · intro hline d hd
    obtain ⟨t, ht, hsome⟩ := List.mem_filterMap.1 hd
    unfold Token.diagnostic? at hsome
    split at hsome
    · cases hsome
      change OneLine ((t.problem.map ScanError.message).getD "invalid token")
      cases hp : t.problem with
      | none => decide
      | some p => exact hline t ht p hp
    · cases hsome

end Scan

end ComponentLang
