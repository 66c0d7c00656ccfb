import ComponentLang.Proofs.Scan.Reached
import ComponentLang.Proofs.Source.StartsWith

/-!
# Literals

In code and among the attributes of a tag a quote begins a string and a digit a number, whatever
came before. Either is one piece: a token, or an error, which is the only token unless it is one
error more than the configuration allows and a note ends the scan.
-/
namespace ComponentLang

/-- Whether strings and numbers are read in the mode. -/
def Mode.holdsLiterals : Mode → Bool
  | .normal | .expression | .tagAttribute => true
  | .tagContent | .styleValue => false

namespace Scan

variable {config : ScanConfig} {mode : Mode} {afterOperand : Bool} {c : Char} {rest : Source}

theorem read_of_shared {r : Reading} (hmode : mode.holdsLiterals = true)
    (h : readShared? config (.char c :: rest) c rest = some r) :
    read config mode afterOperand (.char c :: rest) = r := by
  cases mode with
  | normal => simp only [read, readCode, h]
  | expression => simp only [read, readCode, h]
  | tagAttribute => simp only [read, readAttribute, h]
  | tagContent => cases hmode
  | styleValue => cases hmode

theorem read_of_quote (hmode : mode.holdsLiterals = true) (hc : c = '"' ∨ c = '\'') :
    read config mode afterOperand (.char c :: rest) = readString c rest := by
  refine read_of_shared hmode ?_
  rcases hc with rfl | rfl <;> rfl

theorem read_of_digit (hmode : mode.holdsLiterals = true) (hc : c.isDigit = true) :
    read config mode afterOperand (.char c :: rest) = readNumber config (.char c :: rest) := by
  refine read_of_shared hmode ?_
  have hne : ∀ d : Char, d.isDigit = false → c ≠ d := by
    rintro d hd rfl
    rw [hc] at hd
    cases hd
  simp [readShared?, isSpacing, hc, hne ' ' rfl, hne '\t' rfl, hne '\r' rfl, hne '\n' rfl,
    hne '/' rfl, hne '"' rfl, hne '\'' rfl]

namespace State

variable {st : State}

/-- The note that the scan ends at `next`, if an error more is too many. -/
def note (config : ScanConfig) (st : State) (next : Cursor) : List Token :=
  if config.maxErrors < st.errors + 1 then
    [.ofError (.tooManyErrors (st.errors + 1)) "" (next.spanTo next)]
  else []

theorem emitted_place_error (problem : ScanError) (width : Nat) (lexeme : String) :
    (st.place config (.error problem width lexeme)).emitted =
      st.note config (st.cursor.advance width) ++
        .ofError problem lexeme (st.cursor.spanTo (st.cursor.advance width)) :: st.emitted := by
  unfold place note
  dsimp only [Piece.width]
  split <;> rfl

/-- The newest token after an error is an error, with a note and without. -/
theorem exists_newest_error (config : ScanConfig) (st : State) (next : Cursor)
    (problem : ScanError) (lexeme : String) (span : Span) (tokens : List Token) :
    ∃ newest older, st.note config next ++ .ofError problem lexeme span :: tokens =
      newest :: older ∧ newest.kind = .error := by
  unfold note
  split
  · exact ⟨_, _, rfl, rfl⟩
  · exact ⟨_, _, rfl, rfl⟩

/-- A reading of one piece that stays in its mode only places the piece. -/
theorem step_of_piece {piece : Piece} (h : st.reading config = ⟨[piece], .stay⟩) :
    st.step config = st.place config piece := by
  rw [step_eq, h]
  change { st.place config piece with modes := st.modes } = st.place config piece
  rw [← modes_place config st piece]

theorem reading_of_quote {quote : Char} (hmode : st.modes.top.holdsLiterals = true)
    (hquote : quote = '"' ∨ quote = '\'') (hrest : st.cursor.rest = .char quote :: rest) :
    st.reading config = readString quote rest := by
  rw [reading, hrest]
  exact read_of_quote hmode hquote

theorem reading_of_digit (hmode : st.modes.top.holdsLiterals = true)
    (hrest : st.cursor.rest = .char c :: rest) (hc : c.isDigit = true) :
    st.reading config = readNumber config st.cursor.rest := by
  rw [reading, hrest]
  exact read_of_digit hmode hc

end State

end Scan

end ComponentLang

/-! ## Number literals

`Number` is the grammar of numbers, of which each part is there or not. What a scan reads of a
fraction or an exponent is the longest there is, and whether a number has either of them is seen in
the number itself. -/

namespace ComponentLang.Scan
open Source

/-- One or more characters of a class. -/
def Digits (p : Char → Bool) (digits : List Char) : Prop :=
  digits ≠ [] ∧ ∀ d ∈ digits, p d = true

/-- A letter that announces another base, and the digits of that base. -/
inductive Base : Char → (Char → Bool) → Prop
  | hexadecimal {letter : Char} : letter = 'x' ∨ letter = 'X' → Base letter isHexDigit
  | binary {letter : Char} : letter = 'b' ∨ letter = 'B' → Base letter isBinaryDigit

inductive Fraction : List Char → Prop
  | none : Fraction []
  | some {digits : List Char} : Digits Char.isDigit digits → Fraction ('.' :: digits)

inductive Exponent : List Char → Prop
  | none : Exponent []
  | some {letter : Char} {sign digits : List Char} : letter = 'e' ∨ letter = 'E' →
      sign = [] ∨ sign = ['+'] ∨ sign = ['-'] → Digits Char.isDigit digits →
      Exponent (letter :: (sign ++ digits))

/-- The text is a number of the kind. -/
inductive Number (config : ScanConfig) : NumberKind → List Char → Prop
  | inBase {letter : Char} {isDigit : Char → Bool} {digits : List Char} : Base letter isDigit →
      Digits isDigit digits → Number config .int ('0' :: letter :: digits)
  | decimal {whole fraction exponent : List Char} : Digits Char.isDigit whole →
      Fraction fraction → Exponent exponent →
      (exponent ≠ [] → config.scientificNotation = true) →
      Number config (if fraction ++ exponent = [] then .int else .float)
        (whole ++ (fraction ++ exponent))

variable {config : ScanConfig} {kind kind' : NumberKind} {s : Source} {p : Char → Bool}
  {text digits fraction exponent : List Char} {c : Char}

theorem Digits.exists_cons (h : Digits p digits) :
    ∃ d more, digits = d :: more ∧ p d = true := by
  obtain ⟨d, more, rfl⟩ := List.exists_cons_of_ne_nil h.1
  exact ⟨d, more, rfl, h.2 d List.mem_cons_self⟩

theorem Digits.frontIs (h : Digits p digits) (hs : s.StartsWith digits) : frontIs p s = true := by
  obtain ⟨d, more, rfl, hd⟩ := h.exists_cons
  rw [frontIs_of_startsWith hs]
  exact hd

/-- The run of a class at the front, if something of the class stands there. -/
theorem exists_digits (h : frontIs p s = true) :
    ∃ digits, Digits p digits ∧ s.StartsWith digits ∧ digits.length = run p s := by
  obtain ⟨digits, hstarts, hlength, hp, -⟩ := exists_run p s
  have hpos := run_pos_of_frontIs h
  refine ⟨digits, ⟨?_, hp⟩, hstarts, hlength⟩
  rw [← List.length_pos_iff]
  omega

/-! ### Fractions and exponents -/

theorem exists_fraction (s : Source) :
    ∃ fraction, Fraction fraction ∧ s.StartsWith fraction ∧
      fraction.length = fractionWidth s := by
  unfold fractionWidth
  split
  next rest =>
    split
    next hfront =>
      obtain ⟨digits, hdigits, hstarts, hlength⟩ := exists_digits hfront
      exact ⟨'.' :: digits, .some hdigits, startsWith_cons.2 ⟨rest, rfl, hstarts⟩,
        congrArg (· + 1) hlength⟩
    next => exact ⟨[], .none, startsWith_nil _, rfl⟩
  next => exact ⟨[], .none, startsWith_nil _, rfl⟩

theorem exists_exponent (s : Source) :
    ∃ exponent, Exponent exponent ∧ s.StartsWith exponent ∧
      exponent.length = exponentWidth s := by
  have hnone : ∃ exponent, Exponent exponent ∧ s.StartsWith exponent ∧ exponent.length = 0 :=
    ⟨[], .none, startsWith_nil s, rfl⟩
  unfold exponentWidth
  split
  next letter rest =>
    split
    next hletter =>
      have hletter : letter = 'e' ∨ letter = 'E' := by simpa using hletter
      dsimp only
      split
      next hsign =>
        obtain ⟨sign, rest, rfl, hmark⟩ := exists_of_frontIs hsign
        have hmark : sign = '+' ∨ sign = '-' := by simpa using hmark
        split
        next hdigits =>
          obtain ⟨digits, hdigits, hstarts, hlength⟩ := exists_digits hdigits
          refine ⟨letter :: ([sign] ++ digits), .some hletter ?_ hdigits, ?_, ?_⟩
          · exact .inr (hmark.imp (congrArg ([·])) (congrArg ([·])))
          · exact startsWith_cons.2 ⟨_, rfl, startsWith_cons.2 ⟨rest, rfl, hstarts⟩⟩
          · rw [← hlength]
            simp [Nat.add_comm]
        next => exact hnone
      next =>
        split
        next hdigits =>
          obtain ⟨digits, hdigits, hstarts, hlength⟩ := exists_digits hdigits
          refine ⟨letter :: ([] ++ digits), .some hletter (.inl rfl) hdigits, ?_, ?_⟩
          · exact startsWith_cons.2 ⟨rest, rfl, hstarts⟩
          · rw [← hlength]
            simp
        next => exact hnone
    next => exact hnone
  next => exact hnone

/-- A fraction and an exponent begin with a point or a letter, if there is one of them. -/
theorem head_fraction_exponent (hfraction : Fraction fraction) (hexponent : Exponent exponent)
    (h : fraction ++ exponent = c :: text) : c = '.' ∨ c = 'e' ∨ c = 'E' := by
  cases hfraction with
  | some => exact .inl (List.cons.inj h).1.symm
  | none =>
      cases hexponent with
      | none => cases h
      | some hletter =>
          rw [← (List.cons.inj h).1]
          exact .inr hletter

theorem length_le_exponentWidth (h : Exponent exponent) (hs : s.StartsWith exponent) :
    exponent.length ≤ exponentWidth s := by
  cases h with
  | none => exact Nat.zero_le _
  | @some letter sign digits hletter hsign hdigits =>
      obtain ⟨rest, rfl, hrest⟩ := startsWith_cons.1 hs
      obtain ⟨hstarts, hafter⟩ := startsWith_append.1 hrest
      -- What is read as a sign is the sign that is written.
      have hwidth : (if frontIs (fun d => d == '+' || d == '-') rest then 1 else 0) =
          sign.length := by
        rcases hsign with rfl | rfl | rfl
        · obtain ⟨d, more, rfl, hd⟩ := hdigits.exists_cons
          have hdigit : StartsWith rest (d :: more) := hrest
          rw [frontIs_of_startsWith hdigit, if_neg]
          · rfl
          · intro hsign
            have hsign : d = '+' ∨ d = '-' := by simpa using hsign
            rcases hsign with rfl | rfl <;> cases hd
        · rw [frontIs_of_startsWith hstarts]
          rfl
        · rw [frontIs_of_startsWith hstarts]
          rfl
      have hletter : (letter == 'e' || letter == 'E') = true := by simpa using hletter
      have hrun := length_le_run hafter hdigits.2
      unfold exponentWidth
      dsimp only
      rw [if_pos hletter, hwidth, if_pos (hdigits.frontIs hafter), List.length_cons,
        List.length_append]
      omega

/-- Only a fraction without an exponent can be shorter than the fraction that is read. -/
theorem length_fraction (hfraction : Fraction fraction) (hexponent : Exponent exponent)
    (hs : s.StartsWith (fraction ++ exponent)) :
    fraction.length = fractionWidth s ∨ exponent = [] ∧ fraction.length ≤ fractionWidth s := by
  cases hfraction with
  | none =>
      cases hexponent with
      | none => exact .inr ⟨rfl, Nat.zero_le _⟩
      | some hletter =>
          obtain ⟨rest, rfl, -⟩ := startsWith_cons.1 hs
          left
          rcases hletter with rfl | rfl <;> rfl
  | some hdigits =>
      obtain ⟨rest, rfl, hrest⟩ := startsWith_cons.1 hs
      have hfront := hdigits.frontIs (startsWith_append.1 hrest).1
      rw [fractionWidth, if_pos hfront, List.length_cons]
      cases hexponent with
      | none =>
          have hrun := length_le_run (startsWith_append.1 hrest).1 hdigits.2
          exact .inr ⟨rfl, Nat.succ_le_succ hrun⟩
      | some hletter =>
          left
          rw [run_of_startsWith_append hrest hdigits.2]
          rcases hletter with rfl | rfl <;> rfl

/-! ### Bases and decimal numbers -/

section Base

variable {letter : Char} {isDigit isDigit' : Char → Bool}

theorem Base.unique (h : Base letter isDigit) (h' : Base letter isDigit') : isDigit = isDigit' := by
  rcases h with ⟨rfl | rfl⟩ | ⟨rfl | rfl⟩ <;> rcases h' with ⟨h' | h'⟩ | ⟨h' | h'⟩ <;>
    first
    | rfl
    | cases h'

theorem Base.not_isDigit (h : Base letter isDigit) : letter.isDigit = false := by
  rcases h with ⟨rfl | rfl⟩ | ⟨rfl | rfl⟩ <;> rfl

theorem baseDigits?_eq_some_iff :
    baseDigits? s = some isDigit ↔
      ∃ letter rest, Base letter isDigit ∧ s = .char '0' :: .char letter :: rest := by
  constructor
  · intro h
    unfold baseDigits? at h
    split at h
    next letter rest =>
      split at h
      next hletter =>
        cases h
        exact ⟨letter, rest, .hexadecimal (by simpa using hletter), rfl⟩
      next =>
        split at h
        next hletter =>
          cases h
          exact ⟨letter, rest, .binary (by simpa using hletter), rfl⟩
        next => cases h
    next => cases h
  · rintro ⟨letter, rest, hbase, rfl⟩
    rcases hbase with ⟨rfl | rfl⟩ | ⟨rfl | rfl⟩ <;> rfl

/-- In a number whose second character announces a base, this is what it does. -/
theorem Number.inBase_of_letter (hbase : Base letter isDigit)
    (h : Number config kind ('0' :: letter :: text)) : kind = .int ∧ Digits isDigit text := by
  generalize hwhole : '0' :: letter :: text = whole at h
  cases h with
  | inBase hbase' hdigits =>
      cases hwhole
      rw [hbase.unique hbase']
      exact ⟨rfl, hdigits⟩
  | decimal hdigits hfraction hexponent =>
      exfalso
      obtain ⟨zero, more, rfl, -⟩ := hdigits.exists_cons
      rw [List.cons_append] at hwhole
      have hrest := (List.cons.inj hwhole).2
      cases more with
      | nil =>
          have hhead := head_fraction_exponent hfraction hexponent hrest.symm
          rcases hbase with ⟨rfl | rfl⟩ | ⟨rfl | rfl⟩ <;> revert hhead <;> decide
      | cons d more =>
          have hd := hdigits.2 d (List.mem_cons_of_mem _ List.mem_cons_self)
          rw [← (List.cons.inj hrest).1, hbase.not_isDigit] at hd
          cases hd

/-- Where a base is announced, a number is the zero alone or goes on with digits of the base. -/
theorem Number.length_le_of_base (h : Number config kind text) (hs : s.StartsWith text)
    (hbase : baseDigits? s = some isDigit) :
    text.length ≤ 1 ∨
      0 < run isDigit (s.drop 2) ∧ text.length ≤ run isDigit (s.drop 2) + 2 := by
  obtain ⟨letter, rest, hletter, rfl⟩ := baseDigits?_eq_some_iff.1 hbase
  cases text with
  | nil => exact .inl (Nat.zero_le 1)
  | cons zero text =>
      cases text with
      | nil => exact .inl (Nat.le_refl 1)
      | cons second text =>
          obtain ⟨_, hzero, hs⟩ := startsWith_cons.1 hs
          cases hzero
          obtain ⟨_, hsecond, hs⟩ := startsWith_cons.1 hs
          cases hsecond
          obtain ⟨-, hdigits⟩ := h.inBase_of_letter hletter
          have hrun := length_le_run hs hdigits.2
          have hpos := List.length_pos_iff.2 hdigits.1
          right
          simp only [List.drop_succ_cons, List.drop_zero, List.length_cons]
          omega

theorem Base.isWordChar (h : Base letter isDigit) : isWordChar letter = true := by
  rcases h with ⟨rfl | rfl⟩ | ⟨rfl | rfl⟩ <;> rfl

end Base

/-- A decimal number is an integer if all of it is digits. -/
theorem forall_isDigit_iff {whole : List Char} (hwhole : Digits Char.isDigit whole)
    (hfraction : Fraction fraction) (hexponent : Exponent exponent) :
    (∀ c ∈ whole ++ (fraction ++ exponent), c.isDigit = true) ↔ fraction ++ exponent = [] := by
  constructor
  · intro h
    cases hparts : fraction ++ exponent with
    | nil => rfl
    | cons c more =>
        have hc := h c (by rw [hparts]; exact List.mem_append_right _ List.mem_cons_self)
        rcases head_fraction_exponent hfraction hexponent hparts with rfl | rfl | rfl <;> cases hc
  · intro hnil
    rw [hnil, List.append_nil]
    exact hwhole.2

theorem Number.kind_unique (h : Number config kind text) (h' : Number config kind' text) :
    kind = kind' := by
  cases h with
  | inBase hbase hdigits => exact (h'.inBase_of_letter hbase).1.symm
  | @decimal whole fraction exponent hwhole hfraction hexponent hon =>
      have hall := forall_isDigit_iff hwhole hfraction hexponent
      have hnumber := Number.decimal hwhole hfraction hexponent hon
      generalize whole ++ (fraction ++ exponent) = text at h' hall hnumber
      cases h' with
      | inBase hbase hdigits => exact (hnumber.inBase_of_letter hbase).1
      | decimal hwhole' hfraction' hexponent' =>
          have hall' := forall_isDigit_iff hwhole' hfraction' hexponent'
          simp only [← hall, ← hall']

end ComponentLang.Scan
