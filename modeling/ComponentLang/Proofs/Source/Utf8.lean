import ComponentLang.Analysis
import ComponentLang.Source.Utf8
import Mathlib.Data.List.Infix
import Mathlib.Data.Nat.Find

/-!
# Bytes and text

Bytes are decoded in one way only: where a well-formed sequence stands it is its character, and
elsewhere the bytes of a maximal subpart are units each for itself. No byte is lost, so a source
gives the bytes back that it was made from, and the bytes of a text make the source that the text
makes.
-/
namespace ComponentLang

/-- The bytes that a unit stands for. -/
def SourceUnit.bytes : SourceUnit → List UInt8
  | .char c => String.utf8EncodeChar c
  | .invalid byte => [byte]

/-- The bytes that a source stands for. -/
def Source.bytes (s : Source) : List UInt8 := s.flatMap SourceUnit.bytes

namespace Source
open String (utf8EncodeChar)

/-! ## Well-formed sequences -/

/-- The four forms of a well-formed sequence. The first byte has the highest bits of the character,
and every further byte the six next. -/
inductive Sequence (c : Char) : List UInt8 → Prop
  | one {a : UInt8} : c.toNat = a.toNat → a.toNat < 0x80 → Sequence c [a]
  | two {a b : UInt8} {x y : Nat} : a.toNat = x + 0xc0 → b.toNat = y + 0x80 → x < 32 → y < 64 →
      c.toNat = x * 64 + y → 0x80 ≤ c.toNat → Sequence c [a, b]
  | three {a b d : UInt8} {x y z : Nat} : a.toNat = x + 0xe0 → b.toNat = y + 0x80 →
      d.toNat = z + 0x80 → x < 16 → y < 64 → z < 64 → c.toNat = (x * 64 + y) * 64 + z →
      0x800 ≤ c.toNat → Sequence c [a, b, d]
  | four {a b d e : UInt8} {w x y z : Nat} : a.toNat = w + 0xf0 → b.toNat = x + 0x80 →
      d.toNat = y + 0x80 → e.toNat = z + 0x80 → w < 8 → x < 64 → y < 64 → z < 64 →
      c.toNat = ((w * 64 + x) * 64 + y) * 64 + z → 0x10000 ≤ c.toNat → Sequence c [a, b, d, e]

theorem byte_eq {n : Nat} {a : UInt8} (h : a.toNat = n) : UInt8.ofNat n = a := by
  rw [← h, UInt8.ofNat_toNat]

theorem toNat_byte {n : Nat} (h : n < 256) : (UInt8.ofNat n).toNat = n :=
  UInt8.toNat_ofNat_of_lt' h

theorem utf8EncodeChar_eq (c : Char) :
    utf8EncodeChar c =
      if c.toNat ≤ 0x7f then [UInt8.ofNat c.toNat]
      else if c.toNat ≤ 0x7ff then
        [UInt8.ofNat (c.toNat / 64 % 32 + 192), UInt8.ofNat (c.toNat % 64 + 128)]
      else if c.toNat ≤ 0xffff then
        [UInt8.ofNat (c.toNat / 4096 % 16 + 224), UInt8.ofNat (c.toNat / 64 % 64 + 128),
          UInt8.ofNat (c.toNat % 64 + 128)]
      else
        [UInt8.ofNat (c.toNat / 262144 % 8 + 240), UInt8.ofNat (c.toNat / 4096 % 64 + 128),
          UInt8.ofNat (c.toNat / 64 % 64 + 128), UInt8.ofNat (c.toNat % 64 + 128)] := rfl

theorem sequence_iff {c : Char} {bytes : List UInt8} :
    Sequence c bytes ↔ bytes = utf8EncodeChar c := by
  rw [utf8EncodeChar_eq]
  constructor
  · intro h
    cases h with
    | one hc ha => rw [if_pos (by omega), byte_eq hc.symm]
    | @two a b _ _ ha hb hx hy hc hleast =>
      rw [if_neg (by omega), if_pos (by omega), byte_eq (a := a) (by omega),
        byte_eq (a := b) (by omega)]
    | @three a b d _ _ _ ha hb hd hx hy hz hc hleast =>
      rw [if_neg (by omega), if_neg (by omega), if_pos (by omega), byte_eq (a := a) (by omega),
        byte_eq (a := b) (by omega), byte_eq (a := d) (by omega)]
    | @four a b d e _ _ _ _ ha hb hd he hw hx hy hz hc hleast =>
      rw [if_neg (by omega), if_neg (by omega), if_neg (by omega), byte_eq (a := a) (by omega),
        byte_eq (a := b) (by omega), byte_eq (a := d) (by omega), byte_eq (a := e) (by omega)]
  · rintro rfl
    have hmax : c.toNat < 0x110000 := by
      obtain h | h := c.valid
      · exact Nat.lt_trans h (by decide)
      · exact h.2
    split
    · exact .one (toNat_byte (by omega)).symm (by rw [toNat_byte] <;> omega)
    split
    · exact .two (toNat_byte (by omega)) (toNat_byte (by omega)) (by omega) (by omega) (by omega)
        (by omega)
    split
    · exact .three (toNat_byte (by omega)) (toNat_byte (by omega)) (toNat_byte (by omega))
        (by omega) (by omega) (by omega) (by omega) (by omega)
    · exact .four (toNat_byte (by omega)) (toNat_byte (by omega)) (toNat_byte (by omega))
        (toNat_byte (by omega)) (by omega) (by omega) (by omega) (by omega) (by omega) (by omega)

theorem toNat_ofNat_of_isValidChar {n : Nat} (h : n.isValidChar) : (Char.ofNat n).toNat = n := by
  rw [Char.ofNat, dif_pos h]
  rfl

theorem continuation?_eq_some_iff {b : UInt8} {x : Nat} :
    continuation? b = some x ↔ b.toNat = x + 0x80 ∧ x < 64 := by
  simp only [continuation?, UInt8.le_iff_toNat_le]
  split
  next hrange =>
    simp only [UInt8.reduceToNat] at hrange
    simp only [Option.some.injEq]
    omega
  next hrange =>
    simp only [UInt8.reduceToNat] at hrange
    simp only [reduceCtorEq, false_iff]
    omega

theorem scalar?_eq_some_iff {least n : Nat} {c : Char} :
    scalar? least n = some c ↔ c.toNat = n ∧ least ≤ n := by
  unfold scalar?
  constructor
  · intro h
    split at h
    next hn =>
      cases h
      exact ⟨toNat_ofNat_of_isValidChar hn.2, hn.1⟩
    next => cases h
  · rintro ⟨rfl, hleast⟩
    rw [if_pos ⟨hleast, c.valid⟩, Char.ofNat_toNat]

theorem exists_sequence_of_sequence? {bytes : List UInt8} {c : Char} {w : Nat}
    (h : sequence? bytes = some (c, w)) :
    ∃ front rest, bytes = front ++ rest ∧ w = front.length ∧ Sequence c front := by
  unfold sequence? at h
  split at h
  · cases h
  next a rest =>
    simp only [UInt8.lt_iff_toNat_lt, UInt8.le_iff_toNat_le, UInt8.reduceToNat] at h
    split at h
    next ha =>
      cases h
      exact ⟨[a], rest, rfl, rfl, .one (toNat_ofNat_of_isValidChar (.inl (by omega))) ha⟩
    split at h
    next ha =>
      split at h
      next b rest =>
        simp only [Option.bind_eq_bind, Option.bind_eq_some_iff, continuation?_eq_some_iff,
          scalar?_eq_some_iff, Option.pure_def, Option.some.injEq, Prod.mk.injEq] at h
        obtain ⟨y, ⟨hb, hy⟩, _, ⟨hc, hleast⟩, rfl, rfl⟩ := h
        exact ⟨[a, b], rest, rfl, rfl, .two (Nat.sub_add_cancel ha.1).symm hb (by omega) hy hc
          (by omega)⟩
      next => cases h
    split at h
    next ha =>
      split at h
      next b d rest =>
        simp only [Option.bind_eq_bind, Option.bind_eq_some_iff, continuation?_eq_some_iff,
          scalar?_eq_some_iff, Option.pure_def, Option.some.injEq, Prod.mk.injEq] at h
        obtain ⟨y, ⟨hb, hy⟩, z, ⟨hd, hz⟩, _, ⟨hc, hleast⟩, rfl, rfl⟩ := h
        exact ⟨[a, b, d], rest, rfl, rfl, .three (Nat.sub_add_cancel ha.1).symm hb hd (by omega)
          hy hz hc (by omega)⟩
      next => cases h
    split at h
    next ha =>
      split at h
      next b d e rest =>
        simp only [Option.bind_eq_bind, Option.bind_eq_some_iff, continuation?_eq_some_iff,
          scalar?_eq_some_iff, Option.pure_def, Option.some.injEq, Prod.mk.injEq] at h
        obtain ⟨x, ⟨hb, hx⟩, y, ⟨hd, hy⟩, z, ⟨he, hz⟩, _, ⟨hc, hleast⟩, rfl, rfl⟩ := h
        exact ⟨[a, b, d, e], rest, rfl, rfl, .four (Nat.sub_add_cancel ha.1).symm hb hd he
          (by omega) hx hy hz hc (by omega)⟩
      next => cases h
    next => cases h

theorem sequence?_append {c : Char} {front : List UInt8} (h : Sequence c front)
    (rest : List UInt8) : sequence? (front ++ rest) = some (c, front.length) := by
  cases h with
  | one hc ha =>
    simp only [sequence?, List.cons_append, List.nil_append, UInt8.lt_iff_toNat_lt,
      UInt8.reduceToNat]
    rw [if_pos ha, ← hc, Char.ofNat_toNat]
    rfl
  | @two a b x y ha hb hx hy hc hleast =>
    have hscalar : scalar? 0x80 ((a.toNat - 0xc0) * 64 + y) = some c :=
      scalar?_eq_some_iff.2 ⟨by omega, by omega⟩
    simp only [sequence?, List.cons_append, List.nil_append, UInt8.lt_iff_toNat_lt,
      UInt8.le_iff_toNat_le, UInt8.reduceToNat]
    rw [if_neg (by omega), if_pos (by omega), continuation?_eq_some_iff.2 ⟨hb, hy⟩]
    simp only [Option.bind_eq_bind, Option.bind_some, hscalar]
    rfl
  | @three a b d x y z ha hb hd hx hy hz hc hleast =>
    have hscalar : scalar? 0x800 (((a.toNat - 0xe0) * 64 + y) * 64 + z) = some c :=
      scalar?_eq_some_iff.2 ⟨by omega, by omega⟩
    simp only [sequence?, List.cons_append, List.nil_append, UInt8.lt_iff_toNat_lt,
      UInt8.le_iff_toNat_le, UInt8.reduceToNat]
    rw [if_neg (by omega), if_neg (by omega), if_pos (by omega),
      continuation?_eq_some_iff.2 ⟨hb, hy⟩, continuation?_eq_some_iff.2 ⟨hd, hz⟩]
    simp only [Option.bind_eq_bind, Option.bind_some, hscalar]
    rfl
  | @four a b d e w x y z ha hb hd he hw hx hy hz hc hleast =>
    have hscalar : scalar? 0x10000 ((((a.toNat - 0xf0) * 64 + x) * 64 + y) * 64 + z) = some c :=
      scalar?_eq_some_iff.2 ⟨by omega, by omega⟩
    simp only [sequence?, List.cons_append, List.nil_append, UInt8.lt_iff_toNat_lt,
      UInt8.le_iff_toNat_le, UInt8.reduceToNat]
    rw [if_neg (by omega), if_neg (by omega), if_neg (by omega), if_pos (by omega),
      continuation?_eq_some_iff.2 ⟨hb, hx⟩, continuation?_eq_some_iff.2 ⟨hd, hy⟩,
      continuation?_eq_some_iff.2 ⟨he, hz⟩]
    simp only [Option.bind_eq_bind, Option.bind_some, hscalar]
    rfl

/-! ## Bytes that begin no sequence -/

/-- A byte that goes on with a sequence and begins none. -/
def Continues (b : UInt8) : Prop := 0x80 ≤ b.toNat ∧ b.toNat < 0xc0

theorem Sequence.continues {c : Char} {a : UInt8} {more : List UInt8}
    (h : Sequence c (a :: more)) : ∀ b ∈ more, Continues b := by
  unfold Continues
  cases h with
  | one => exact List.forall_mem_nil _
  | two ha hb hx hy =>
    intro b hmem
    rw [List.mem_singleton.1 hmem]
    omega
  | three ha hb hd hx hy hz =>
    simp only [List.forall_mem_cons]
    exact ⟨by omega, by omega, List.forall_mem_nil _⟩
  | four ha hb hd he hw hx hy hz =>
    simp only [List.forall_mem_cons]
    exact ⟨by omega, by omega, by omega, List.forall_mem_nil _⟩

theorem sequence?_of_continues {b : UInt8} (h : Continues b) (rest : List UInt8) :
    sequence? (b :: rest) = none := by
  rw [Option.eq_none_iff_forall_ne_some]
  rintro ⟨c, width⟩ hsome
  obtain ⟨front, after, hbytes, -, hfront⟩ := exists_sequence_of_sequence? hsome
  unfold Continues at h
  cases hfront <;> cases hbytes <;> omega

/-! ## Sources from bytes -/

theorem ofBytesAfter_eq (pending : Nat) (bytes : List UInt8) :
    ofBytesAfter pending bytes = ofBytes (bytes.drop pending) := by
  induction bytes generalizing pending with
  | nil =>
    rw [List.drop_nil]
    rfl
  | cons b rest ih =>
    cases pending with
    | zero => rfl
    | succ pending => exact ih pending

theorem ofBytes_char {c : Char} {front : List UInt8} (h : Sequence c front) (rest : List UInt8) :
    ofBytes (front ++ rest) = .char c :: ofBytes rest := by
  have hsome := sequence?_append h rest
  cases hfront : front with
  | nil =>
    rw [hfront] at h
    cases h
  | cons a more =>
    rw [hfront] at hsome
    unfold ofBytes
    rw [List.cons_append, ofBytesAfter, ← List.cons_append, hsome]
    dsimp only
    rw [ofBytesAfter_eq, List.length_cons, Nat.add_sub_cancel, List.drop_left]
    rfl

theorem ofBytes_invalid {b : UInt8} {rest : List UInt8} (h : sequence? (b :: rest) = none) :
    ofBytes (b :: rest) = .invalid b :: ofBytes rest := by
  unfold ofBytes
  rw [ofBytesAfter, h]

theorem ofBytes_continues {part : List UInt8} (h : ∀ b ∈ part, Continues b) (rest : List UInt8) :
    ofBytes (part ++ rest) = part.map .invalid ++ ofBytes rest := by
  induction part with
  | nil => rfl
  | cons b more ih =>
    rw [List.forall_mem_cons] at h
    rw [List.cons_append, ofBytes_invalid (sequence?_of_continues h.1 _), ih h.2]
    rfl

/-- The bytes are a well-formed sequence and others, or none stands in front of them. -/
theorem sequence_or_none (bytes : List UInt8) :
    (∃ c front rest, Sequence c front ∧ bytes = front ++ rest) ∨ sequence? bytes = none := by
  cases h : sequence? bytes with
  | none => exact .inr rfl
  | some found =>
    obtain ⟨c, width⟩ := found
    obtain ⟨front, rest, hbytes, -, hfront⟩ := exists_sequence_of_sequence? h
    exact .inl ⟨c, front, rest, hfront, hbytes⟩

theorem Sequence.length_lt {c : Char} {front rest bytes : List UInt8} (h : Sequence c front)
    (hbytes : bytes = front ++ rest) : rest.length < bytes.length := by
  rw [hbytes, List.length_append]
  cases h <;> simp only [List.length_cons] <;> omega

/-- What was decoded stands for the bytes that were decoded. -/
theorem bytes_ofBytes (bytes : List UInt8) : (ofBytes bytes).bytes = bytes := by
  obtain ⟨c, front, rest, hfront, hbytes⟩ | hnone := sequence_or_none bytes
  · have hshorter : rest.length < bytes.length := hfront.length_lt hbytes
    rw [hbytes, ofBytes_char hfront]
    calc
      Source.bytes (.char c :: ofBytes rest) = utf8EncodeChar c ++ (ofBytes rest).bytes := rfl
      _ = front ++ rest := by rw [sequence_iff.1 hfront, bytes_ofBytes rest]
  · cases bytes with
    | nil => rfl
    | cons b rest =>
      rw [ofBytes_invalid hnone]
      exact congrArg (b :: ·) (bytes_ofBytes rest)
termination_by bytes.length

theorem ofBytes_text (text : String) : ofBytes text.toUTF8.data.toList = ofString text := by
  have hchars : ∀ chars : List Char, ofBytes (chars.flatMap utf8EncodeChar) = chars.map .char := by
    intro chars
    induction chars with
    | nil => rfl
    | cons c rest ih => rw [List.flatMap_cons, ofBytes_char (sequence_iff.2 rfl), ih, List.map_cons]
  rw [String.toUTF8_eq_toByteArray, ← String.utf8Encode_toList]
  unfold List.utf8Encode
  rw [List.data_toByteArray, hchars]
  rfl

/-! ## Decoding -/

/-- The bytes are a front of a well-formed sequence, or all of it. -/
def Initial (bytes : List UInt8) : Prop := ∃ c, bytes <+: utf8EncodeChar c

/-- A maximal subpart at a place where no well-formed sequence stands: the longest front of one, or
a single byte where there is none. -/
structure MaximalSubpart (part bytes : List UInt8) : Prop where
  front : part <+: bytes
  nonempty : part ≠ []
  illFormed : ∀ c, ¬ utf8EncodeChar c <+: bytes
  initial : Initial part ∨ part.length = 1
  longest : ∀ other, other <+: bytes → Initial other → other.length ≤ part.length

/-- The units that bytes are decoded to: well-formed sequences to their characters, and maximal
subparts of what is ill-formed to their bytes. -/
inductive Decodes : List UInt8 → Source → Prop
  | nil : Decodes [] []
  | sequence (c : Char) {rest : List UInt8} {units : Source} :
      Decodes rest units → Decodes (utf8EncodeChar c ++ rest) (.char c :: units)
  | subpart {part rest : List UInt8} {units : Source} : MaximalSubpart part (part ++ rest) →
      Decodes rest units → Decodes (part ++ rest) (part.map .invalid ++ units)

theorem Initial.continues {a : UInt8} {more : List UInt8} (h : Initial (a :: more)) :
    ∀ b ∈ more, Continues b := by
  obtain ⟨c, tail, htail⟩ := h
  have hsequence : Sequence c (a :: (more ++ tail)) := sequence_iff.2 htail
  exact fun b hb => hsequence.continues b (List.mem_append_left _ hb)

theorem sequence?_eq_none_iff {bytes : List UInt8} :
    sequence? bytes = none ↔ ∀ c, ¬ utf8EncodeChar c <+: bytes := by
  constructor
  · rintro hnone c ⟨rest, rfl⟩
    rw [sequence?_append (sequence_iff.2 rfl)] at hnone
    cases hnone
  · intro hill
    obtain ⟨c, front, rest, hfront, rfl⟩ | hnone := sequence_or_none bytes
    · exact (hill c (sequence_iff.1 hfront ▸ List.prefix_append front rest)).elim
    · exact hnone

/-- All bytes of a maximal subpart but the first go on with a sequence, so none begins one. -/
theorem MaximalSubpart.ofBytes {part rest : List UInt8} (h : MaximalSubpart part (part ++ rest)) :
    ofBytes (part ++ rest) = part.map .invalid ++ ofBytes rest := by
  cases hpart : part with
  | nil => exact (h.nonempty hpart).elim
  | cons a more =>
    subst hpart
    have hmore : ∀ b ∈ more, Continues b := by
      obtain hinitial | hsingle := h.initial
      · exact hinitial.continues
      · rw [List.length_cons, Nat.add_eq_right, List.length_eq_zero_iff] at hsingle
        subst hsingle
        exact List.forall_mem_nil _
    have hnone : sequence? (a :: (more ++ rest)) = none := sequence?_eq_none_iff.2 h.illFormed
    rw [List.cons_append, ofBytes_invalid hnone, ofBytes_continues hmore]
    rfl

theorem Decodes.eq_ofBytes {bytes : List UInt8} {units : Source} (h : Decodes bytes units) :
    units = ofBytes bytes := by
  induction h with
  | nil => rfl
  | sequence c _ ih => rw [ofBytes_char (sequence_iff.2 rfl), ih]
  | subpart hpart _ ih => rw [hpart.ofBytes, ih]

/-- Where no well-formed sequence stands there is a maximal subpart. -/
theorem exists_maximalSubpart {bytes : List UInt8} (hne : bytes ≠ [])
    (hill : ∀ c, ¬ utf8EncodeChar c <+: bytes) : ∃ part, MaximalSubpart part bytes := by
  classical
  let length := Nat.findGreatest (fun n => Initial (bytes.take n)) bytes.length
  have hpos : 0 < bytes.length := List.length_pos_iff.2 hne
  have hgreatest : ∀ other, other <+: bytes → Initial other → other.length ≤ length := by
    intro other hother hinitial
    apply Nat.le_findGreatest hother.length_le
    rwa [← List.prefix_iff_eq_take.1 hother]
  obtain hzero | hsome := Nat.eq_zero_or_pos length
  · refine ⟨bytes.take 1, List.take_prefix _ _, ?_, hill, .inr ?_, ?_⟩
    · rw [ne_eq, List.take_eq_nil_iff]
      simp [hne]
    · rw [List.length_take]
      omega
    · intro other hother hinitial
      have hle := hgreatest other hother hinitial
      omega
  · have hlength : length ≤ bytes.length := Nat.findGreatest_le _
    have htake : (bytes.take length).length = length := by
      rw [List.length_take, Nat.min_eq_left hlength]
    refine ⟨bytes.take length, List.take_prefix _ _, ?_, hill, .inl ?_, ?_⟩
    · rw [← List.length_pos_iff, htake]
      exact hsome
    · exact Nat.findGreatest_of_ne_zero rfl (Nat.pos_iff_ne_zero.1 hsome)
    · rwa [htake]

theorem decodes_ofBytes (bytes : List UInt8) : Decodes bytes (ofBytes bytes) := by
  obtain ⟨c, front, rest, hfront, hbytes⟩ | hnone := sequence_or_none bytes
  · have hshorter : rest.length < bytes.length := hfront.length_lt hbytes
    rw [hbytes, ofBytes_char hfront, sequence_iff.1 hfront]
    exact .sequence c (decodes_ofBytes rest)
  · by_cases hne : bytes = []
    · subst hne
      exact .nil
    · obtain ⟨part, hpart⟩ := exists_maximalSubpart hne (sequence?_eq_none_iff.1 hnone)
      obtain ⟨rest, hrest⟩ := hpart.front
      have hshorter : rest.length < bytes.length := by
        have hpos := List.length_pos_iff.2 hpart.nonempty
        rw [← hrest, List.length_append]
        omega
      rw [← hrest] at hpart ⊢
      rw [hpart.ofBytes]
      exact .subpart hpart (decodes_ofBytes rest)
termination_by bytes.length

/-- Bytes are decoded to the one list of units that is prescribed for them, and from the units come
the same bytes. The bytes of a text are scanned and analyzed as the text is, with any options. -/
theorem ofBytes_lossless :
    (∀ bytes units, Decodes bytes units ↔ units = ofBytes bytes) ∧
    (∀ bytes, (ofBytes bytes).bytes = bytes) ∧
    (∀ (config : ScanConfig) (text : String),
      Scan.scan config (ofBytes text.toUTF8.data.toList) = Scan.scan config (ofString text)) ∧
    ∀ (config : ScanConfig) (external : List TypedName) (text : String),
      Analysis.ofSource? config external (ofBytes text.toUTF8.data.toList) =
        Analysis.ofSource? config external (ofString text) := by
  refine ⟨fun bytes units => ⟨Decodes.eq_ofBytes, ?_⟩, bytes_ofBytes, ?_, ?_⟩
  · rintro rfl
    exact decodes_ofBytes bytes
  · intro config text
    rw [ofBytes_text]
  · intro config external text
    rw [ofBytes_text]

/-- The two bytes of a sequence that is cut off are two units, and the text goes on after them. -/
example : ofBytes [0x61, 0xe2, 0x82, 0x62] =
    [.char 'a', .invalid 0xe2, .invalid 0x82, .char 'b'] := by
  decide

end Source

end ComponentLang
