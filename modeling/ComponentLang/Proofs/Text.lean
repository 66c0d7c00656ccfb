import ComponentLang.Text.Blank
import ComponentLang.Text.Quoted
import ComponentLang.Token
import Mathlib.Data.List.DropRight

/-!
# Pieces and lines of texts

A text that is cut at a character has pieces without the character, and cutting two texts with the
character between them cuts each of them. A trimmed text has no white space at its ends, and
trimming leaves such a text as it is. Cut at line feeds, a text gives its lines.
-/
namespace ComponentLang.Text

variable {text piece : List Char} {c : Char}

/-! ## Pieces -/

theorem splitOn_append_cons (c : Char) (first second : List Char) :
    (first ++ c :: second).splitOn c = first.splitOn c ++ second.splitOn c :=
  List.splitOnP_append_cons first second (beq_self_eq_true c)

/-- A text without the character is one piece. -/
theorem splitOn_of_notMem (h : c ∉ text) : text.splitOn c = [text] := by
  refine List.splitOnP_eq_singleton fun d hd => ?_
  rw [beq_eq_false_iff_ne]
  rintro rfl
  exact h hd

/-- The first piece of a text goes on with what is put in front of the text. -/
theorem splitOn_cons_of_ne {d : Char} (h : d ≠ c) (text : List Char) :
    ∃ first others, text.splitOn c = first :: others ∧
      (d :: text).splitOn c = (d :: first) :: others := by
  obtain ⟨first, others, hpieces⟩ := List.exists_cons_of_ne_nil (List.splitOnP_ne_nil (· == c) text)
  refine ⟨first, others, hpieces, ?_⟩
  have hother : (d == c) = false := beq_eq_false_iff_ne.2 h
  rw [List.splitOn, List.splitOnP_cons_eq_if_modifyHead, hother, if_neg Bool.false_ne_true, hpieces]
  rfl

theorem notMem_of_mem_splitOn (h : piece ∈ text.splitOn c) : c ∉ piece := by
  induction text generalizing piece with
  | nil =>
      rw [splitOn_of_notMem List.not_mem_nil, List.mem_singleton] at h
      exact h ▸ List.not_mem_nil
  | cons d rest ih =>
      by_cases hd : d = c
      · have hcut := splitOn_append_cons c [] rest
        rw [splitOn_of_notMem List.not_mem_nil, List.nil_append] at hcut
        rw [hd, hcut, List.singleton_append, List.mem_cons] at h
        rcases h with rfl | h
        · exact List.not_mem_nil
        · exact ih h
      · obtain ⟨first, others, hrest, hcut⟩ := splitOn_cons_of_ne hd rest
        rw [hcut, List.mem_cons] at h
        rcases h with rfl | h
        · rw [List.mem_cons, not_or]
          exact ⟨Ne.symm hd, ih (hrest ▸ List.mem_cons_self)⟩
        · exact ih (hrest ▸ List.mem_cons_of_mem first h)

/-! ## Ends -/

/-- The text neither begins nor ends with white space. -/
structure Trimmed (text : List Char) : Prop where
  head : ∀ c ∈ text.head?, isBlank c = false
  last : ∀ c ∈ text.getLast?, isBlank c = false

theorem trim_eq_rdropWhile (text : List Char) :
    trim text = (text.dropWhile isBlank).rdropWhile isBlank := rfl

theorem mem_of_mem_trim (h : c ∈ trim text) : c ∈ text := by
  rw [trim_eq_rdropWhile] at h
  exact (List.dropWhile_sublist _).subset ((List.rdropWhile_prefix _ _).subset h)

theorem trimmed_trim (text : List Char) : Trimmed (trim text) where
  head c hc := by
    -- What is cut off behind leaves the first character that is not blank where it is.
    obtain ⟨dropped, happend⟩ := List.rdropWhile_prefix isBlank (text.dropWhile isBlank)
    have hhead : (text.dropWhile isBlank).head? = some c := by
      rw [← happend, List.head?_append, ← trim_eq_rdropWhile, Option.mem_def.1 hc, Option.some_or]
    have hblank := List.head?_dropWhile_not isBlank text
    rw [hhead] at hblank
    exact hblank
  last c hc := by
    obtain ⟨hne, hlast⟩ := List.mem_getLast?_eq_getLast hc
    have hblank := List.rdropWhile_last_not isBlank (text.dropWhile isBlank) hne
    rw [Bool.not_eq_true] at hblank
    exact hlast ▸ hblank

theorem trim_of_trimmed (h : Trimmed text) : trim text = text := by
  have hfront : text.dropWhile isBlank = text := by
    cases text with
    | nil => rfl
    | cons first rest => exact List.dropWhile_cons_of_neg (by simp [h.head first rfl])
  rw [trim_eq_rdropWhile, hfront, List.rdropWhile_eq_self_iff]
  intro hne hblank
  rw [h.last _ (List.getLast?_eq_some_getLast hne)] at hblank
  cases hblank

theorem trim_cons_of_blank (h : isBlank c = true) (text : List Char) : trim (c :: text) = trim text := by
  rw [trim, List.dropWhile_cons_of_pos h]
  rfl

end ComponentLang.Text

/-! ## Lines

A line ends with its line feed. When every item of a list is written on a line of its own, the items
are read back from the text as long as no item has a line feed in it. Numbers, code points and quoted
texts have none. -/

namespace ComponentLang.Text

/-- The text fits on one line. -/
def OneLine (text : String) : Prop := '\n' ∉ text.toList

instance (text : String) : Decidable (OneLine text) := inferInstanceAs (Decidable (_ ∉ _))

/-- The lines that a text has, of which each is ended. -/
def readLines (text : String) : List String :=
  (text.toList.splitOn '\n').dropLast.map String.ofList

variable {text : String} {items : List String}

/-! ### Texts on one line -/

@[simp] theorem oneLine_append {first second : String} :
    OneLine (first ++ second) ↔ OneLine first ∧ OneLine second := by
  simp [OneLine]

@[simp] theorem oneLine_ofList {chars : List Char} : OneLine (String.ofList chars) ↔ '\n' ∉ chars := by
  rw [OneLine, String.toList_ofList]

@[simp] theorem oneLine_char {c : Char} : OneLine c.toString ↔ c ≠ '\n' := by
  simp [OneLine, ne_comm]

theorem oneLine_intercalate {separator : String} (hseparator : OneLine separator)
    (h : ∀ item ∈ items, OneLine item) : OneLine (String.intercalate separator items) := by
  rw [OneLine, String.toList_intercalate]
  induction items with
  | nil => exact List.not_mem_nil
  | cons first rest ih =>
      obtain ⟨hfirst, hrest⟩ := List.forall_mem_cons.1 h
      cases rest with
      | nil =>
          rw [List.map_singleton, List.intercalate_singleton]
          exact hfirst
      | cons second rest =>
          rw [List.map_cons, List.map_cons, List.intercalate_cons_cons, List.mem_append,
            List.mem_append, not_or, not_or]
          exact ⟨⟨hfirst, hseparator⟩, ih hrest⟩

/-- What a number is written with are digits of its base. -/
theorem exists_digitChar {base n : Nat} {c : Char} (hbase : 1 < base) (h : c ∈ Nat.toDigits base n) :
    ∃ k < base, c = Nat.digitChar k := by
  induction n using Nat.strongRecOn with
  | ind n ih =>
      rw [Nat.toDigits_eq_if hbase] at h
      split at h
      next hless => exact ⟨n, hless, List.mem_singleton.1 h⟩
      next hmore =>
        rcases List.mem_append.1 h with h | h
        · exact ih (n / base) (Nat.div_lt_self (by omega) hbase) h
        · exact ⟨n % base, Nat.mod_lt n (by omega), List.mem_singleton.1 h⟩

theorem notMem_hex (n : Nat) : '\n' ∉ hex n := by
  have hdigit : ∀ k < 16, '\n' ≠ Nat.digitChar k := by decide
  intro hmem
  obtain ⟨k, hk, heq⟩ := exists_digitChar (by decide) hmem
  exact hdigit k hk heq

@[simp] theorem oneLine_toString (n : Nat) : OneLine (toString n) := by
  have hdigit : ∀ k < 10, '\n' ≠ Nat.digitChar k := by decide
  rw [Nat.toString_eq_repr, Nat.repr_eq_ofList_toDigits, oneLine_ofList]
  intro hmem
  obtain ⟨k, hk, heq⟩ := exists_digitChar (by decide) hmem
  exact hdigit k hk heq

/-- Capital digits end no line either. -/
theorem oneLine_codePoint (n : Nat) : OneLine (ScanError.codePoint n) := by
  have hdigit : ∀ k < 16, (Nat.digitChar k).toUpper ≠ '\n' := by decide
  rw [ScanError.codePoint, oneLine_ofList, List.mem_append, not_or]
  constructor
  · simp
  · intro hmem
    obtain ⟨c, hc, heq⟩ := List.mem_map.1 hmem
    obtain ⟨k, hk, rfl⟩ := exists_digitChar (by decide) hc
    exact hdigit k hk heq

theorem notMem_quoteChar (c : Char) : '\n' ∉ quoteChar c := by
  by_cases hc : c = '\n'
  · rw [hc]
    decide
  · unfold quoteChar
    split
    case h_7 =>
      split
      · simp [notMem_hex]
      · exact fun hmem => hc (List.mem_singleton.1 hmem).symm
    all_goals decide

/-- A text in quotes stands on one line, whatever is in it. -/
@[simp] theorem oneLine_quote (text : String) : OneLine (quote text) := by
  rw [quote, oneLine_ofList]
  simp [notMem_quoteChar]

/-! ### Texts of several lines -/

/-- Each item, on a line that is ended. -/
theorem readLines_join (items : List String) :
    readLines (String.join (items.map fun item => item ++ "\n")) =
      items.flatMap fun item => (item.toList.splitOn '\n').map String.ofList := by
  have hpieces : (String.join (items.map fun item => item ++ "\n")).toList.splitOn '\n' =
      (items.flatMap fun item => item.toList.splitOn '\n') ++ [[]] := by
    rw [String.toList_join]
    induction items with
    | nil => rfl
    | cons first rest ih =>
        have hfirst : (first ++ "\n").toList = first.toList ++ ['\n'] := String.toList_append
        rw [List.map_cons, List.flatMap_cons, hfirst, List.append_assoc, List.singleton_append,
          splitOn_append_cons, ih, List.flatMap_cons, List.append_assoc]
  rw [readLines, hpieces, List.dropLast_concat, List.map_flatMap]

/-- Items that are written on lines are read back if and only if each is on one line. -/
theorem readLines_join_eq_iff (items : List String) :
    readLines (String.join (items.map fun item => item ++ "\n")) = items ↔
      ∀ item ∈ items, OneLine item := by
  rw [readLines_join]
  constructor
  · intro h item hitem
    rw [← h] at hitem
    obtain ⟨whole, -, hpiece⟩ := List.mem_flatMap.1 hitem
    obtain ⟨piece, hmem, rfl⟩ := List.mem_map.1 hpiece
    rw [oneLine_ofList]
    exact notMem_of_mem_splitOn hmem
  · intro h
    induction items with
    | nil => rfl
    | cons first rest ih =>
        obtain ⟨hfirst, hrest⟩ := List.forall_mem_cons.1 h
        rw [List.flatMap_cons, splitOn_of_notMem hfirst, ih hrest, List.map_singleton,
          String.ofList_toList, List.singleton_append]

end ComponentLang.Text
