import ComponentLang.Proofs.Text
import ComponentLang.Style

/-!
# The written form of styles

Reading a text as style declarations drops what declares nothing and the white space around what
does. What is left has a written form, `property: value` with `; ` in between, from which it is read
again. Texts with a semicolon between them are read one after the other.
-/
namespace ComponentLang.StyleDecl

open Text

variable {entry property value : List Char} {d : StyleDecl} {ds : List StyleDecl}

/-- The declaration could have been read: it has a property, nothing in it would be cut, and there
is no white space around its parts. -/
structure Canonical (d : StyleDecl) : Prop where
  property_ne : d.property ≠ ""
  property_uncut : ':' ∉ d.property.toList ∧ ';' ∉ d.property.toList
  value_uncut : ';' ∉ d.value.toList
  property_trimmed : Trimmed d.property.toList
  value_trimmed : Trimmed d.value.toList

/-- The declaration as it is written. -/
def written (d : StyleDecl) : String := d.property ++ ": " ++ d.value

/-- The declarations as they are written one after the other. -/
def writtenAll (ds : List StyleDecl) : String := String.intercalate "; " (ds.map written)

/-! ## Entries -/

/-- An entry is cut at its first colon. -/
theorem ofEntry?_append (h : ':' ∉ property) (value : List Char) :
    ofEntry? (property ++ ':' :: value) =
      if (trim property).isEmpty then none
      else some ⟨String.ofList (trim property), String.ofList (trim value)⟩ := by
  have hbefore : ∀ c ∈ property, (c != ':') = true := by
    intro c hc
    rw [bne_iff_ne]
    rintro rfl
    exact h hc
  unfold ofEntry?
  rw [List.dropWhile_append_of_pos hbefore, List.takeWhile_append_of_pos hbefore]
  simp

/-- What declares something has a colon. -/
theorem exists_of_ofEntry? (h : ofEntry? entry = some d) :
    ∃ property value, entry = property ++ ':' :: value ∧ ':' ∉ property := by
  have hcolon : ':' ∈ entry := by
    by_contra hnone
    have hdropped : entry.dropWhile (· != ':') = [] := by
      refine List.dropWhile_eq_nil_iff.2 fun c hc => ?_
      rw [bne_iff_ne]
      rintro rfl
      exact hnone hc
    unfold ofEntry? at h
    rw [hdropped] at h
    cases h
  obtain ⟨property, value, hentry, hproperty⟩ := List.eq_append_cons_of_mem hcolon
  exact ⟨property, value, hentry, hproperty⟩

theorem canonical_of_entry (hentry : ';' ∉ entry) (h : ofEntry? entry = some d) : d.Canonical := by
  obtain ⟨property, value, rfl, hproperty⟩ := exists_of_ofEntry? h
  rw [ofEntry?_append hproperty] at h
  split at h
  next => cases h
  next hne =>
    cases h
    rw [List.mem_append, List.mem_cons, not_or, not_or] at hentry
    refine ⟨?_, ?_, ?_, ?_, ?_⟩
    · intro hempty
      exact hne (by rw [String.ofList_eq_empty_iff.1 hempty]; rfl)
    · rw [String.toList_ofList]
      exact ⟨fun hmem => hproperty (mem_of_mem_trim hmem),
        fun hmem => hentry.1 (mem_of_mem_trim hmem)⟩
    · rw [String.toList_ofList]
      exact fun hmem => hentry.2.2 (mem_of_mem_trim hmem)
    · rw [String.toList_ofList]
      exact trimmed_trim property
    · rw [String.toList_ofList]
      exact trimmed_trim value

/-- White space in front of an entry makes no difference. -/
theorem ofEntry?_cons_space (entry : List Char) : ofEntry? (' ' :: entry) = ofEntry? entry := by
  have htrim : ∀ text, trim (' ' :: text) = trim text := trim_cons_of_blank rfl
  have hdrop : (' ' :: entry).dropWhile (· != ':') = entry.dropWhile (· != ':') :=
    List.dropWhile_cons_of_pos rfl
  have htake : (' ' :: entry).takeWhile (· != ':') = ' ' :: entry.takeWhile (· != ':') :=
    List.takeWhile_cons_of_pos rfl
  unfold ofEntry?
  rw [hdrop, htake, htrim]

theorem ofEntry?_written (h : d.Canonical) : ofEntry? d.written.toList = some d := by
  have hwritten : d.written.toList = d.property.toList ++ ':' :: ' ' :: d.value.toList := by
    simp [written]
  have hne : d.property.toList.isEmpty = false := by
    rw [List.isEmpty_eq_false_iff]
    exact fun hnil => h.property_ne (String.toList_eq_nil_iff.1 hnil)
  rw [hwritten, ofEntry?_append h.property_uncut.1, trim_of_trimmed h.property_trimmed, hne,
    if_neg Bool.false_ne_true, trim_cons_of_blank rfl, trim_of_trimmed h.value_trimmed,
    String.ofList_toList, String.ofList_toList]

/-! ## Texts -/

theorem ofChars_append (first second : List Char) :
    ofChars (first ++ ';' :: second) = ofChars first ++ ofChars second := by
  rw [ofChars, splitOn_append_cons, List.filterMap_append]
  rfl

/-- A text without a semicolon is one entry. -/
theorem ofChars_entry (h : ';' ∉ entry) : ofChars entry = ( ofEntry? entry).toList := by
  rw [ofChars, splitOn_of_notMem h]
  cases hread : ofEntry? entry <;> simp [hread]

theorem ofChars_cons_space (text : List Char) : ofChars (' ' :: text) = ofChars text := by
  obtain ⟨first, others, htext, hcut⟩ := splitOn_cons_of_ne (c := ';') (d := ' ') (by decide) text
  rw [ofChars, ofChars, htext, hcut, List.filterMap_cons, List.filterMap_cons, ofEntry?_cons_space]

theorem canonical_of_mem_ofText {text : String} (h : d ∈ ofText text) : d.Canonical := by
  obtain ⟨entry, hentry, hread⟩ := List.mem_filterMap.1 h
  exact canonical_of_entry (notMem_of_mem_splitOn hentry) hread

theorem ofChars_written (h : d.Canonical) : ofChars d.written.toList = [d] := by
  have huncut : ';' ∉ d.written.toList := by
    simp [written, h.property_uncut.2, h.value_uncut]
  rw [ofChars_entry huncut, ofEntry?_written h]
  rfl

/-- Declarations that could have been read are read from their written form. -/
theorem ofText_writtenAll (h : ∀ d ∈ ds, d.Canonical) : ofText (writtenAll ds) = ds := by
  have hchars : ∀ ds : List StyleDecl,
      (writtenAll ds).toList = [';', ' '].intercalate (ds.map fun d => d.written.toList) := by
    intro ds
    rw [writtenAll, String.toList_intercalate, List.map_map]
    rfl
  rw [ofText, hchars]
  induction ds with
  | nil => rfl
  | cons d rest ih =>
      obtain ⟨hd, hrest⟩ := List.forall_mem_cons.1 h
      cases rest with
      | nil =>
          rw [List.map_singleton, List.intercalate_singleton]
          exact ofChars_written hd
      | cons e rest =>
          rw [List.map_cons, List.map_cons, List.intercalate_cons_cons, List.append_assoc,
            List.cons_append, ofChars_append, ofChars_written hd, List.singleton_append,
            List.cons_append, List.nil_append, ofChars_cons_space]
          exact congrArg (d :: ·) (ih hrest)

/-- What is read from a text could be written as it is: it is read again from its written form. A
semicolon between two texts cuts no declaration and joins none. -/
theorem ofText_canonical :
    (∀ text : String, ∀ d ∈ ofText text, d.Canonical) ∧
      (∀ text : String, ofText (writtenAll (ofText text)) = ofText text) ∧
      ∀ first second : String, ofText (first ++ ";" ++ second) = ofText first ++ ofText second := by
  refine ⟨fun text d => canonical_of_mem_ofText, fun text => ?_, fun first second => ?_⟩
  · exact ofText_writtenAll fun d => canonical_of_mem_ofText
  · have hchars : (first ++ ";" ++ second).toList = first.toList ++ ';' :: second.toList := by
      simp
    rw [ofText, hchars, ofChars_append]
    rfl

/-- Parts that are empty, without a colon or without a property go, and later colons stay. -/
example : ofText " ;: red; bold;a : b:c ;; width:" = [⟨"a", "b:c"⟩, ⟨"width", ""⟩] ∧
    writtenAll [⟨"a", "b:c"⟩, ⟨"width", ""⟩] = "a: b:c; width: " := by decide +kernel

end ComponentLang.StyleDecl
