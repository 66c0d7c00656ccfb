import ComponentLang.Proofs.Scan.Gap

/-!
# Texts at the front of a source

A source begins with a text if its first units are the characters of the text. The run of a class of
characters at the front is such a text, and is found by what ends it.
-/
namespace ComponentLang

/-- The source begins with the text. -/
def Source.StartsWith (s : Source) (text : List Char) : Prop := text.map SourceUnit.char <+: s

namespace Source

variable {p : Char → Bool} {s : Source} {c : Char} {text more : List Char}

theorem startsWith_nil (s : Source) : s.StartsWith [] := List.nil_prefix

theorem startsWith_cons :
    s.StartsWith (c :: text) ↔ ∃ rest, s = .char c :: rest ∧ StartsWith rest text := by
  constructor
  · rintro ⟨tail, rfl⟩
    exact ⟨_, rfl, tail, rfl⟩
  · rintro ⟨rest, rfl, tail, rfl⟩
    exact ⟨tail, rfl⟩

theorem startsWith_append :
    s.StartsWith (text ++ more) ↔ s.StartsWith text ∧ StartsWith (s.drop text.length) more := by
  induction text generalizing s with
  | nil => simp [startsWith_nil]
  | cons c text ih =>
      rw [List.cons_append, startsWith_cons, startsWith_cons]
      constructor
      · rintro ⟨rest, rfl, hrest⟩
        exact ⟨⟨rest, rfl, (ih.1 hrest).1⟩, (ih.1 hrest).2⟩
      · rintro ⟨⟨rest, rfl, htext⟩, hmore⟩
        exact ⟨rest, rfl, ih.2 ⟨htext, hmore⟩⟩

theorem StartsWith.eq_append (h : s.StartsWith text) :
    s = text.map .char ++ s.drop text.length := by
  obtain ⟨tail, rfl⟩ := h
  simp

theorem StartsWith.take (h : s.StartsWith text) : s.take text.length = text.map .char := by
  obtain ⟨tail, rfl⟩ := h
  exact List.take_left' (List.length_map _)

theorem text_map (text : List Char) : Source.text (text.map .char) = String.ofList text := by
  rw [Source.text, Source.chars, List.map_map]
  exact congrArg String.ofList (List.map_id text)

/-- Two texts of one length that a source begins with are the same. -/
theorem StartsWith.eq_of_length (h : s.StartsWith text) (h' : s.StartsWith more)
    (hlength : text.length = more.length) : text = more := by
  have hmap : text.map SourceUnit.char = more.map SourceUnit.char :=
    List.prefix_of_prefix_length_le h h' (by simp [hlength]) |>.eq_of_length (by simp [hlength])
  exact List.map_injective_iff.2 (fun _ _ => SourceUnit.char.inj) hmap

/-- The run of a class at the front is a text. -/
theorem exists_run (p : Char → Bool) (s : Source) :
    ∃ text, s.StartsWith text ∧ text.length = run p s ∧ (∀ c ∈ text, p c = true) ∧
      frontIs p (s.drop (run p s)) = false := by
  induction s with
  | nil => exact ⟨[], startsWith_nil [], rfl, List.forall_mem_nil _, rfl⟩
  | cons u rest ih =>
      by_cases hu : u.satisfies p = true
      · cases u with
        | invalid b => cases hu
        | char c =>
            obtain ⟨text, hstarts, hlength, hp, hfront⟩ := ih
            refine ⟨c :: text, startsWith_cons.2 ⟨rest, rfl, hstarts⟩, ?_, ?_, ?_⟩
            · rw [run, if_pos hu, List.length_cons, hlength]
            · exact List.forall_mem_cons.2 ⟨hu, hp⟩
            · rw [run, if_pos hu]
              exact hfront
      · refine ⟨[], startsWith_nil _, ?_, List.forall_mem_nil _, ?_⟩
        · rw [run, if_neg hu]
          rfl
        · rw [run, if_neg hu]
          exact Bool.eq_false_iff.2 hu

theorem run_of_startsWith (h : s.StartsWith text) (hp : ∀ c ∈ text, p c = true) :
    run p s = text.length + run p (s.drop text.length) := by
  induction text generalizing s with
  | nil => simp
  | cons c text ih =>
      obtain ⟨rest, rfl, hrest⟩ := startsWith_cons.1 h
      rw [List.forall_mem_cons] at hp
      have hc : (SourceUnit.char c).satisfies p = true := hp.1
      rw [run, if_pos hc, ih hrest hp.2, List.length_cons, List.drop_succ_cons]
      omega

theorem run_eq_zero (h : frontIs p s = false) : run p s = 0 := by
  cases s with
  | nil => rfl
  | cons u rest => exact if_neg (Bool.eq_false_iff.1 h)

theorem length_le_run (h : s.StartsWith text) (hp : ∀ c ∈ text, p c = true) :
    text.length ≤ run p s := by
  rw [run_of_startsWith h hp]
  exact Nat.le_add_right _ _

/-- A character outside the class ends the run. -/
theorem run_of_startsWith_append (h : s.StartsWith (text ++ c :: more))
    (hp : ∀ c ∈ text, p c = true) (hc : p c = false) : run p s = text.length := by
  obtain ⟨htext, hmore⟩ := startsWith_append.1 h
  obtain ⟨rest, hrest, -⟩ := startsWith_cons.1 hmore
  rw [run_of_startsWith htext hp, hrest, run, SourceUnit.satisfies_char, hc]
  rfl

theorem frontIs_of_startsWith (h : s.StartsWith (c :: text)) : frontIs p s = p c := by
  obtain ⟨rest, rfl, -⟩ := startsWith_cons.1 h
  rfl

theorem exists_of_frontIs (h : frontIs p s = true) :
    ∃ c rest, s = .char c :: rest ∧ p c = true := by
  cases s with
  | nil => cases h
  | cons u rest =>
      cases u with
      | invalid b => cases h
      | char c => exact ⟨c, rest, rfl, h⟩

end Source

end ComponentLang
