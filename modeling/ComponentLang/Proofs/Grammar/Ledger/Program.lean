import ComponentLang.Proofs.Grammar.Ledger.Statement
import ComponentLang.Proofs.Grammar.Program

/-!
# No problem is lost

A program that was read accounts for every entry made on the way: it comes to the end without the
limit. So its placeholders stand for different problems, and without a placeholder nothing was left
out and there was no problem at all.
-/
namespace ComponentLang.Grammar

open Parse State

/-! ## Items -/

def heldProgram (p : Program) : Holding := held p.parts

theorem heldProgram_eq (p : Program) :
    heldProgram p =
      (p.exports.map heldExport).sum + ((p.functions.map heldFunction).sum +
        ((p.components.map heldComponent).sum + (p.statements.map heldStmt).sum)) := by
  have himports : held (p.imports.map .importDecl) = 0 := by
    simp [held, partHolding, Function.comp_def]
  simp only [heldProgram, Program.parts, Walk.program, held_enter, held_append, held_flatMap,
    himports, partHolding, zero_add]
  rfl

theorem builds_item {program : Program} :
    Builds (heldProgram program) heldProgram (item program) := by
  unfold item
  apply builds_kind_bind
  intro kind
  split
  · apply builds_idle_bind idle_importDecl
    intro decl
    exact builds_pure (by simp [heldProgram_eq])
  · apply builds_then (builds_exportDecl builds_statement)
    intro decl
    exact builds_pure (by simp [heldProgram_eq]; abel)
  · split
    · apply builds_then (builds_declaration builds_statement)
      intro declared
      cases declared with
      | inl function => exact builds_pure (by simp [heldProgram_eq]; abel)
      | inr component => exact builds_pure (by simp [heldProgram_eq]; abel)
    · apply builds_then builds_statement
      intro stmt
      exact builds_pure (by simp [heldProgram_eq]; abel)

theorem builds_recoveringItem {program : Program} :
    Builds (heldProgram program) heldProgram (recoveringItem program) := by
  unfold recoveringItem
  apply builds_attempt_bind builds_item
  · intro read
    exact builds_pure rfl
  · intro problem
    apply builds_bind builds_recover
    intro placeholder
    have hadd : heldProgram program + heldStmt placeholder = heldProgram
        { program with statements := program.statements ++ [placeholder] } := by
      simp [heldProgram_eq]
      abel
    apply builds_kind_bind
    intro kind
    split
    · exact builds_advance_bind fun _ => builds_pure hadd
    · exact builds_pure hadd

theorem builds_program : Builds 0 heldProgram program := by
  refine builds_iterate (n := heldProgram) ?_ .empty
  intro read
  unfold programStep
  apply builds_get_bind
  intro s
  split
  · exact builds_pure rfl
  · apply builds_eat_if
    · exact builds_pure rfl
    · apply builds_bind builds_recoveringItem
      intro read
      exact builds_idle_bind idle_ensureProgress fun _ => builds_pure rfl

/-! ## What a program holds -/

def Entry.number? : Entry → Option Nat
  | .number id => some id
  | .problem _ => none

def Entry.problem? : Entry → Option Diagnostic
  | .number _ => none
  | .problem d => some d

/-- The problem that a placeholder with this place and message is left for. -/
def placeholderProblem (placeholder : Span × String) : Diagnostic :=
  ⟨.parse, placeholder.2, placeholder.1.line, placeholder.1.column⟩

/-- The problems that the placeholders of a program are left for. -/
def reported (p : Program) : List Diagnostic := p.placeholders.map placeholderProblem

theorem filterMap_number? (numbers : Multiset Nat) (problems : Multiset Diagnostic) :
    (numbers.map Entry.number + problems.map Entry.problem).filterMap Entry.number? = numbers := by
  simp [Multiset.filterMap_map, Function.comp_def, Entry.number?,
    Multiset.eq_zero_iff_forall_notMem]

theorem filterMap_problem? (numbers : Multiset Nat) (problems : Multiset Diagnostic) :
    (numbers.map Entry.number + problems.map Entry.problem).filterMap Entry.problem? =
      problems := by
  simp [Multiset.filterMap_map, Function.comp_def, Entry.problem?,
    Multiset.eq_zero_iff_forall_notMem]

theorem partHolding_eq (part : TreePart) :
    partHolding part =
      ⟨(↑part.number?.toList : Multiset Nat).map Entry.number +
        (↑(part.placeholder?.toList.map placeholderProblem) : Multiset Diagnostic).map
          Entry.problem, part.placeholder?.isNone⟩ := by
  cases part with
  | expr e => rfl
  | stmt s => cases s <;> rfl
  | _ => rfl

theorem heldProgram_entries (p : Program) :
    (heldProgram p).entries =
      (↑p.visited : Multiset Nat).map Entry.number +
        (↑(reported p) : Multiset Diagnostic).map Entry.problem := by
  unfold heldProgram Program.visited reported Program.placeholders
  induction p.parts with
  | nil => rfl
  | cons part rest ih =>
      rw [held_cons, Holding.add_entries, ih, partHolding_eq]
      have hcons : ∀ {α : Type} (find : TreePart → Option α),
          (part :: rest).filterMap find = (find part).toList ++ rest.filterMap find := by
        intro α find
        cases h : find part <;> simp [h]
      rw [hcons, hcons, List.map_append, ← Multiset.coe_add, ← Multiset.coe_add,
        Multiset.map_add, Multiset.map_add]
      exact add_add_add_comm _ _ _ _

theorem heldProgram_whole (p : Program) : (heldProgram p).whole = true ↔ p.placeholders = [] := by
  unfold heldProgram Program.placeholders
  induction p.parts with
  | nil => simp
  | cons part rest ih =>
      rw [held_cons, Holding.add_whole, Bool.and_eq_true, ih, partHolding_eq]
      cases h : part.placeholder? <;> simp [h]

/-! ## A whole program -/

/-- At the end the program accounts for what was given out from the start. -/
theorem accounts_parse (tokens : List Token) :
    Accounts (heldProgram (parse tokens).program) (.start tokens)
      (program.run (.start tokens)).2 := by
  obtain ⟨read, hok, -⟩ := (gives_program (n := 0) (s := .start tokens)).exists_ok
  have hread : (parse tokens).program = read := by
    change (program.run (.start tokens)).1.toOption.getD .empty = read
    rw [hok]
    rfl
  rw [hread]
  exact ((builds_program _ _ _ (accounts_refl _) le_rfl).good_of_ok hok).1

variable (tokens : List Token)

@[simp] theorem State.numbers_entries (s : State) :
    s.entries.filterMap Entry.number? = Multiset.range s.nextId := by
  unfold State.entries
  rw [← Multiset.map_coe, filterMap_number?]

@[simp] theorem State.problems_entries (s : State) :
    s.entries.filterMap Entry.problem? = ↑s.diagnostics := by
  unfold State.entries
  rw [← Multiset.map_coe, filterMap_problem?]

@[simp] theorem State.entries_start : (State.start tokens).entries = 0 := rfl

theorem heldProgram_le :
    (heldProgram (parse tokens).program).entries ≤ (program.run (.start tokens)).2.entries := by
  have hle := (accounts_parse tokens).entered
  rwa [State.entries_start, add_zero] at hle

/-- The numbers in a program that was read are different. -/
theorem nodup_visited : (parse tokens).program.visited.Nodup := by
  have hle := Multiset.filterMap_le_filterMap Entry.number? (heldProgram_le tokens)
  rw [heldProgram_entries, filterMap_number?, State.numbers_entries] at hle
  exact Multiset.coe_nodup.1 (Multiset.nodup_of_le hle (Multiset.nodup_range _))

/-- The problems that placeholders are left for are among those that are reported, as often. -/
theorem reported_subperm :
    (reported (parse tokens).program).Subperm (parse tokens).diagnostics := by
  have hle := Multiset.filterMap_le_filterMap Entry.problem? (heldProgram_le tokens)
  rw [heldProgram_entries, filterMap_problem?, State.problems_entries] at hle
  exact (Multiset.coe_le.1 hle).trans (List.reverse_perm _).symm.subperm

/-- Without a placeholder nothing that was read has been dropped. -/
theorem diagnostics_eq_nil (h : (parse tokens).program.placeholders = []) :
    (parse tokens).diagnostics = [] := by
  have hdiagnostics : (parse tokens).diagnostics =
      (program.run (.start tokens)).2.diagnostics.reverse := rfl
  have haccounts := accounts_parse tokens
  generalize (program.run (.start tokens)).2 = after at hdiagnostics haccounts
  have hunlimited : ¬ after.Limited := by
    rintro ⟨d, hd, hmessage⟩
    have hmem : d ∈ (parse tokens).diagnostics := by
      rw [hdiagnostics, List.mem_reverse]
      exact problem_mem_entries.1 hd
    exact unlimited_parse tokens d hmem hmessage
  have hexact := (haccounts.exact ((heldProgram_whole _).2 h)).resolve_left hunlimited
  have hproblems : (↑after.diagnostics : Multiset Diagnostic) = ↑([] : List Diagnostic) := by
    rw [← State.problems_entries, hexact, State.entries_start, add_zero, heldProgram_entries,
      filterMap_problem?, reported, h, List.map_nil]
  rw [hdiagnostics, List.reverse_eq_nil_iff]
  exact (Multiset.coe_eq_zero _).1 hproblems

/-- No problem is lost. The problems of a program are empty exactly if no placeholder is in it, and
different placeholders are left for different problems, with their messages and places. -/
theorem parse_reports (tokens : List Token) :
    let parsed := parse tokens
    (parsed.diagnostics = [] ↔
      ∀ span message, ¬ parsed.program.Contains (.stmt (.error span message))) ∧
    ∃ report : Fin parsed.program.placeholders.length → Fin parsed.diagnostics.length,
      Function.Injective report ∧
      ∀ i, let placeholder := parsed.program.placeholders[i]
        let d := parsed.diagnostics[report i]
        d.message = placeholder.2 ∧ d.line = placeholder.1.line ∧
          d.column = placeholder.1.column := by
  intro parsed
  have hsubperm : (reported parsed.program).Subperm parsed.diagnostics := reported_subperm tokens
  have hlength : (reported parsed.program).length = parsed.program.placeholders.length :=
    List.length_map _
  refine ⟨⟨?_, ?_⟩, fun i => hsubperm.idxInj (i.cast hlength.symm), ?_, ?_⟩
  · intro hnone span message hcontains
    have hreported : reported parsed.program = [] := by
      rw [hnone] at hsubperm
      exact List.subperm_nil.1 hsubperm
    have hmem := Program.mem_placeholders.2 hcontains
    rw [List.map_eq_nil_iff.1 hreported] at hmem
    exact List.not_mem_nil hmem
  · intro hnone
    apply diagnostics_eq_nil
    rw [List.eq_nil_iff_forall_not_mem]
    rintro ⟨span, message⟩ hmem
    exact hnone span message (Program.mem_placeholders.1 hmem)
  · intro i j hij
    have hcast := hsubperm.idxInj_injective hij
    rw [Fin.ext_iff] at hcast ⊢
    exact hcast
  · intro i placeholder d
    have hd : d = (reported parsed.program)[i.cast hlength.symm] :=
      hsubperm.getElem_idxInj_eq_getElem
    have hplaceholder : d = placeholderProblem placeholder := by
      rw [hd]
      exact List.getElem_map _
    rw [hplaceholder]
    exact ⟨rfl, rfl, rfl⟩

/-- A problem in a block leaves a placeholder in the block. -/
example : (parse strayBracket).program.placeholders.map Prod.snd =
    ["expected an expression, found ')'"] := by
  decide

end ComponentLang.Grammar
