import ComponentLang.Proofs.Typing.Local.Statement
import Mathlib.Data.List.Perm.Basic

/-!
# Local checks one after another

Where nothing is lacking, a local check finds the same from all states that say the same of the
names in sight: `p.log c` is what `p` finds from such a state. Checks that leave the names as they
find them may then follow each other in any order.
-/
namespace ComponentLang

open Scopes

namespace Log

/-- What is found by checks that follow each other. -/
def concat : List Log → Log
  | [] => nil
  | log :: rest => log.followedBy (concat rest)

theorem mem_found_concat {logs : List Log} {x : Diagnostic} :
    x ∈ (concat logs).found ↔ ∃ log ∈ logs, x ∈ log.found := by
  induction logs with
  | nil => simp [concat, nil]
  | cons log rest ih => simp [concat, followedBy, ih, or_comm]

/-- The types that are noted last come first. -/
theorem noted_concat {α : Type} (segment : α → Log) (items : List α) :
    (concat (items.map segment)).noted = items.reverse.flatMap fun a => (segment a).noted := by
  induction items with
  | nil => rfl
  | cons a rest ih => simp [concat, followedBy, ih]

theorem made_concat {α : Type} (segment : α → Log) (items : List α) :
    (concat (items.map segment)).made = items.flatMap fun a => (segment a).made := by
  induction items with
  | nil => rfl
  | cons a rest ih => rw [List.map_cons, concat, followedBy, ih, List.flatMap_cons]

end Log

namespace Checking

/-- The state when nothing is found yet. -/
def cleared (c : Checking) : Checking :=
  { c with diagnostics := [], types := .empty, summaries := [] }

variable {V : View} {c d e : Checking} {log : Log}

theorem Matches.entries_eq (h : Matches V c d) (hV : V.Whole) {y : String} (hy : V.seen y) :
    d.scopes.entries y = c.scopes.entries y := by
  have hentries := h.entries y hy
  rw [hV y] at hentries
  exact hentries

theorem matches_of_entries (hV : V.Whole)
    (hentries : ∀ y, V.seen y → d.scopes.entries y = c.scopes.entries y)
    (hdepth : d.scopes.outer.length = c.scopes.outer.length) (hexternal : d.external = c.external)
    (hcomponents : ∀ y, y ∈ d.components ↔ y ∈ c.components) (hreturns : d.returns = c.returns) :
    Matches V c d where
  entries y hy := by
    rw [hV y]
    exact hentries y hy
  depth := hdepth
  external := hexternal
  components := hcomponents
  returns := hreturns

theorem matches_refl (hV : V.Whole) (c : Checking) : Matches V c c :=
  matches_of_entries hV (fun _ _ => rfl) rfl rfl (fun _ => .rfl) rfl

theorem Matches.trans (hcd : Matches V c d) (hde : Matches V d e) (hV : V.Whole) : Matches V c e :=
  matches_of_entries hV (fun _ hy => (hde.entries_eq hV hy).trans (hcd.entries_eq hV hy))
    (hde.depth.trans hcd.depth) (hde.external.trans hcd.external)
    (fun y => (hde.components y).trans (hcd.components y)) (hde.returns.trans hcd.returns)

theorem matches_cleared (hV : V.Whole) (c : Checking) : Matches V c.cleared c :=
  matches_of_entries hV (fun _ _ => rfl) rfl rfl (fun _ => .rfl) rfl

/-- From the state in which nothing is found, all is found that there is in the end. -/
theorem Adds.of_cleared (h : Adds V log c.cleared d) (hV : V.Whole) :
    (∀ x, x ∈ log.found ↔ x ∈ d.diagnostics) ∧ log.noted = d.types.entries ∧
      log.made = d.summaries := by
  refine ⟨fun x => ?_, ?_, ?_⟩
  · rw [h.found]
    exact (or_iff_left List.not_mem_nil).symm
  · rw [h.noted]
    exact (List.append_nil _).symm
  · rw [h.made hV]
    rfl

end Checking

open Checking

namespace Check

variable {α : Type} {V : View} {D : Set String} {p : Check α} {c d : Checking}

/-- What a check finds from a state, but for what is found already. -/
def log (p : Check α) (c : Checking) : Log :=
  let after := (p.run c.cleared).2
  ⟨after.diagnostics, after.types.entries, after.summaries⟩

/-- Where nothing is lacking, nothing can be missed. -/
theorem Local.parallel (h : Local V D p) (hV : V.Whole) (hm : Matches V c d) :
    Parallel V p c d := by
  refine (h.alike c d hm fun y _ hgap => absurd (hV y) hgap).resolve_left ?_
  rintro ⟨y, -, hgap, -⟩
  exact hgap (hV y)

theorem Local.adds (h : Local V D p) (hV : V.Whole) (hm : Matches V c d) :
    Adds V (log p c) d (p.run d).2 := by
  obtain ⟨log, hc, hd⟩ := (h.parallel hV ((matches_cleared hV c).trans hm hV)).added
  obtain ⟨hfound, hnoted, hmade⟩ := hc.of_cleared hV
  refine ⟨fun x => ?_, ?_, fun _ => ?_⟩
  · rw [hd.found, hfound]
    rfl
  · rw [hd.noted, hnoted]
    rfl
  · rw [hd.made hV, hmade]
    rfl

theorem numbers_log {ids : Set Nat} (h : Leaves ids p) (c : Checking) (id : Nat) :
    ((log p c).noted.lookup id).isSome ↔ id ∈ ids := by
  have hnoted := (h c.cleared).numbers
  have hempty : c.cleared.types.numbers = ∅ := TypeTable.numbers_empty
  rw [hempty, Set.empty_union] at hnoted
  exact Set.ext_iff.1 hnoted id

/-- Checks that leave the state as it is, but for what they find, find the same in any order. -/
theorem adds_each {check : α → Check Unit} {items : List α} (hV : V.Whole)
    (hlocal : ∀ a ∈ items, ∃ D, Local V D (check a))
    (hback : ∀ a ∈ items, Matches V c ((check a).run c).2) (hm : Matches V c d) :
    Matches V c ((each check items).run d).2 ∧
      Adds V (.concat (items.map fun a => log (check a) c)) d ((each check items).run d).2 := by
  induction items generalizing d with
  | nil => exact ⟨hm, adds_of_eq rfl rfl rfl⟩
  | cons a rest ih =>
      rw [List.forall_mem_cons] at hlocal hback
      obtain ⟨⟨D, hfirst⟩, hlocal⟩ := hlocal
      have hnext : Matches V c ((check a).run d).2 :=
        hback.1.trans (hfirst.parallel hV hm).states hV
      obtain ⟨hlast, hadds⟩ := ih hlocal hback.2 hnext
      exact ⟨hlast, (hfirst.adds hV hm).trans hadds⟩

end Check

/-! ## At the top -/

namespace Scopes

variable {s : Scopes}

theorem entries_of_outer_nil (h : s.outer = []) (y : String) : s.entries y = [s.outermost y] := by
  rw [outermost, entries_eq_cons, h]
  rfl

theorem lookup?_of_outer_nil (h : s.outer = []) (y : String) : s.lookup? y = s.outermost y := by
  rw [lookup?_eq_entries, entries_of_outer_nil h]
  cases s.outermost y <;> rfl

end Scopes

namespace Checking

/-- There is one scope, and no function is being checked. -/
structure AtTop (c : Checking) : Prop where
  outer : c.scopes.outer = []
  returns : c.returns = []

/-- No variable of the outermost scope waits for its type. -/
def Firm (c : Checking) : Prop := ∀ y, c.scopes.outermost y ≠ some .unknown

variable {D : Set String} {c d : Checking}

theorem Frames.atTop (h : Frames D c d) (hc : c.AtTop) : d.AtTop where
  outer := by
    rw [← List.length_eq_zero_iff, h.depth, hc.outer]
    rfl
  returns := by
    rw [← List.length_eq_zero_iff, h.returns, hc.returns]
    rfl

theorem Frames.outermost_of_notMem (h : Frames D c d) (hfirm : c.Firm) {y : String} (hy : y ∉ D) :
    d.scopes.outermost y = c.scopes.outermost y :=
  h.outermost y (fun hmem => absurd hmem hy) (hfirm y)

theorem Frames.firm (h : Frames D c d) (hfirm : c.Firm)
    (hD : ∀ y ∈ D, d.scopes.outermost y ≠ some .unknown) : d.Firm := by
  intro y
  by_cases hy : y ∈ D
  · exact hD y hy
  · rw [h.outermost_of_notMem hfirm hy]
    exact hfirm y

/-- What is defined has the type that it had. -/
theorem Frames.matches (h : Frames D c d) (hc : c.AtTop) (hfirm : c.Firm)
    (hD : ∀ y ∈ D, d.scopes.outermost y = c.scopes.outermost y) : Matches .all c d := by
  refine matches_of_entries View.whole_all (fun y _ => ?_) h.depth h.external
    (fun y => by rw [h.components]) ((h.atTop hc).returns.trans hc.returns.symm)
  rw [entries_of_outer_nil hc.outer, entries_of_outer_nil (h.atTop hc).outer]
  by_cases hy : y ∈ D
  · rw [hD y hy]
  · rw [h.outermost_of_notMem hfirm hy]

end Checking

namespace Check

variable {c : Checking}

theorem function_ne_unknown (f : Function) (c : Checking) : ((function f).run c).1 ≠ .unknown := by
  obtain ⟨name, params, returnType, ⟨statements, blockSpan⟩, isAsync, modifiers, span⟩ := f
  rw [Check.function]
  unfold functionType
  exact nofun

/-- What a function says of its return is its type, whatever the body returns. -/
theorem function_signature {f : Function} (h : f.returnType.isSome) (c : Checking) :
    ((function f).run c).1 = ((signature f).run c).1 := by
  obtain ⟨name, params, returnType, ⟨statements, blockSpan⟩, isAsync, modifiers, span⟩ := f
  obtain ⟨a, rfl⟩ := Option.isSome_iff_exists.1 h
  rw [Check.function]
  rfl

theorem local_all_function (f : Function) : Local .all {f.name} (function f) :=
  local_function (fun _ => trivial) f _ (Set.mem_singleton _)

theorem outermost_function (f : Function) (hc : c.AtTop) :
    ((function f).run c).2.scopes.outermost f.name = some ((function f).run c).1 := by
  have hframes := (local_all_function f).frames c
  rw [← lookup?_of_outer_nil (hframes.atTop hc).outer]
  exact lookup?_function f c

/-- A function whose type is declared leaves the names at the top as they are. -/
theorem matches_function {f : Function} (h : f.returnType.isSome) (hc : c.AtTop) (hfirm : c.Firm)
    (htype : c.scopes.outermost f.name = some ((signature f).run c).1) :
    Matches .all c ((function f).run c).2 := by
  refine ((local_all_function f).frames c).matches hc hfirm ?_
  rintro y rfl
  rw [htype, ← function_signature h]
  exact outermost_function f hc

theorem matches_component (k : Component) (hc : c.AtTop) (hfirm : c.Firm) :
    Matches .all c ((component k).run c).2 :=
  ((local_component (V := .all) (fun _ => trivial) k ∅).frames c).matches hc hfirm nofun

end Check

end ComponentLang
