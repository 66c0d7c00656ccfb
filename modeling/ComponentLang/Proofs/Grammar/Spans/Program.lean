import ComponentLang.Grammar.Program
import ComponentLang.Proofs.Grammar.Program
import ComponentLang.Proofs.Grammar.Spans.Statement
import ComponentLang.Proofs.Scan.Content
import Mathlib.Data.List.TakeWhile

/-!
# The places in a program

Whatever the source is, the spans in its program nest, but for what is in the clauses of loops that
count, and the items of a list come in the order of the source. The problems come in that order too,
although some are found while others are still to be reported around them. Every span begins and
ends in the source and has the line and the column of its first unit; only the placeholder for an
assignment to what cannot be assigned has those of its target, which is in front of it.
-/
namespace ComponentLang.Grammar

open Parse ComponentLang.TreePart

variable {source : Source} {s t u : State}

/-! ## Reading a program -/

/-- The items that have been read are in their places, in front of the next token. -/
abbrev PlacedProgram (source : Source) (p : Program) (t : State) : Prop :=
  ∀ row ∈ (TreePart.program p).rows, Row source 0 t.here.start row

theorem placedProgram_iff {p : Program} :
    PlacedProgram source p t ↔ Row source 0 t.here.start (p.imports.map .importDecl) ∧
      Row source 0 t.here.start (p.exports.map .exportDecl) ∧
      Row source 0 t.here.start (p.functions.map .function) ∧
      Row source 0 t.here.start (p.components.map .component) ∧
      Row source 0 t.here.start (p.statements.map .stmt) := by
  simp [PlacedProgram, rows]

theorem PlacedProgram.mono {p : Program} (h : PlacedProgram source p t)
    (htu : t.Passes source u) : PlacedProgram source p u :=
  fun row hrow => (h row hrow).mono (Nat.le_refl 0) htu.here_le

/-- One more item of a list. -/
theorem row_concat {α : Type} {part : α → TreePart} {items : List α} {a : α}
    (h : Row source 0 t.here.start (items.map part)) (htu : t.Passes source u)
    (ha : Lies source t.here.start u.here.start (part a)) :
    Row source 0 u.here.start ((items ++ [a]).map part) :=
  h.concat ha (Nat.zero_le _) (Nat.le_refl _) htu.here_le

theorem PlacedProgram.concat {p : Program} {stmt : Stmt} (h : PlacedProgram source p t)
    (htu : t.Passes source u) (hstmt : Lies source t.here.start u.here.start (.stmt stmt)) :
    PlacedProgram source { p with statements := p.statements ++ [stmt] } u := by
  obtain ⟨himports, hexports, hfunctions, hcomponents, -⟩ := placedProgram_iff.1 (h.mono htu)
  obtain ⟨-, -, -, -, hstatements⟩ := placedProgram_iff.1 h
  exact placedProgram_iff.2
    ⟨himports, hexports, hfunctions, hcomponents, row_concat hstatements htu hstmt⟩

theorem spans_item {p : Program} (h : PlacedProgram source p t) :
    Spans source (PlacedProgram source) (item p) t := by
  obtain ⟨himports, hexports, hfunctions, hcomponents, -⟩ := placedProgram_iff.1 h
  have hlies : ∀ {part : TreePart} {u : State}, t.Passes source u → t.Brings source u part →
      Lies source t.here.start u.here.start part :=
    fun htu hpart => hpart.lies.mono (Nat.le_refl _) htu.aligned.reach_le
  unfold item
  apply spans_kind_bind
  split
  next hkind =>
    apply spans_bind (spans_importDecl (by simp [hkind]))
    intro decl u htu hdecl
    obtain ⟨-, hothers⟩ := placedProgram_iff.1 (h.mono htu)
    exact spans_pure fun _ =>
      placedProgram_iff.2 ⟨row_concat himports htu (hlies htu hdecl), hothers⟩
  next hkind =>
    apply spans_bind (spans_exportDecl places_statement (by simp [hkind]))
    intro decl u htu hdecl
    obtain ⟨himports, -, hothers⟩ := placedProgram_iff.1 (h.mono htu)
    exact spans_pure fun _ =>
      placedProgram_iff.2 ⟨himports, row_concat hexports htu (hlies htu hdecl), hothers⟩
  next =>
    split
    · apply spans_bind (places_declaration places_statement t)
      intro declared u htu hdeclared
      obtain ⟨himports, hexports, hfunctions', hcomponents', hstatements⟩ :=
        placedProgram_iff.1 (h.mono htu)
      cases declared with
      | inl function =>
          exact spans_pure fun _ => placedProgram_iff.2 ⟨himports, hexports,
            row_concat hfunctions htu (hlies htu hdeclared), hcomponents', hstatements⟩
      | inr component =>
          exact spans_pure fun _ => placedProgram_iff.2 ⟨himports, hexports, hfunctions',
            row_concat hcomponents htu (hlies htu hdeclared), hstatements⟩
    · apply spans_bind (places_statement t)
      intro stmt u htu hstmt
      exact spans_pure fun _ => h.concat htu (hlies htu hstmt)

theorem spans_recoveringItem {p : Program} (h : PlacedProgram source p t) :
    Spans source (PlacedProgram source) (recoveringItem p) t := by
  unfold recoveringItem
  apply spans_attempt_bind (spans_item h)
  · exact fun read u _ hread => spans_pure fun _ => hread
  · intro problem u htu he
    apply spans_bind (spans_recover he)
    intro placeholder v huv hplaceholder
    have hread := (h.mono htu).concat huv hplaceholder
    apply spans_kind_bind
    split
    · exact spans_advance_bind fun hnext => spans_pure fun _ => hread.mono hnext
    · exact spans_pure fun _ => hread

theorem spans_program : Spans source (PlacedProgram source) program s := by
  have hempty : PlacedProgram source .empty s :=
    placedProgram_iff.2 ⟨row_nil, row_nil, row_nil, row_nil, row_nil⟩
  refine spans_iterate (J := PlacedProgram source) (fun p t _ h => ?_) hempty
  unfold programStep
  apply spans_get_bind
  split
  · exact spans_pure fun _ => h
  · apply spans_eat_if
    · exact fun _ hnext => spans_pure fun _ => h.mono hnext
    · intro _
      apply spans_bind (spans_recoveringItem h)
      intro read u _ hread
      apply spans_bind spans_ensureProgress
      exact fun _ v huv _ => spans_pure fun _ => hread.mono huv

/-! ## From a scan to its program -/

/-- Tokens one after the other, of which one is the end, are read in order. -/
theorem aligned_of_ordered {tokens : List Token} (hon : ∀ t ∈ tokens, t.span.On source)
    (hordered : tokens.Pairwise fun t u => t.span.stop ≤ u.span.start)
    (hend : ∃ t ∈ tokens, t.kind = .eof) : (State.start tokens).Aligned source := by
  set valid := tokens.filter fun t => !t.kind.isError with hvalid
  have hrest : (State.start tokens).rest = valid.takeWhile fun t => t.kind != .eof := rfl
  set rest := (State.start tokens).rest
  have hsub : valid.Sublist tokens := List.filter_sublist
  have hsplit : valid = rest ++ valid.drop rest.length := by
    have hprefix : rest <+: valid := hrest ▸ List.takeWhile_prefix _
    conv_lhs => rw [← List.take_append_drop rest.length valid]
    rw [← List.prefix_iff_eq_take.1 hprefix]
  -- The end is not among the tokens to come.
  have hdrop : valid.drop rest.length ≠ [] := by
    intro hnil
    obtain ⟨t, ht, heof⟩ := hend
    have hmem : t ∈ valid := List.mem_filter.2 ⟨ht, by rw [heof]; rfl⟩
    rw [hsplit, hnil, List.append_nil, hrest] at hmem
    have hkind := List.mem_takeWhile_imp hmem
    rw [heof] at hkind
    cases hkind
  obtain ⟨last, more, hlast⟩ := List.exists_cons_of_ne_nil hdrop
  have hstop : (State.start tokens).stop = last.span := by
    rw [State.start]
    split
    next t _ heq =>
      obtain ⟨rfl, -⟩ := List.cons.inj (heq.symm.trans hlast)
      rfl
    next heq => exact absurd heq hdrop
  rw [hlast] at hsplit
  obtain ⟨hbetween, -, hbefore⟩ := List.pairwise_append.1 (hsplit ▸ hordered.sublist hsub)
  have hmem : ∀ t ∈ rest, t ∈ tokens := fun t ht =>
    hsub.subset (hsplit ▸ List.mem_append_left _ ht)
  exact {
    spans := fun t ht => hon t (hmem t ht)
    ordered := hbetween
    before := fun t ht => hstop ▸ hbefore t ht last List.mem_cons_self
    stop_on := by
      rw [hstop]
      exact hon last (hsub.subset (hsplit ▸ List.mem_append_right _ List.mem_cons_self))
    previous_on := by simp [State.start]
    reach_le := Nat.zero_le _
    reported := List.Pairwise.nil
    reported_le := List.forall_mem_nil _ }

theorem aligned_start {config : ScanConfig} {scanned : Scan.Scanned}
    (hscan : Scan.scan config source = some scanned) :
    (State.start scanned.tokens).Aligned source := by
  have hlossless := Scan.scan_lossless config source scanned hscan
  obtain ⟨hplaced, -⟩ := Scan.scan_positions config source scanned hscan
  obtain ⟨hordered, hle⟩ := Scan.ordered_of_scan hscan
  refine aligned_of_ordered (fun t ht => ⟨hlossless.spans t ht, hle t ht, hplaced t ht⟩) hordered ?_
  obtain ⟨tokens, eof, -, htokens, heof, -⟩ := hlossless.ending
  exact ⟨eof, htokens ▸ List.mem_append_right _ List.mem_cons_self, heof⟩

/-- What is known when all tokens have been read. -/
theorem exists_placed {config : ScanConfig} {scanned : Scan.Scanned}
    (hscan : Scan.scan config source = some scanned) :
    ∃ t, t.Aligned source ∧ PlacedProgram source (parse scanned.tokens).program t ∧
      (parse scanned.tokens).diagnostics = t.diagnostics.reverse := by
  obtain ⟨read, hok, -⟩ :=
    (gives_program (n := 0) (s := .start scanned.tokens)).exists_ok
  have hread : (parse scanned.tokens).program = read := by
    change (program.run (.start scanned.tokens)).1.toOption.getD .empty = read
    rw [hok]
    rfl
  have hends := (spans_program (aligned_start hscan)).good_of_ok hok
  exact ⟨_, hends.1.aligned, hread ▸ hends.2, rfl⟩

/-- Everything in the program of a source is in its place. -/
theorem everywhere_sited_parse {config : ScanConfig} {scanned : Scan.Scanned}
    (hscan : Scan.scan config source = some scanned) :
    (TreePart.program (parse scanned.tokens).program).Everywhere (Sited source) := by
  obtain ⟨t, -, hplaced, -⟩ := exists_placed hscan
  have hlies : ∀ child ∈ (TreePart.program (parse scanned.tokens).program).children,
      Lies source 0 t.here.start child := by
    obtain ⟨himports, hexports, hfunctions, hcomponents, hstatements⟩ := placedProgram_iff.1 hplaced
    simp only [children, List.forall_mem_append]
    exact ⟨himports.lies, hexports.lies, hfunctions.lies, hcomponents.lies, hstatements.lies⟩
  refine everywhere_iff.2 ⟨⟨?_, fun row hrow => (hplaced row hrow).ordered, fun child hchild =>
    .inl (hlies child hchild).nests⟩, fun child hchild => (hlies child hchild).sited⟩
  rintro span (hspan | ⟨p, hp, -⟩ | ⟨a, ha, -⟩)
  · cases hspan
  · cases hp
  · cases ha

/-! ## Places nest -/

/-- In whatever place the program has a part, it nests, or it is a clause of a loop that counts. -/
theorem nests_or_implied {p : Program} (h : (TreePart.program p).Everywhere (Sited source))
    {part : TreePart} (hpart : p.Contains part) :
    part.Nests ∨ ∃ whole, p.Contains whole ∧ whole.Implied part := by
  rcases Relation.ReflTransGen.cases_tail hpart with rfl | ⟨whole, hwhole, hchild⟩
  · exact .inl nofun
  · exact ((h whole hwhole).nests part hchild).imp_right fun himplied => ⟨whole, hwhole, himplied⟩

/-- For every source the place of a part of its program goes around the places of all parts directly
in that part, unless it is one of the three clauses of a loop that counts, which are not written.
The statements of a block and the children of a tag come one after the other. -/
theorem parts_nest (config : ScanConfig) (source : Source) (scanned : Scan.Scanned)
    (hscan : Scan.scan config source = some scanned) :
    (∀ part, (parse scanned.tokens).program.Contains part →
      (∀ outer ∈ part.span?, ∀ child ∈ part.children, ∀ inner ∈ child.span?,
        outer.start ≤ inner.start ∧ inner.stop ≤ outer.stop) ∨
      ∃ loop place, (parse scanned.tokens).program.Contains (.stmt loop) ∧ loop.CountsAt place ∧
        part ∈ loop.clauses) ∧
    (∀ b : Block, (parse scanned.tokens).program.Contains (.block b) →
      b.statements.Pairwise fun s t => s.span.stop ≤ t.span.start) ∧
    ∀ tag : Tag, (parse scanned.tokens).program.Contains (.tag tag) →
      tag.children.Pairwise fun a b => a.span.stop ≤ b.span.start := by
  have hsited := everywhere_sited_parse hscan
  refine ⟨fun part hpart => ?_, fun b hb => ?_, fun tag htag => ?_⟩
  · refine (nests_or_implied hsited hpart).imp_right ?_
    rintro ⟨_, hwhole, loop, place, rfl, hcounts, hclause⟩
    exact ⟨loop, place, hwhole, hcounts, hclause⟩
  · have hordered := (hsited _ hb).ordered (b.statements.map .stmt) List.mem_cons_self
    exact (List.pairwise_map.1 hordered).imp fun h => h _ rfl _ rfl
  · have hordered := (hsited _ htag).ordered (tag.children.map .markup)
      (List.mem_cons_of_mem _ List.mem_cons_self)
    exact (List.pairwise_map.1 hordered).imp fun h => h _ rfl _ rfl

/-- A loop that counts, with a tag in a tag and a statement that is not finished. -/
def tagsCounted : Source :=
  Source.ofString "for i (2) \x7b\n  <p a=\"b\">c <b/>\x7bi\x7d</p>\n  let\n\x7d"

theorem parts_nest_tagsCounted : ∃ scanned, Scan.scan {} tagsCounted = some scanned ∧
    (parse scanned.tokens).program.statements.map Stmt.span = [⟨0, 44, 1, 1⟩] ∧
    ((parse scanned.tokens).program.parts.filterMap TreePart.tag?).map Tag.span =
      [⟨14, 36, 2, 3⟩, ⟨25, 29, 2, 14⟩] ∧
    (parse scanned.tokens).program.placeholders.map Prod.fst = [⟨43, 43, 4, 1⟩] ∧
    (∀ part, (parse scanned.tokens).program.Contains part →
      (∀ outer ∈ part.span?, ∀ child ∈ part.children, ∀ inner ∈ child.span?,
        outer.start ≤ inner.start ∧ inner.stop ≤ outer.stop) ∨
      ∃ loop place, (parse scanned.tokens).program.Contains (.stmt loop) ∧ loop.CountsAt place ∧
        part ∈ loop.clauses) ∧
    (∀ b : Block, (parse scanned.tokens).program.Contains (.block b) →
      b.statements.Pairwise fun s t => s.span.stop ≤ t.span.start) ∧
    ∀ tag : Tag, (parse scanned.tokens).program.Contains (.tag tag) →
      tag.children.Pairwise fun a b => a.span.stop ≤ b.span.start := by
  have hruns : (Scan.scan {} tagsCounted).any (fun scanned =>
      decide ((parse scanned.tokens).program.statements.map Stmt.span = [⟨0, 44, 1, 1⟩] ∧
        ((parse scanned.tokens).program.parts.filterMap TreePart.tag?).map Tag.span =
          [⟨14, 36, 2, 3⟩, ⟨25, 29, 2, 14⟩] ∧
        (parse scanned.tokens).program.placeholders.map Prod.fst = [⟨43, 43, 4, 1⟩])) = true := by
    decide +kernel
  obtain ⟨scanned, hscan, hfacts⟩ := (Option.any_eq_true _ _).1 hruns
  obtain ⟨hstatements, htags, hplaceholders⟩ := of_decide_eq_true hfacts
  exact ⟨scanned, hscan, hstatements, htags, hplaceholders,
    parts_nest {} tagsCounted scanned hscan⟩

/-! ## Places are of the source -/

/-- For every source each span in its program begins and ends in the source, not before it begins,
and has the line and the column of its first unit. The one exception is the placeholder for an
assignment to what cannot be assigned: it is empty and at the token at which the reading ended, but
it has the line and the column of a unit before that or at it. -/
theorem spans_on_source (config : ScanConfig) (source : Source) (scanned : Scan.Scanned)
    (hscan : Scan.scan config source = some scanned) (part : TreePart)
    (hpart : (parse scanned.tokens).program.Contains part) (span : Span) (hspan : part.Keeps span) :
    span.start ≤ span.stop ∧ span.stop ≤ source.length ∧
      ((span.line = source.line span.start ∧ span.column = source.column span.start) ∨
        part = .stmt (.error span Cause.invalidTarget.message) ∧ span.start = span.stop ∧
          ∃ pos ≤ span.start, span.line = source.line pos ∧ span.column = source.column pos) := by
  rcases (everywhere_sited_parse hscan part hpart).kept span hspan with hon | hdeferred
  · exact ⟨hon.start_le, hon.stop_le, .inl hon.placed⟩
  · exact ⟨hdeferred.empty.le, hdeferred.stop_le,
      .inr ⟨hdeferred.placeholder, hdeferred.empty, hdeferred.earlier⟩⟩

/-- An assignment to a number, behind a variable. -/
def numberAssigned : Source := Source.ofString "let x = 1\n1 = 2"

theorem spans_on_source_numberAssigned : ∃ scanned part span,
    Scan.scan {} numberAssigned = some scanned ∧
    (parse scanned.tokens).program.Contains part ∧ part.Keeps span ∧
    part = .stmt (.error ⟨12, 12, 2, 1⟩ "invalid assignment target") ∧ span = ⟨12, 12, 2, 1⟩ ∧
    span.start ≤ span.stop ∧ span.stop ≤ numberAssigned.length ∧
      ((span.line = Source.line numberAssigned span.start ∧
          span.column = Source.column numberAssigned span.start) ∨
        part = .stmt (.error span Cause.invalidTarget.message) ∧ span.start = span.stop ∧
          ∃ pos ≤ span.start, span.line = Source.line numberAssigned pos ∧
            span.column = Source.column numberAssigned pos) := by
  have hruns : (Scan.scan {} numberAssigned).any (fun scanned =>
      decide ((parse scanned.tokens).program.placeholders =
        [(⟨12, 12, 2, 1⟩, "invalid assignment target")])) = true := by
    decide +kernel
  obtain ⟨scanned, hscan, hfacts⟩ := (Option.any_eq_true _ _).1 hruns
  have hpart : (parse scanned.tokens).program.Contains
      (.stmt (.error ⟨12, 12, 2, 1⟩ "invalid assignment target")) :=
    Program.mem_placeholders.1 (of_decide_eq_true hfacts ▸ List.mem_singleton_self _)
  exact ⟨scanned, _, _, hscan, hpart, .inl rfl, rfl, rfl,
    spans_on_source {} numberAssigned scanned hscan _ hpart _ (.inl rfl)⟩

/-- An assignment to a number alone. -/
def bareNumberAssigned : Source := Source.ofString "1 = 2"

/-- The placeholder begins at the third unit and has the column of the first. -/
theorem placeholder_misplaced : ∃ scanned part span,
    Scan.scan {} bareNumberAssigned = some scanned ∧
    (parse scanned.tokens).program.Contains part ∧ part.Keeps span ∧
    part = .stmt (.error span "invalid assignment target") ∧ span = ⟨2, 2, 1, 1⟩ ∧
    ¬ (span.line = Source.line bareNumberAssigned span.start ∧
      span.column = Source.column bareNumberAssigned span.start) := by
  have hruns : (Scan.scan {} bareNumberAssigned).any (fun scanned =>
      decide ((parse scanned.tokens).program.placeholders =
        [(⟨2, 2, 1, 1⟩, "invalid assignment target")])) = true := by
    decide +kernel
  obtain ⟨scanned, hscan, hfacts⟩ := (Option.any_eq_true _ _).1 hruns
  have hpart : (parse scanned.tokens).program.Contains
      (.stmt (.error ⟨2, 2, 1, 1⟩ "invalid assignment target")) :=
    Program.mem_placeholders.1 (of_decide_eq_true hfacts ▸ List.mem_singleton_self _)
  have hcolumn : Source.column bareNumberAssigned 2 = 3 := by decide
  refine ⟨scanned, _, _, hscan, hpart, .inl rfl, rfl, rfl, fun hplaced => ?_⟩
  have hcolumns : 1 = Source.column bareNumberAssigned 2 := hplaced.2
  rw [hcolumn] at hcolumns
  cases hcolumns

/-! ## Problems are in order -/

/-- For every source its parse problems come in the order of their lines and columns. -/
theorem parse_diagnostics_ordered (config : ScanConfig) (source : Source) (scanned : Scan.Scanned)
    (hscan : Scan.scan config source = some scanned) :
    (parse scanned.tokens).diagnostics.Pairwise fun d e => d.place ≤ e.place := by
  obtain ⟨t, haligned, -, hdiagnostics⟩ := exists_placed hscan
  rw [hdiagnostics]
  exact List.pairwise_reverse.2 haligned.reported

/-- Problems in a method, behind it and in a tag, and then one of the component around them. -/
def damagedComponent : Source :=
  Source.ofString "component A \x7b\n  f \x7b 1 = 2; )\n  \x7d\n  <a\n\x7d let"

theorem parse_diagnostics_ordered_damagedComponent : ∃ scanned,
    Scan.scan {} damagedComponent = some scanned ∧
    (parse scanned.tokens).diagnostics.map (fun d => (d.line, d.column)) =
      [(2, 7), (2, 14), (5, 6), (5, 6)] ∧
    (parse scanned.tokens).diagnostics.Pairwise fun d e => d.place ≤ e.place := by
  have hruns : (Scan.scan {} damagedComponent).any (fun scanned =>
      decide ((parse scanned.tokens).diagnostics.map (fun d => (d.line, d.column)) =
        [(2, 7), (2, 14), (5, 6), (5, 6)])) = true := by
    decide +kernel
  obtain ⟨scanned, hscan, hfacts⟩ := (Option.any_eq_true _ _).1 hruns
  exact ⟨scanned, hscan, of_decide_eq_true hfacts,
    parse_diagnostics_ordered {} damagedComponent scanned hscan⟩

end ComponentLang.Grammar
