import ComponentLang.Grammar.Program
import ComponentLang.Proofs.Grammar.Program
import ComponentLang.Proofs.Grammar.Texts.Statement
import ComponentLang.Proofs.Scan.Content

/-!
# Texts and the source

The texts in the tags of a program are the source at their places with every run of blanks made one
space. The scan cuts a text at its blanks, and the tree joins the words with a space wherever there
was something between them, which can only have been blanks. That every part of a program is well
formed comes out of the same reading.
-/
namespace ComponentLang

namespace Scan

/-! ## Runs of blanks -/

/-- Every run of blanks becomes one space. The first blank of a run is made a space, the others are
left out; `within` says that a blank stands in front. -/
def collapseFrom (within : Bool) : List Char → List Char
  | [] => []
  | c :: rest =>
    if isSpacing c then
      if within then collapseFrom true rest else ' ' :: collapseFrom true rest
    else c :: collapseFrom false rest

/-- Every run of blanks becomes one space. -/
def collapse (text : List Char) : List Char := collapseFrom false text

/-- Whether a text ends in a blank, if `within` says so of what stands in front. -/
def endsBlank (within : Bool) (text : List Char) : Bool := (text.getLast?.map isSpacing).getD within

theorem collapseFrom_append (within : Bool) (first second : List Char) :
    collapseFrom within (first ++ second) =
      collapseFrom within first ++ collapseFrom (endsBlank within first) second := by
  induction first generalizing within with
  | nil => rfl
  | cons c rest ih =>
      have hends : endsBlank within (c :: rest) = endsBlank (isSpacing c) rest := by
        simp [endsBlank, List.getLast?_cons]
      rw [hends]
      cases hc : isSpacing c <;> cases within <;> simp [collapseFrom, hc, ih]

theorem collapseFrom_solid (within : Bool) {text : List Char}
    (h : ∀ c ∈ text, isSpacing c = false) : collapseFrom within text = text := by
  induction text generalizing within with
  | nil => rfl
  | cons c rest ih =>
      obtain ⟨hc, hrest⟩ := List.forall_mem_cons.1 h
      simp [collapseFrom, hc, ih false hrest]

theorem collapseFrom_blanks {text : List Char} (h : ∀ c ∈ text, isSpacing c = true) :
    collapseFrom true text = [] := by
  induction text with
  | nil => rfl
  | cons c rest ih =>
      obtain ⟨hc, hrest⟩ := List.forall_mem_cons.1 h
      simp [collapseFrom, hc, ih hrest]

theorem collapse_blanks {text : List Char} (h : ∀ c ∈ text, isSpacing c = true) :
    collapse text = if text = [] then [] else [' '] := by
  cases text with
  | nil => rfl
  | cons c rest =>
      obtain ⟨hc, hrest⟩ := List.forall_mem_cons.1 h
      simp [collapse, collapseFrom, hc, collapseFrom_blanks hrest]

/-- No blank stands at either end of the text, which is not empty. -/
structure Trimmed (text : List Char) : Prop where
  ne_nil : text ≠ []
  head : ∀ c ∈ text.head?, isSpacing c = false
  last : ∀ c ∈ text.getLast?, isSpacing c = false

theorem trimmed_solid {text : List Char} (hne : text ≠ []) (h : ∀ c ∈ text, isSpacing c = false) :
    Trimmed text :=
  ⟨hne, fun c hc => h c (List.mem_of_mem_head? hc), fun c hc => h c (List.mem_of_mem_getLast? hc)⟩

theorem Trimmed.append {first second : List Char} (between : List Char) (h : Trimmed first)
    (h' : Trimmed second) : Trimmed (first ++ between ++ second) where
  ne_nil hnil := h'.ne_nil (List.append_eq_nil_iff.1 hnil).2
  head := by
    rw [List.append_assoc, List.head?_append_of_ne_nil _ h.ne_nil]
    exact h.head
  last := by
    rw [List.getLast?_append_of_ne_nil _ h'.ne_nil]
    exact h'.last

/-- After a text without blanks at its ends the blanks up to the next word are a run of their
own. -/
theorem collapse_append {first between word : List Char} (hfirst : Trimmed first)
    (hbetween : ∀ c ∈ between, isSpacing c = true) (hword : ∀ c ∈ word, isSpacing c = false) :
    collapse (first ++ between ++ word) =
      collapse first ++ (if between = [] then [] else [' ']) ++ word := by
  have hends : endsBlank false first = false := by
    unfold endsBlank
    cases hlast : first.getLast? with
    | none => rfl
    | some c => exact hfirst.last c hlast
  rw [collapse, collapseFrom_append, collapseFrom_append, hends, collapseFrom_solid _ hword]
  exact congrArg (collapse first ++ · ++ word) (collapse_blanks hbetween)

/-- The content is what stands at a place of the source, which has no blank at its ends, with every
run of blanks made one space. -/
structure Collapses (s : Source) (content : String) (span : Span) : Prop where
  start_lt : span.start < span.stop
  stop_le : span.stop ≤ s.length
  chars : ∀ u ∈ s.slice span.start span.stop, ∃ c, u = .char c
  content_eq : content.toList = collapse (Source.chars (s.slice span.start span.stop))
  framed : Trimmed (Source.chars (s.slice span.start span.stop))
  trimmed : Trimmed content.toList

variable {s : Source}

theorem IsWord.toList_lexeme {t : Token} (h : IsWord s t) :
    t.lexeme.toList = Source.chars (s.slice t.span.start t.span.stop) := by
  rw [h.lexeme_eq, Source.text, String.toList_ofList]

theorem IsWord.chars_solid {t : Token} (h : IsWord s t) :
    ∀ c ∈ Source.chars (s.slice t.span.start t.span.stop), isSpacing c = false := by
  intro c hc
  obtain ⟨u, hu, rfl⟩ := List.mem_map.1 hc
  obtain ⟨d, rfl, hd⟩ := h.solid u hu
  exact hd

/-- The content of a word is its place. -/
theorem collapses_word {t : Token} (h : IsWord s t) (hle : t.span.stop ≤ s.length) :
    Collapses s t.lexeme t.span := by
  have hlexeme := h.toList_lexeme
  have hsolid := h.chars_solid
  have hne : Source.chars (s.slice t.span.start t.span.stop) ≠ [] := by
    apply List.ne_nil_of_length_pos
    have hlt := h.start_lt
    simp only [Source.chars, Source.slice, List.length_map, List.length_take, List.length_drop]
    omega
  exact {
    start_lt := h.start_lt
    stop_le := hle
    chars := fun u hu => (h.solid u hu).imp fun _ hc => hc.1
    content_eq := by rw [hlexeme, collapse, collapseFrom_solid _ hsolid]
    framed := trimmed_solid hne hsolid
    trimmed := hlexeme ▸ trimmed_solid hne hsolid }

theorem slice_append {start middle stop : Nat} (hmiddle : start ≤ middle) (hstop : middle ≤ stop) :
    s.slice start stop = s.slice start middle ++ s.slice middle stop := by
  have hwidth : stop - start = (middle - start) + (stop - middle) := by omega
  rw [Source.slice, hwidth, List.take_add, List.drop_drop, Nat.add_sub_cancel' hmiddle]
  rfl

/-- A text goes on with the next word, and the blanks between are one space. -/
theorem Collapses.append {content : String} {span : Span} {t : Token} (h : Collapses s content span)
    (hword : IsWord s t) (hle : t.span.stop ≤ s.length) (hafter : span.stop ≤ t.span.start)
    (hblanks : Blanks (s.slice span.stop t.span.start)) :
    Collapses s (content ++ (if t.span.start = span.stop then "" else " ") ++ t.lexeme)
      (span.through t.span) := by
  have hnext := collapses_word hword hle
  have hstart := h.start_lt
  have hlt := hword.start_lt
  have hthrough : (span.through t.span).stop = t.span.stop := Nat.max_eq_left (by omega)
  have hslice : s.slice span.start t.span.stop = s.slice span.start span.stop ++
      s.slice span.stop t.span.start ++ s.slice t.span.start t.span.stop := by
    rw [← slice_append (by omega) hafter, ← slice_append (by omega) (by omega)]
  have hchars : ∀ u ∈ s.slice span.stop t.span.start, ∃ c, u = .char c ∧ isSpacing c = true := by
    intro u hu
    have hblank := hblanks u hu
    cases u with
    | char c => exact ⟨c, rfl, hblank⟩
    | invalid b => cases hblank
  have hbetween : ∀ c ∈ Source.chars (s.slice span.stop t.span.start), isSpacing c = true := by
    intro c hc
    obtain ⟨u, hu, rfl⟩ := List.mem_map.1 hc
    obtain ⟨d, rfl, hd⟩ := hchars u hu
    exact hd
  have hgap : (if t.span.start = span.stop then "" else " ").toList =
      if Source.chars (s.slice span.stop t.span.start) = [] then [] else [' '] := by
    have hnil : Source.chars (s.slice span.stop t.span.start) = [] ↔ t.span.start = span.stop := by
      rw [← List.length_eq_zero_iff, Source.chars, Source.slice, List.length_map, List.length_take,
        List.length_drop]
      omega
    simp only [hnil]
    split <;> rfl
  constructor
  · rw [hthrough]
    exact lt_of_lt_of_le hstart (by omega)
  · rw [hthrough]
    exact hle
  · rw [hthrough, Span.through_start, hslice]
    simp only [List.forall_mem_append]
    exact ⟨⟨h.chars, fun u hu => (hchars u hu).imp fun _ hc => hc.1⟩, hnext.chars⟩
  · rw [hthrough, Span.through_start, hslice, Source.chars_append, Source.chars_append,
      collapse_append h.framed hbetween hword.chars_solid, ← h.content_eq, ← hgap,
      ← hword.toList_lexeme]
    simp only [String.toList_append]
  · rw [hthrough, Span.through_start, hslice, Source.chars_append, Source.chars_append]
    exact h.framed.append _ hnext.framed
  · simp only [String.toList_append]
    exact h.trimmed.append _ hnext.trimmed

end Scan

namespace Grammar

open Parse ComponentLang.TreePart Scan

/-! ## The tags of a program -/

section Program

variable {tokens : List Token}

abbrev TidyProgram (tokens : List Token) (p : Program) : Prop := Tidy tokens (.program p)

theorem TidyProgram.concat {p : Program} {stmt : Stmt} (h : TidyProgram tokens p)
    (hstmt : TidyStmt tokens stmt) :
    TidyProgram tokens { p with statements := p.statements ++ [stmt] } := by
  obtain ⟨himports, hexports, hfunctions, hcomponents, hstatements⟩ := tidy_program.1 h
  exact tidy_program.2
    ⟨himports, hexports, hfunctions, hcomponents, forall_mem_concat hstatements hstmt⟩

theorem sees_item {p : Program} (h : TidyProgram tokens p) :
    Sees tokens (TidyProgram tokens) (item p) := by
  obtain ⟨himports, hexports, hfunctions, hcomponents, hstatements⟩ := tidy_program.1 h
  unfold item
  apply sees_kind_bind
  intro kind
  split
  · apply sees_bind sees_importDecl
    intro decl hdecl
    exact sees_pure (tidy_program.2
      ⟨forall_mem_concat himports hdecl, hexports, hfunctions, hcomponents, hstatements⟩)
  · apply sees_bind (sees_exportDecl sees_statement)
    intro decl hdecl
    exact sees_pure (tidy_program.2
      ⟨himports, forall_mem_concat hexports hdecl, hfunctions, hcomponents, hstatements⟩)
  · split
    · apply sees_bind (sees_declaration sees_statement)
      intro declared hdeclared
      cases declared with
      | inl function =>
          exact sees_pure (tidy_program.2
            ⟨himports, hexports, forall_mem_concat hfunctions hdeclared, hcomponents, hstatements⟩)
      | inr component =>
          exact sees_pure (tidy_program.2
            ⟨himports, hexports, hfunctions, forall_mem_concat hcomponents hdeclared, hstatements⟩)
    · apply sees_bind sees_statement
      intro stmt hstmt
      exact sees_pure (h.concat hstmt)

theorem sees_recoveringItem {p : Program} (h : TidyProgram tokens p) :
    Sees tokens (TidyProgram tokens) (recoveringItem p) := by
  unfold recoveringItem
  apply sees_attempt_bind (sees_item h)
  · exact fun read hread => sees_pure hread
  · intro problem
    apply sees_bind sees_recover
    intro placeholder hplaceholder
    apply sees_kind_bind
    intro kind
    split
    · exact sees_advance_bind fun _ => sees_pure (h.concat hplaceholder)
    · exact sees_pure (h.concat hplaceholder)

theorem sees_program : Sees tokens (TidyProgram tokens) program := by
  have hempty : TidyProgram tokens .empty := by simp [Program.empty]
  refine sees_iterate (P := TidyProgram tokens) (fun read hread => ?_) hempty
  unfold programStep
  apply sees_get_bind
  intro s
  split
  · exact sees_pure hread
  · apply sees_eat_if
    · exact sees_pure hread
    · apply sees_bind (sees_recoveringItem hread)
      intro read hread
      exact sees_bind sees_ensureProgress fun _ _ => sees_pure hread

end Program

/-- All parts of a program fit the tokens that are read. -/
theorem tidy_parse (tokens : List Token) :
    TidyProgram (State.start tokens).rest (parse tokens).program := by
  obtain ⟨read, hok, -⟩ := (gives_program (n := 0) (s := .start tokens)).exists_ok
  have hread : (parse tokens).program = read := by
    change (program.run (.start tokens)).1.toOption.getD .empty = read
    rw [hok]
    rfl
  rw [hread]
  exact ((sees_program (.start tokens) (List.suffix_refl _)).good_of_ok hok).2

/-- Whatever the tokens are, and however many problems they have, the program that is read from them
is such as the grammar allows. -/
theorem wellFormed_parse (tokens : List Token) : (parse tokens).program.WellFormed := by
  have htidy := tidy_parse tokens
  refine Program.wellFormed_of_parts (fun part hpart => (htidy part hpart).wellFormed) ?_
  rintro a ⟨part, hpart, ha⟩ inner hinner
  exact ((htidy part hpart).written a ha inner hinner).wellFormed

/-! ## Texts of a source -/

/-- Words that are neighbours among the tokens of a source make up what stands at their place. -/
theorem collapses_of_joins {s : Source} {words tokens : List Token} {content : String} {span : Span}
    (hworded : Worded s tokens.reverse)
    (hordered : tokens.Pairwise fun t u => t.span.stop ≤ u.span.start)
    (hle : ∀ t ∈ tokens, t.span.stop ≤ s.length) (hjoins : Joins words content span)
    (hwords : words <:+: tokens) :
    Collapses s content span ∧ ∃ last ∈ words.getLast?, last.kind = .text ∧
      span.stop = last.span.stop := by
  have hword (t : Token) (ht : t ∈ tokens) (htext : t.kind = .text) : IsWord s t :=
    hworded.words t (List.mem_reverse.2 ht) htext
  induction hjoins with
  | @one t htext =>
      have hmem : t ∈ tokens := hwords.subset (List.mem_singleton_self t)
      exact ⟨collapses_word (hword t hmem htext) (hle t hmem), t, rfl, htext, rfl⟩
  | @more words content span t _ htext ih =>
      obtain ⟨hcontent, last, hlast, hkind, hstop⟩ :=
        ih ((List.prefix_append words [t]).isInfix.trans hwords)
      have hmem : t ∈ tokens := hwords.subset (by simp)
      -- The last word so far and this one are neighbours.
      obtain ⟨before, rfl⟩ := List.getLast?_eq_some_iff.1 hlast
      have hpair : [last, t] <:+: tokens :=
        (List.IsSuffix.isInfix ⟨before, by simp⟩).trans hwords
      have hafter : last.span.stop ≤ t.span.start := by
        have hsub := hordered.sublist hpair.sublist
        exact List.rel_of_pairwise_cons hsub (List.mem_singleton_self t)
      have hblanks : Blanks (s.slice last.span.stop t.span.start) := by
        obtain ⟨earlier, later, rfl⟩ := hpair
        have hchain := (List.isChain_reverse.1 hworded.apart).left_of_append.right_of_append
        exact (List.isChain_cons_cons.1 hchain).1 htext hkind
      refine ⟨?_, t, List.getLast?_concat, htext, ?_⟩
      · exact hcontent.append (hword t hmem htext) (hle t hmem) (hstop ▸ hafter) (hstop ▸ hblanks)
      · have hlt := (hword t hmem htext).start_lt
        exact Nat.max_eq_left (by omega)

theorem rest_start_prefix {tokens : List Token} (h : ∀ t ∈ tokens, t.kind.isError = false) :
    (State.start tokens).rest <+: tokens := by
  have hvalid : (tokens.filter fun t => !t.kind.isError) = tokens :=
    List.filter_eq_self.2 fun t ht => by rw [h t ht]; rfl
  show (tokens.filter fun t => !t.kind.isError).takeWhile _ <+: tokens
  rw [hvalid]
  exact List.takeWhile_prefix _

/-- If a source was scanned without an error, no two neighbours among the children of a tag are both
texts, and a text is what stands at its place in the source, with every run of blanks made one space
and no blank at its ends. -/
theorem tag_texts (config : ScanConfig) (s : Source) (scanned : Scanned)
    (hscan : scan config s = some scanned) (hsound : ∀ t ∈ scanned.tokens, t.kind ≠ .error)
    (tag : Tag) (htag : (parse scanned.tokens).program.Contains (.tag tag)) :
    (tag.children.IsChain fun a b => ¬ (a.IsText ∧ b.IsText)) ∧
      ∀ content span, .text content span ∈ tag.children → Collapses s content span := by
  have htextual := (tidy_parse scanned.tokens (.tag tag) htag).textual tag rfl
  refine ⟨htextual.apart, fun content span hmem => ?_⟩
  obtain ⟨words, hjoins, hwords⟩ := htextual.texts content span hmem
  have hprefix := rest_start_prefix (isError_of_scan hscan hsound)
  obtain ⟨hordered, hle⟩ := ordered_of_scan hscan
  exact (collapses_of_joins (worded_of_scan hscan) hordered hle hjoins
    (hwords.trans hprefix.isInfix)).1

/-- A tag with a text that goes over a line, a text that has a mark in it, and an expression between
them. -/
def mixedContent : Source := Source.ofString "<p>a <\t\n b \x7bx\x7dc\x7d  d</p>"

theorem tag_texts_mixedContent :
    ∃ scanned tag, scan {} mixedContent = some scanned ∧
      (∀ t ∈ scanned.tokens, t.kind ≠ .error) ∧
      (parse scanned.tokens).program.Contains (.tag tag) ∧
      tag.children.map Markup.content? = [some "a < b", none, some "c\x7d d"] ∧
      (tag.children.IsChain fun a b => ¬ (a.IsText ∧ b.IsText)) ∧
      ∀ content span, .text content span ∈ tag.children →
        Collapses mixedContent content span := by
  have hrun : (scan {} mixedContent).map (fun scanned =>
      (scanned.tokens.all fun t => t.kind != .error,
        ((parse scanned.tokens).program.parts.filterMap TreePart.tag?).map fun t =>
          t.children.map Markup.content?)) =
      some (true, [[some "a < b", none, some "c\x7d d"]]) := by
    decide +kernel
  obtain ⟨scanned, hscan, hresult⟩ := Option.map_eq_some_iff.1 hrun
  obtain ⟨hsound, htags⟩ := Prod.mk.inj hresult
  obtain ⟨tag, htag, hcontents⟩ := List.map_eq_singleton_iff.1 htags
  have hsound : ∀ t ∈ scanned.tokens, t.kind ≠ .error := by simpa using hsound
  have hmem : tag ∈ (parse scanned.tokens).program.parts.filterMap TreePart.tag? := by
    rw [htag]
    exact List.mem_singleton_self tag
  obtain ⟨part, hpart, heq⟩ := List.mem_filterMap.1 hmem
  have hcontains : (parse scanned.tokens).program.Contains (.tag tag) := by
    rw [Program.contains_iff_mem_parts]
    cases part with
    | tag t =>
        obtain rfl := Option.some.inj heq
        exact hpart
    | _ => cases heq
  obtain ⟨hapart, htexts⟩ := tag_texts {} mixedContent scanned hscan hsound tag hcontains
  exact ⟨scanned, tag, hscan, hsound, hcontains, hcontents, hapart, htexts⟩

end Grammar

end ComponentLang
