import ComponentLang.Proofs.Grammar.Abreast
import ComponentLang.Proofs.Grammar.RoundTrip
import ComponentLang.Proofs.Grammar.Texts.Program
import ComponentLang.Proofs.Scan.Display

/-!
# Displays read back

The display of a type expression is scanned and read back as a type expression. A reader of members
comes to the tokens of the display as to a list of members, the last of which may still take a
question mark, and so it gives the members that the display shows. It gives the type expression
itself, but for the places, if that is flat.
-/
namespace ComponentLang.Grammar

open Parse TypeExpr

variable {s t : State} {a last : TypeExpr} {as before members : List TypeExpr} {start : Span}
  {depth : Nat} {inner : Parse TypeExpr} {token : Token} {r r' tokens rest : List Token}

/-! ## Members -/

/-- A member after those before, and then the members that follow bars. -/
def membersAfter (inner : Parse TypeExpr) (before : List TypeExpr) : Parse (List TypeExpr) := do
  iterate (unionMember inner) (before ++ [← suffixedTypeExpr inner])

/-- The rest of a member of which `last` has been read, and then the members that follow bars. -/
def membersFrom (inner : Parse TypeExpr) (before : List TypeExpr) (start : Span)
    (last : TypeExpr) : Parse (List TypeExpr) := do
  iterate (unionMember inner) (before ++ [← iterate (typeExprSuffix start) last])

theorem advances_typeExprSuffix (start : Span) : Advances (typeExprSuffix start) :=
  advances_of_turns (R := State.Drops) fun _ _ => takes_typeExprSuffix

theorem advances_unionMember (depth : Nat) : Advances (unionMember (typeExprAt depth)) := by
  intro members s
  unfold unionMember
  rw [ends_eat_bind]
  split
  next hpipe =>
    have hless := State.length_next_lt (s := s) (by simp [hpipe])
    simp only [if_true, ends_bind]
    refine (sees_suffixedTypeExpr (sees_typeExprAt depth) s.next (List.suffix_refl _)).mono ?_
      fun _ _ _ => trivial
    intro member t ht
    exact Nat.lt_of_le_of_lt ht.1.length_le hless
  next => trivial

/-- Whether a type expression is over before a token of this kind. -/
def endsTypeExpr : TokenKind → Bool
  | .lt | .question | .lbracket | .pipe => false
  | _ => true

theorem typeExprSuffix_of_done (hquestion : s.kind ≠ .question) (hbracket : s.kind ≠ .lbracket) :
    typeExprSuffix start a s = (pure (.done a) : Parse (Turn TypeExpr TypeExpr)) s := by
  unfold typeExprSuffix
  rw [get_bind, if_neg hquestion, if_neg (by simp [hbracket])]

/-- Behind a whole member the members go on with a bar or not at all. -/
theorem membersFrom_of_done (hquestion : s.kind ≠ .question) (hbracket : s.kind ≠ .lbracket) :
    membersFrom inner before start last s = iterate (unionMember inner) (before ++ [last]) s :=
  bind_of_eq_pure (iterate_of_done (advances_typeExprSuffix start)
    (typeExprSuffix_of_done hquestion hbracket)) _

theorem membersFrom_of_question (hkind : s.kind = .question) :
    membersFrom inner before start last s =
      membersFrom inner before start (.optional (s.next.spanFrom start) last) s.next := by
  have hturn : typeExprSuffix start last s =
      (pure (.again (.optional (s.next.spanFrom start) last)) :
        Parse (Turn TypeExpr TypeExpr)) s.next := by
    unfold typeExprSuffix
    rw [get_bind, if_pos hkind]
    rfl
  exact bind_congr_eq (iterate_of_next (advances_typeExprSuffix start) hturn) _

theorem iterate_unionMember_of_pipe (hkind : s.kind = .pipe) :
    iterate (unionMember (typeExprAt depth)) members s =
      membersAfter (typeExprAt depth) members s.next := by
  have hturn : unionMember (typeExprAt depth) members s =
      ((fun member => Turn.again (members ++ [member])) <$> suffixedTypeExpr (typeExprAt depth) :
        Parse (Turn (List TypeExpr) (List TypeExpr))) s.next := by
    unfold unionMember
    rw [eat_bind_of_eq hkind]
    rfl
  rw [iterate_eq (advances_unionMember depth), bind_congr_eq hturn, bind_map_left]
  rfl

theorem iterate_unionMember_of_ne (hkind : s.kind ≠ .pipe) :
    iterate (unionMember (typeExprAt depth)) members s =
      (pure members : Parse (List TypeExpr)) s := by
  refine iterate_of_done (advances_unionMember depth) ?_
  unfold unionMember
  exact eat_bind_of_ne hkind _

/-! ## The rule from its members -/

theorem bind_eq_pure_iff {α β : Type} {p : Parse α} {f : α → Parse β} {b : β} :
    (p >>= f) s = (pure b : Parse β) t ↔
      ∃ a u, p s = (pure a : Parse α) u ∧ f a u = (pure b : Parse β) t :=
  run_bind_ok

/-- There are two members or more behind a bar. -/
theorem two_le_length_of_pipe (hkind : s.kind = .pipe) (hne : before ≠ [])
    (h : iterate (unionMember (typeExprAt depth)) before s =
      (pure members : Parse (List TypeExpr)) t) : 2 ≤ members.length := by
  have hturns : ∀ (before : List TypeExpr) (s : State),
      1 ≤ before.length ∧ (s.kind = .pipe ∨ 2 ≤ before.length) →
      Ends (TurnEnds (fun (before : List TypeExpr) (s : State) =>
          1 ≤ before.length ∧ (s.kind = .pipe ∨ 2 ≤ before.length))
        fun members _ => 2 ≤ members.length) (fun _ _ => True)
        (unionMember (typeExprAt depth) before) s := by
    rintro before s ⟨hpos, hseveral⟩
    unfold unionMember
    rw [ends_eat_bind]
    split
    next =>
      simp only [if_true, ends_bind]
      refine (sees_suffixedTypeExpr (sees_typeExprAt depth) s.next (List.suffix_refl _)).mono ?_
        fun _ _ _ => trivial
      intro member t _
      have hlength : 2 ≤ (before ++ [member]).length := by
        rw [List.length_append, List.length_singleton]
        omega
      exact ⟨Nat.le_of_succ_le hlength, .inr hlength⟩
    next hpipe => exact hseveral.resolve_left hpipe
  have hloop := ends_iterate_of hturns (fun _ _ _ => trivial) before
    ⟨List.length_pos_iff.2 hne, .inl hkind⟩
  have hrun : (iterate (unionMember (typeExprAt depth)) before).run s = (.ok members, t) := h
  unfold Ends at hloop
  rw [hrun] at hloop
  exact hloop

/-- The rule gives the type expression that its members make. -/
theorem comes_typeExprRule (h : membersAfter (typeExprAt depth) [] s =
      (pure members : Parse (List TypeExpr)) t)
    (hmembers : members.map shape = as.map shape) (ht : t.Faces rest) :
    Comes shape (typeExprRule (typeExprAt depth)) s (ofMembers as) rest := by
  have hshape : (ofMembers members).shape = (ofMembers as).shape := by
    rw [shape_ofMembers, hmembers, shape_ofMembers]
  unfold membersAfter at h
  obtain ⟨first, u, hfirst, hloop⟩ := bind_eq_pure_iff.1 h
  rw [List.nil_append] at hloop
  by_cases hpipe : u.kind = .pipe
  · have hlength := two_le_length_of_pipe hpipe (List.cons_ne_nil first []) hloop
    refine ⟨.union (t.spanFrom first.span) members, t, ?_, ?_, ht⟩
    · unfold typeExprRule
      rw [bind_of_eq_pure hfirst, kind_bind, if_pos hpipe]
      exact bind_of_eq_pure hloop _
    · rw [← hshape, ofMembers_of_several hlength, shape_union, shape_union]
  · have hdone : iterate (unionMember (typeExprAt depth)) [first] u = _ :=
      iterate_unionMember_of_ne hpipe
    obtain ⟨hsame, rfl⟩ := Prod.mk.inj (hdone.symm.trans hloop)
    obtain rfl := Except.ok.inj hsame
    refine ⟨first, u, ?_, hshape, ht⟩
    unfold typeExprRule
    rw [bind_of_eq_pure hfirst, kind_bind, if_neg hpipe]

/-! ## Reading the tokens of a display -/

/-- Reading the tokens comes to the members that a display of these shows, the last of which may go
on. -/
def Shows (as : List TypeExpr) (r : List Token) : Prop :=
  ∀ ⦃depth s rest⦄ before, s.Faces (r ++ rest) → s.rest.length ≤ depth → headKind rest ≠ .lt →
    ∃ init last start t, membersAfter (typeExprAt depth) before s =
        membersFrom (typeExprAt depth) (before ++ init) start last t ∧
      (init ++ [last]).map shape = (as.flatMap summands).map shape ∧ t.Faces rest

/-- An atom is the only member so far. -/
theorem shows_atom {b : TypeExpr} (hb : a.summands.map shape = [b.shape])
    (hatom : ∀ {depth s rest}, s.Faces (r ++ rest) → s.rest.length ≤ depth →
      headKind rest ≠ .lt → Comes shape (typeExprAtom (typeExprAt depth)) s b rest) :
    Shows [a] r := by
  intro depth s rest before hs hdepth hrest
  obtain ⟨b', t, hpure, hshape, ht⟩ := hatom hs hdepth hrest
  refine ⟨[], b', s.here, t, ?_, ?_, ht⟩
  · rw [List.append_nil]
    unfold membersAfter membersFrom suffixedTypeExpr
    rw [bind_assoc, here_bind, bind_assoc]
    exact bind_of_eq_pure hpure _
  · rw [List.flatMap_singleton, hb, List.nil_append, List.map_singleton, hshape]

theorem shows_named {span : Span} (hkind : token.kind = .identifier ∨ token.kind = .null) :
    Shows [.named span token.lexeme] [token] := by
  refine shows_atom (b := .named span token.lexeme) rfl ?_
  intro depth s rest hs _ hrest
  have hnamed : ∀ place, (TypeExpr.named place token.lexeme).shape =
      (TypeExpr.named span token.lexeme).shape := fun _ => rfl
  have hlt : s.next.kind ≠ .lt := by rwa [hs.next.kind_eq]
  unfold typeExprAtom
  apply Comes.of_eq _ (peek_bind _)
  rw [hs.peek_eq]
  rcases hkind with hkind | hkind
  all_goals
    simp only [hkind]
    apply Comes.of_eq _ (advance_bind _)
    split
    · apply Comes.of_eq _ (eat_bind_of_ne hlt _)
      exact comes_pure (hnamed _) hs.next
    · exact comes_pure (hnamed _) hs.next

/-- What is read as members is read as a type expression. -/
theorem Shows.comes (h : Shows [a] r) (hs : s.Faces (r ++ rest)) (hdepth : s.rest.length < depth)
    (hrest : endsTypeExpr (headKind rest) = true) :
    Comes shape (typeExprAt depth) s a.regrouped rest := by
  obtain ⟨depth, rfl⟩ : ∃ d, depth = d + 1 := ⟨depth - 1, by omega⟩
  have hne : ∀ kind, endsTypeExpr kind = false → headKind rest ≠ kind := by
    rintro kind hkind rfl
    rw [hrest] at hkind
    cases hkind
  obtain ⟨init, last, start, t, hmembers, hshape, ht⟩ :=
    h [] hs (Nat.le_of_lt_succ hdepth) (hne _ rfl)
  rw [List.flatMap_singleton] at hshape
  refine comes_typeExprRule (hmembers.trans ?_) hshape ht
  rw [membersFrom_of_done (by rw [ht.kind_eq]; exact hne _ rfl)
    (by rw [ht.kind_eq]; exact hne _ rfl)]
  exact iterate_unionMember_of_ne (by rw [ht.kind_eq]; exact hne _ rfl)

theorem shows_array {span : Span} {word opening closing : Token}
    (hword : word.kind = .identifier) (hname : word.lexeme = "Array")
    (hopen : opening.kind = .lt) (h : Shows [a] r) (hclose : closing.kind = .gt) :
    Shows [.array span a] (word :: opening :: (r ++ [closing])) := by
  refine shows_atom (b := .array span a.regrouped) rfl ?_
  intro depth s rest hs hdepth _
  simp only [List.cons_append, List.append_assoc, List.nil_append] at hs
  have hlt : s.next.kind = .lt := hs.next.kind_eq.trans hopen
  have hlength : s.next.next.rest.length < depth := by
    rw [hs.rest, List.length_cons, List.length_cons] at hdepth
    rw [hs.next.next.rest]
    omega
  unfold typeExprAtom
  apply Comes.of_eq _ (peek_bind _)
  rw [hs.peek_eq]
  simp only [hword, hname, beq_self_eq_true, if_true]
  apply Comes.of_eq _ (advance_bind _)
  apply Comes.of_eq _ (eat_bind_of_eq hlt _)
  apply comes_bind (h.comes hs.next.next hlength (by rw [headKind, hclose]; rfl))
  intro element t helement ht
  apply comes_expect_bind ht hclose
  intro u hu
  apply comes_spanFrom_bind
  intro place
  exact comes_pure (by rw [shape_array, shape_array, helement]) hu

/-- A question mark goes to the last member. -/
theorem shows_optional {span : Span} {mark : Token} (h : Shows [a] r)
    (hmark : mark.kind = .question) : Shows [.optional span a] (r ++ [mark]) := by
  intro depth s rest before hs hdepth _
  rw [List.append_assoc] at hs
  obtain ⟨init, last, start, t, hmembers, hshape, ht⟩ :=
    h before hs hdepth (by rw [List.singleton_append, headKind, hmark]; decide)
  have hkind : t.kind = .question := ht.kind_eq.trans hmark
  refine ⟨init, .optional (t.next.spanFrom start) last, start, t.next,
    hmembers.trans (membersFrom_of_question hkind), ?_, ht.next⟩
  rw [List.flatMap_singleton, List.map_append] at hshape
  obtain ⟨init', last', hsummands, hinit, hlast⟩ := List.map_eq_append_iff.1 hshape.symm
  obtain ⟨only, rfl, honly⟩ := List.map_eq_singleton_iff.1 hlast
  rw [List.flatMap_singleton, summands, hsummands, List.modifyLast_concat, List.map_append,
    List.map_append, hinit, List.map_singleton, List.map_singleton, shape_optional,
    shape_optional, honly]

/-- Behind a bar there is another member. -/
theorem shows_more {b : TypeExpr} {bar : Token} (h : Shows [a] r) (hbar : bar.kind = .pipe)
    (hmore : Shows (b :: as) r') : Shows (a :: b :: as) (r ++ bar :: r') := by
  intro depth s rest before hs hdepth hrest
  rw [List.append_assoc, List.cons_append] at hs
  obtain ⟨init, last, start, t, hmembers, hshape, ht⟩ :=
    h before hs hdepth (by rw [headKind, hbar]; decide)
  have hkind : t.kind = .pipe := ht.kind_eq.trans hbar
  have hlength : t.next.rest.length ≤ depth := by
    rw [hs.rest, List.length_append, List.length_cons] at hdepth
    rw [ht.next.rest]
    omega
  obtain ⟨init', last', start', u, hmembers', hshape', hu⟩ :=
    hmore (before ++ init ++ [last]) ht.next hlength hrest
  refine ⟨init ++ [last] ++ init', last', start', u, ?_, ?_, hu⟩
  · rw [hmembers, membersFrom_of_done (by simp [hkind]) (by simp [hkind]),
      iterate_unionMember_of_pipe hkind, hmembers', List.append_assoc before, List.append_assoc]
  · rw [List.append_assoc, List.map_append, hshape, hshape', ← List.map_append,
      ← List.flatMap_append]
    rfl

theorem shows_of_spells (h : Spells as r) : Shows as r := by
  induction h with
  | named hkind => exact shows_named hkind
  | array hword hname hopen _ hclose ih => exact shows_array hword hname hopen ih hclose
  | optional _ hmark ih => exact shows_optional ih hmark
  | union _ ih =>
    intro depth s rest before hs hdepth hrest
    rw [List.flatMap_singleton, summands_union]
    exact ih before hs hdepth hrest
  | more _ hbar _ ih ihmore => exact shows_more ih hbar ihmore

theorem isError_of_spells (h : Spells as r) : ∀ t ∈ r, t.kind.isError = false ∧ t.kind ≠ .eof := by
  induction h with
  | named hkind =>
    rw [List.forall_mem_singleton]
    rcases hkind with hkind | hkind <;> rw [hkind] <;> decide
  | array hword _ hopen _ hclose ih =>
    rw [List.forall_mem_cons, List.forall_mem_cons, List.forall_mem_append,
      List.forall_mem_singleton, hword, hopen, hclose]
    exact ⟨by decide, by decide, ih, by decide⟩
  | optional _ hmark ih =>
    rw [List.forall_mem_append, List.forall_mem_singleton, hmark]
    exact ⟨ih, by decide⟩
  | union _ ih => exact ih
  | more _ hbar _ ih ihmore =>
    rw [List.forall_mem_append, List.forall_mem_cons, hbar]
    exact ⟨ih, by decide, ihmore⟩

/-- The tokens of a display, at the end of a list, are read whole. -/
theorem typeExpr_of_spells {eof : Token} (h : Spells [a] r) (heof : eof.kind = .eof) :
    ∃ b t, typeExpr.run (.start (r ++ [eof])) = (.ok b, t) ∧ t.rest = [] ∧
      b.shape = a.regrouped.shape := by
  have hkinds := isError_of_spells h
  have hrest : (State.start (r ++ [eof])).rest = r := by
    have hsound : ∀ t ∈ r ++ [eof], (!t.kind.isError) = true := by
      rw [List.forall_mem_append, List.forall_mem_singleton, heof]
      exact ⟨fun t ht => by rw [(hkinds t ht).1]; rfl, rfl⟩
    show ((r ++ [eof]).filter fun t => !t.kind.isError).takeWhile (fun t => t.kind != .eof) = r
    rw [List.filter_eq_self.2 hsound,
      List.takeWhile_append_of_pos fun t ht => bne_iff_ne.2 (hkinds t ht).2,
      List.takeWhile_cons_of_neg (by simp [heof]), List.append_nil]
  have hfaces : (State.start (r ++ [eof])).Faces (r ++ []) :=
    ⟨hrest.trans (List.append_nil r).symm, rfl⟩
  obtain ⟨b, t, hread, hshape, ht⟩ :=
    (shows_of_spells h).comes hfaces (Nat.lt_succ_self _) rfl
  exact ⟨b, t, hread, ht.rest, hshape⟩

/-! ## Displays of a program -/

theorem legible_of_annotates {config : ScanConfig} {source : Source} {scanned : Scan.Scanned}
    (hscan : Scan.scan config source = some scanned) {whole a : TypeExpr}
    (hwhole : (parse scanned.tokens).program.Annotates whole) (ha : a.Within whole) :
    a.Everywhere (Scan.Legible config) := by
  obtain ⟨part, hpart, hmem⟩ := hwhole
  have hwritten := (tidy_parse scanned.tokens part hpart).written whole hmem
  intro b hb
  have hdrawn := hwritten b (ha.trans hb)
  refine ⟨hdrawn.wellFormed, fun span name hname => ?_⟩
  obtain ⟨t, ht, hkind, rfl⟩ := hdrawn.word span name hname
  have hmem : t ∈ scanned.tokens := List.mem_of_mem_filter ((List.takeWhile_prefix _).subset ht)
  refine ⟨t.kind, hkind, Scan.namedWord_of_scan hscan hmem ?_ ?_⟩
  · rcases hkind with hkind | hkind <;> rw [hkind] <;> rfl
  · rcases hkind with hkind | hkind <;> rw [hkind] <;> rfl

/-- The display of a type expression in a program is scanned without an error, and read back as one
type expression with nothing left. What is read has the members that the display shows, and is the
type expression itself, but for the places, exactly if that is flat. -/
theorem display_reread (config : ScanConfig) (source : Source) {scanned : Scan.Scanned}
    (hscan : Scan.scan config source = some scanned) {whole a : TypeExpr}
    (hwhole : (parse scanned.tokens).program.Annotates whole) (ha : a.Within whole) :
    ∃ shown b t, Scan.scan config (.ofString a.display) = some shown ∧
      (∀ token ∈ shown.tokens, token.kind.isError = false) ∧
      typeExpr.run (.start shown.tokens) = (.ok b, t) ∧ t.rest = [] ∧
      b.shape = a.regrouped.shape ∧ (b.shape = a.shape ↔ a.isFlat = true) := by
  have hlegible := legible_of_annotates hscan hwhole ha
  obtain ⟨shown, r, eof, hshown, hspells, htokens, heof⟩ := Scan.scan_display hlegible
  obtain ⟨b, t, hread, hrest, hshape⟩ := typeExpr_of_spells hspells heof
  have hsound : ∀ token ∈ shown.tokens, token.kind.isError = false := by
    rw [htokens, List.forall_mem_append, List.forall_mem_singleton, heof]
    exact ⟨fun token htoken => (isError_of_spells hspells token htoken).1, rfl⟩
  refine ⟨shown, b, t, hshown, hsound, by rw [htokens]; exact hread, hrest, hshape, ?_⟩
  rw [hshape]
  exact shape_regrouped_eq_iff fun inner hinner => (hlegible inner hinner).wellFormed

theorem annotates_of_mem {p : Program} {a : TypeExpr}
    (h : a ∈ p.parts.flatMap TreePart.annotations) : p.Annotates a := by
  obtain ⟨part, hpart, ha⟩ := List.mem_flatMap.1 h
  exact ⟨part, Program.contains_iff_mem_parts.2 hpart, ha⟩

/-- A list of numbers and optional texts. -/
def mixedList : Source := .ofString "let x: (Int | String?)[] = []"

/-- The brackets are shown as those of `Array`. -/
theorem display_reread_mixedList :
    ∃ scanned whole, Scan.scan {} mixedList = some scanned ∧
      (parse scanned.tokens).program.Annotates whole ∧ whole.Within whole ∧
      whole.display = "Array<Int | String?>" ∧
      ∃ shown b t, Scan.scan {} (.ofString whole.display) = some shown ∧
        (∀ token ∈ shown.tokens, token.kind.isError = false) ∧
        typeExpr.run (.start shown.tokens) = (.ok b, t) ∧ t.rest = [] ∧
        b.shape = whole.shape := by
  have hrun : (Scan.scan {} mixedList).map (fun scanned =>
      ((parse scanned.tokens).program.parts.flatMap TreePart.annotations).map fun a =>
        (a.display, a.isFlat)) = some [("Array<Int | String?>", true)] := by
    decide +kernel
  obtain ⟨scanned, hscan, hannotations⟩ := Option.map_eq_some_iff.1 hrun
  obtain ⟨whole, honly, hwhole⟩ := List.map_eq_singleton_iff.1 hannotations
  obtain ⟨hdisplay, hflat⟩ := Prod.mk.inj hwhole
  have hannotates : (parse scanned.tokens).program.Annotates whole :=
    annotates_of_mem (honly ▸ List.mem_singleton_self whole)
  obtain ⟨shown, b, t, hshown, hsound, hread, hrest, -, hiff⟩ :=
    display_reread {} mixedList hscan hannotates .refl
  exact ⟨scanned, whole, hscan, hannotates, .refl, hdisplay, shown, b, t, hshown, hsound, hread,
    hrest, hiff.2 hflat⟩

/-- An optional number or text. -/
def optionalChoice : Source := .ofString "let x: (Int | String)? = null"

/-- The display is that of a number or an optional text, and is read back as such. -/
theorem display_not_reread_optionalChoice :
    ∃ scanned whole, Scan.scan {} optionalChoice = some scanned ∧
      (parse scanned.tokens).program.Annotates whole ∧
      ¬ ∃ shown b t, Scan.scan {} (.ofString whole.display) = some shown ∧
        typeExpr.run (.start shown.tokens) = (.ok b, t) ∧ t.rest = [] ∧
        b.shape = whole.shape := by
  have hrun : (Scan.scan {} optionalChoice).map (fun scanned =>
      ((parse scanned.tokens).program.parts.flatMap TreePart.annotations).map fun a =>
        (a.display, a.isFlat)) = some [("Int | String?", false)] := by
    decide +kernel
  have hreread : (Scan.scan {} (.ofString "Int | String?")).map (fun shown =>
      (typeExpr.run (.start shown.tokens)).1.toOption.map isFlat) = some (some true) := by
    decide +kernel
  obtain ⟨scanned, hscan, hannotations⟩ := Option.map_eq_some_iff.1 hrun
  obtain ⟨whole, honly, hwhole⟩ := List.map_eq_singleton_iff.1 hannotations
  obtain ⟨hdisplay, hgrouped⟩ := Prod.mk.inj hwhole
  refine ⟨scanned, whole, hscan,
    annotates_of_mem (honly ▸ List.mem_singleton_self whole), ?_⟩
  rintro ⟨shown, b, t, hshown, hread, -, hshape⟩
  rw [hdisplay] at hshown
  rw [hshown, Option.map_some, hread] at hreread
  have hflat : b.isFlat = true := Option.some.inj (Option.some.inj hreread)
  rw [← isFlat_shape, hshape, isFlat_shape, hgrouped] at hflat
  exact Bool.false_ne_true hflat

end ComponentLang.Grammar
