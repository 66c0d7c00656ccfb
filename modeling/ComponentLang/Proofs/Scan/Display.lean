import ComponentLang.Proofs.Scan.Forms
import ComponentLang.Proofs.Scan.Insertion
import ComponentLang.Proofs.Scan.Literal
import ComponentLang.Proofs.Source.StartsWith
import ComponentLang.Proofs.Tree.Display

/-!
# The scan of a display

The names in a display are names of a source, so a scan with the same configuration makes the same
words of them. Between them stand marks that end a name, and `<` behind `Array` follows an operand
and opens no tag.
-/
namespace ComponentLang.Scan
open Source (ofString frontIs exists_of_frontIs)

variable {config : ScanConfig} {s more : Source} {st st' : State} {kind : TokenKind}
  {lexeme : String}

/-! ## Names -/

/-- What is known of a type expression by itself if it has been read from a scan: it is well formed,
and a name is a word. -/
structure Legible (config : ScanConfig) (a : TypeExpr) : Prop where
  wellFormed : a.WellFormed
  name : ∀ span name, a = .named span name →
    ∃ kind, (kind = .identifier ∨ kind = .null) ∧ NamedWord config kind name

theorem ofString_append (text text' : String) :
    ofString (text ++ text') = ofString text ++ ofString text' := by
  simp [ofString]

/-- A name has no bad bytes. -/
theorem ofString_text_name (s : Source) :
    ofString (Source.text (s.take (nameWidth s))) = s.take (nameWidth s) := by
  unfold ofString Source.text
  rw [String.toList_ofList]
  induction s with
  | nil => rfl
  | cons u rest ih =>
    cases u with
    | invalid b => rfl
    | char c =>
      rw [nameWidth]
      split
      · rw [List.take_succ_cons, Source.chars_cons, List.map_cons, ih]
        rfl
      · rfl

/-- A name is no longer if what comes next is no part of one. -/
theorem nameWidth_take_append (s : Source) (hmore : nameWidth more = 0) :
    nameWidth (s.take (nameWidth s) ++ more) = nameWidth s := by
  induction s with
  | nil => exact hmore
  | cons u rest ih =>
    cases u with
    | invalid b => exact hmore
    | char c =>
      rw [nameWidth]
      split
      next hname =>
        have hfront : frontIs Char.isAlphanum rest = true →
            frontIs Char.isAlphanum (rest.take (nameWidth rest) ++ more) = true := by
          intro hrest
          obtain ⟨d, tail, rfl, hd⟩ := exists_of_frontIs hrest
          have hword : isWordChar d = true := isWordChar_of_isAlphanum hd
          rw [nameWidth, if_pos (by rw [hword, Bool.true_or])]
          exact hrest
        have hstays : (isWordChar c || c == '-' &&
            frontIs Char.isAlphanum (rest.take (nameWidth rest) ++ more)) = true := by
          rw [Bool.or_eq_true, Bool.and_eq_true] at hname ⊢
          exact hname.imp_right fun h => ⟨h.1, hfront h.2⟩
        rw [List.take_succ_cons, List.cons_append, nameWidth, if_pos hstays, ih]
      next => exact hmore

/-- What follows a name matters for `async` only. -/
theorem wordKind_of_plain (hkind : wordKind config lexeme s = kind)
    (hplain : kind = .identifier ∨ kind = .null) (s' : Source) :
    wordKind config lexeme s' = kind := by
  unfold wordKind at hkind ⊢
  cases hcase : config.keywordCase
  all_goals
    simp only [hcase] at hkind ⊢
    split at hkind
    next hbool => rw [if_pos hbool, hkind]
    next hbool =>
      rw [if_neg hbool]
      split at hkind
      next hnull => rw [if_pos hnull, hkind]
      next hnull =>
        rw [if_neg hnull]
        split at hkind
        next => split at hkind <;> rcases hplain with rfl | rfl <;> cases hkind
        next => rcases hplain with rfl | rfl <;> cases hkind
        next hnone => simpa only [hnone] using hkind

/-! ## Steps that make known tokens -/

/-- `rest` is to come in plain code. -/
structure State.Ready (st : State) (rest : Source) : Prop where
  rest_eq : st.cursor.rest = rest
  top : st.modes.top = .normal
  live : st.halted = false

/-- The scan goes on from `st` to `st'`, makes these tokens, and has `more` to come. -/
structure Emits (config : ScanConfig) (st st' : State) (tokens : List Token) (more : Source) :
    Prop where
  reached : ∀ {s}, Reached config s st → Reached config s st'
  ready : st'.Ready more
  emitted : st'.emitted = tokens.reverse ++ st.emitted

theorem Emits.trans {st'' : State} {tokens tokens' : List Token} {more' : Source}
    (h : Emits config st st' tokens more) (h' : Emits config st' st'' tokens' more') :
    Emits config st st'' (tokens ++ tokens') more' where
  reached hreached := h'.reached (h.reached hreached)
  ready := h'.ready
  emitted := by rw [h'.emitted, h.emitted, List.reverse_append, List.append_assoc]

theorem Emits.afterOperand {tokens : List Token} {last : Token}
    (h : Emits config st st' (tokens ++ [last]) more) :
    st'.afterOperand = last.kind.endsOperand := by
  rw [State.afterOperand, h.emitted, List.reverse_append]
  rfl

variable {u : SourceUnit} {rest : Source} {width : Nat}

theorem State.Ready.unfinished (h : st.Ready (u :: rest)) : st.finished = false := by
  rw [State.finished, h.live, h.rest_eq]
  rfl

theorem emits_token (h : st.Ready (u :: rest))
    (hread : read config .normal st.afterOperand (u :: rest) = .token kind width lexeme)
    (hwidth : (u :: rest).drop width = more) :
    ∃ token st', token.kind = kind ∧ token.lexeme = lexeme ∧
      Emits config st st' [token] more := by
  have hstep : st.step config = st.place config (.token kind width lexeme) :=
    State.step_of_piece (by rw [State.reading, h.top, h.rest_eq, hread]; rfl)
  refine ⟨.ofKind kind lexeme (st.cursor.spanTo (st.cursor.advance width)), st.step config, rfl,
    rfl, fun hreached => hreached.step h.unfinished, ?_, ?_⟩
  · rw [hstep]
    refine ⟨?_, (congrArg ModeStack.top (State.modes_place config st _)).trans h.top, h.live⟩
    rw [State.cursor_place, Cursor.rest_advance, h.rest_eq]
    exact hwidth
  · rw [hstep]
    rfl

theorem emits_blank (h : st.Ready (.char ' ' :: rest)) : ∃ st', Emits config st st' [] rest := by
  have hread : st.reading config = .skip 1 := by
    rw [State.reading, h.top, h.rest_eq]
    rfl
  have hstep : st.step config = st.place config (.skip 1) := State.step_of_piece hread
  refine ⟨st.step config, fun hreached => hreached.step h.unfinished, ?_, by rw [hstep]; rfl⟩
  rw [hstep]
  refine ⟨?_, (congrArg ModeStack.top (State.modes_place config st _)).trans h.top, h.live⟩
  rw [State.cursor_place, Cursor.rest_advance, h.rest_eq]
  rfl

theorem exists_cons_of_namedWord (h : NamedWord config kind lexeme) :
    ∃ c tail, ofString lexeme = .char c :: tail ∧ isNameStart c = true := by
  obtain ⟨s, hfront, rfl, -⟩ := h
  obtain ⟨c, rest, rfl, hc⟩ := exists_of_frontIs hfront
  obtain ⟨width, hwidth⟩ := Nat.exists_eq_succ_of_ne_zero (Nat.ne_of_gt (nameWidth_pos rest hc))
  exact ⟨c, rest.take width, by rw [ofString_text_name, hwidth, List.take_succ_cons], hc⟩

theorem emits_word (hword : NamedWord config kind lexeme)
    (hplain : kind = .identifier ∨ kind = .null) (hmore : nameWidth more = 0)
    (h : st.Ready (ofString lexeme ++ more)) :
    ∃ token st', token.kind = kind ∧ token.lexeme = lexeme ∧
      Emits config st st' [token] more := by
  obtain ⟨c, tail, hcons, hc⟩ := exists_cons_of_namedWord hword
  obtain ⟨s, -, htext, hkind⟩ := hword
  have hname : ofString lexeme = s.take (nameWidth s) := by rw [htext, ofString_text_name]
  have hwidth : nameWidth (ofString lexeme ++ more) = (ofString lexeme).length := by
    rw [hname, nameWidth_take_append s hmore, List.length_take, Nat.min_eq_left (nameWidth_le s)]
  have htake : Source.text (ofString lexeme) = lexeme := by
    rw [Source.text, Source.chars_ofString, String.ofList_toList]
  have hread : read config .normal st.afterOperand (ofString lexeme ++ more) =
      .token kind (ofString lexeme).length lexeme := by
    rw [read_of_name (by rw [hcons]; exact hc) (.inl rfl), readWord, hwidth, List.take_left,
      List.drop_left, htake, wordKind_of_plain hkind.symm hplain]
  have hdrop : (ofString lexeme ++ more).drop (ofString lexeme).length = more := List.drop_left
  rw [hcons, List.cons_append] at h hread hdrop
  exact emits_token h hread hdrop

theorem emits_mark {c : Char} (hread : read config .normal st.afterOperand (.char c :: rest) =
      .verbatim kind 1 (.char c :: rest)) (h : st.Ready (.char c :: rest)) :
    ∃ token st', token.kind = kind ∧ Emits config st st' [token] rest := by
  obtain ⟨token, st', hkind, -, hemits⟩ := emits_token h hread rfl
  exact ⟨token, st', hkind, hemits⟩

/-! ## Type expressions -/

/-- Neither a name nor a mark goes on here. -/
structure Breaks (more : Source) : Prop where
  nameless : nameWidth more = 0
  notEquals : frontIs (· == '=') more = false

theorem breaks_nil : Breaks [] := ⟨rfl, rfl⟩

theorem breaks_cons {c : Char} (hc : c = '>' ∨ c = '?' ∨ c = ' ') (rest : Source) :
    Breaks (.char c :: rest) := by
  rcases hc with rfl | rfl | rfl
  · exact ⟨rfl, rfl⟩
  · exact ⟨rfl, rfl⟩
  · exact ⟨rfl, rfl⟩

theorem read_less (config : ScanConfig) (h : frontIs (· == '=') rest = false) :
    read config .normal true (.char '<' :: rest) = .verbatim .lt 1 (.char '<' :: rest) := by
  simp [read, readCode, readShared?, isSpacing, mark?, longer, h]

theorem read_greater (h : frontIs (· == '=') rest = false) (afterOperand : Bool) :
    read config .normal afterOperand (.char '>' :: rest) = .verbatim .gt 1 (.char '>' :: rest) := by
  simp [read, readCode, readShared?, isSpacing, mark?, longer, h]

theorem read_question (afterOperand : Bool) :
    read config .normal afterOperand (.char '?' :: rest) =
      .verbatim .question 1 (.char '?' :: rest) := rfl

theorem read_bar (afterOperand : Bool) :
    read config .normal afterOperand (.char '|' :: .char ' ' :: rest) =
      .verbatim .pipe 1 (.char '|' :: .char ' ' :: rest) := rfl

theorem namedWord_array (config : ScanConfig) : NamedWord config .identifier "Array" := by
  refine ⟨ofString "Array", rfl, rfl, ?_⟩
  unfold wordKind
  cases config.keywordCase <;> rfl

open TypeExpr

theorem legible_iff {a : TypeExpr} :
    a.Everywhere (Legible config) ↔
      Legible config a ∧ ∀ child ∈ a.children, child.Everywhere (Legible config) :=
  everywhere_iff

theorem members_ne_nil {span : Span} {members : List TypeExpr}
    (h : (TypeExpr.union span members).Everywhere (Legible config)) : members ≠ [] := by
  have hlength : 2 ≤ members.length := (legible_iff.1 h).1.wellFormed
  rintro rfl
  cases hlength

theorem display_union (span : Span) (a : TypeExpr) (rest : List TypeExpr) :
    display (.union span (a :: rest)) = String.intercalate " | " (display a :: displayAll rest) :=
  rfl

/-- A display begins with a name. -/
theorem frontIs_display : ∀ a : TypeExpr, a.Everywhere (Legible config) → ∀ more,
    frontIs isNameStart (ofString a.display ++ more) = true
  | .named span name, h, more => by
    obtain ⟨kind, -, hword⟩ := (legible_iff.1 h).1.name span name rfl
    obtain ⟨c, tail, hcons, hc⟩ := exists_cons_of_namedWord hword
    rw [display, hcons]
    exact hc
  | .array .., _, _ => by
    rw [display, ofString_append, ofString_append]
    rfl
  | .optional _ inner, h, more => by
    rw [display, ofString_append, List.append_assoc]
    exact frontIs_display inner ((legible_iff.1 h).2 inner List.mem_cons_self) _
  | .union _ [], h, _ => absurd rfl (members_ne_nil h)
  | .union span (a :: rest), h, more => by
    have ha := (legible_iff.1 h).2 a List.mem_cons_self
    rw [display_union]
    cases rest with
    | nil =>
      rw [displayAll, String.intercalate_singleton]
      exact frontIs_display a ha more
    | cons b rest =>
      rw [displayAll, String.intercalate_cons_cons, ofString_append, ofString_append,
        List.append_assoc, List.append_assoc]
      exact frontIs_display a ha _

mutual

/-- The scan of a display makes its tokens, up to where it ends. -/
theorem exists_emits_display : ∀ a : TypeExpr, a.Everywhere (Legible config) →
    ∀ {st : State} {more : Source}, Breaks more → st.Ready (ofString a.display ++ more) →
      ∃ r st', Spells [a] r ∧ Emits config st st' r more
  | .named span name, h, st, more, hbreaks, hready => by
    obtain ⟨kind, hplain, hword⟩ := (legible_iff.1 h).1.name span name rfl
    obtain ⟨token, st', rfl, rfl, hemits⟩ := emits_word hword hplain hbreaks.nameless hready
    exact ⟨[token], st', .named hplain, hemits⟩
  | .array span element, h, st, more, hbreaks, hready => by
    have helement := (legible_iff.1 h).2 element List.mem_cons_self
    have hdisplay : ofString (display (.array span element)) ++ more =
        ofString "Array" ++ .char '<' :: (ofString element.display ++ .char '>' :: more) := by
      rw [display, ofString_append, ofString_append, List.append_assoc, List.append_assoc]
      rfl
    have hfront := frontIs_display element helement (.char '>' :: more)
    have hless : frontIs (· == '=') (ofString element.display ++ .char '>' :: more) = false := by
      obtain ⟨c, tail, hcons, hc⟩ := exists_of_frontIs hfront
      rw [hcons]
      refine Bool.eq_false_iff.2 fun hequals => ?_
      have hequals : c = '=' := eq_of_beq hequals
      rw [hequals] at hc
      cases hc
    rw [hdisplay] at hready
    obtain ⟨word, st₁, hword, hname, h₁⟩ :=
      emits_word (namedWord_array config) (.inl rfl) rfl hready
    have hlast : Emits config st st₁ ([] ++ [word]) _ := h₁
    have hoperand : st₁.afterOperand = true := by
      rw [hlast.afterOperand, hword]
      rfl
    have hread := read_less config hless
    rw [← hoperand] at hread
    obtain ⟨opening, st₂, hopening, h₂⟩ := emits_mark hread h₁.ready
    obtain ⟨r, st₃, hspells, h₃⟩ :=
      exists_emits_display element helement (breaks_cons (.inl rfl) more) h₂.ready
    obtain ⟨closing, st₄, hclosing, h₄⟩ :=
      emits_mark (read_greater hbreaks.notEquals _) h₃.ready
    exact ⟨_, st₄, .array hword hname hopening hspells hclosing, h₁.trans (h₂.trans (h₃.trans h₄))⟩
  | .optional _ inner, h, st, more, hbreaks, hready => by
    have hinner := (legible_iff.1 h).2 inner List.mem_cons_self
    rw [display, ofString_append, List.append_assoc] at hready
    obtain ⟨r, st₁, hspells, h₁⟩ :=
      exists_emits_display inner hinner (breaks_cons (.inr (.inl rfl)) more) hready
    obtain ⟨mark, st₂, hmark, h₂⟩ := emits_mark (read_question _) h₁.ready
    exact ⟨_, st₂, .optional hspells hmark, h₁.trans h₂⟩
  | .union _ members, h, st, more, hbreaks, hready => by
    obtain ⟨r, st', hspells, hemits⟩ :=
      exists_emits_displayAll members (members_ne_nil h) (legible_iff.1 h).2 hbreaks hready
    exact ⟨r, st', .union hspells, hemits⟩

theorem exists_emits_displayAll : ∀ as : List TypeExpr, as ≠ [] →
    (∀ a ∈ as, a.Everywhere (Legible config)) →
    ∀ {st : State} {more : Source}, Breaks more →
      st.Ready (ofString (String.intercalate " | " (displayAll as)) ++ more) →
      ∃ r st', Spells as r ∧ Emits config st st' r more
  | [], hne, _, _, _, _, _ => absurd rfl hne
  | [a], _, h, st, more, hbreaks, hready => by
    rw [displayAll, displayAll, String.intercalate_singleton] at hready
    exact exists_emits_display a (h a List.mem_cons_self) hbreaks hready
  | a :: b :: rest, _, h, st, more, hbreaks, hready => by
    obtain ⟨ha, hrest⟩ := List.forall_mem_cons.1 h
    rw [displayAll, displayAll, String.intercalate_cons_cons, ofString_append, ofString_append,
      List.append_assoc, List.append_assoc] at hready
    obtain ⟨r, st₁, hspells, h₁⟩ :=
      exists_emits_display a ha (breaks_cons (.inr (.inr rfl)) _) hready
    obtain ⟨st₂, h₂⟩ := emits_blank h₁.ready
    obtain ⟨bar, st₃, hbar, h₃⟩ := emits_mark (read_bar _) h₂.ready
    obtain ⟨st₄, h₄⟩ := emits_blank h₃.ready
    obtain ⟨r', st₅, hspells', h₅⟩ :=
      exists_emits_displayAll (b :: rest) (List.cons_ne_nil b rest) hrest hbreaks h₄.ready
    exact ⟨_, st₅, .more hspells hbar hspells', h₁.trans (h₂.trans (h₃.trans (h₄.trans h₅)))⟩

end

/-! ## A display by itself -/

/-- What a run comes to from a state that is reached, it comes to from the start. -/
theorem Reached.exists_run_start {final : State} {n : Nat} (h : Reached config s st)
    (hrun : State.run config n st = some final) :
    ∃ m, State.run config m (.start s) = some final := by
  induction h generalizing n with
  | start => exact ⟨n, hrun⟩
  | step _ hfinished ih =>
    refine ih (n := n + 1) ?_
    rw [State.run, hfinished, if_neg Bool.false_ne_true]
    exact hrun

/-- A display is scanned whole, and makes its tokens and no error. -/
theorem scan_display {a : TypeExpr} (h : a.Everywhere (Legible config)) :
    ∃ scanned r eof, scan config (ofString a.display) = some scanned ∧ Spells [a] r ∧
      scanned.tokens = r ++ [eof] ∧ eof.kind = .eof := by
  have hready : (State.start (ofString a.display)).Ready (ofString a.display ++ []) :=
    ⟨(List.append_nil _).symm, rfl, rfl⟩
  obtain ⟨r, last, hspells, hemits⟩ := exists_emits_display a h breaks_nil hready
  have hfinished : last.finished = true := by
    rw [State.finished, hemits.ready.rest_eq]
    exact Bool.or_true _
  obtain ⟨n, hrun⟩ :=
    (hemits.reached .start).exists_run_start (run_of_finished 0 hfinished)
  obtain ⟨final, hfinal, hscan⟩ :=
    (scan_progress config (ofString a.display)).2.2.1.1 ⟨n, last, hrun⟩
  obtain rfl := State.run_unique hrun hfinal
  refine ⟨_, r, .ofKind .eof "" (last.cursor.spanTo last.cursor), hscan, hspells, ?_, rfl⟩
  rw [tokens_ofState, hemits.emitted]
  simp [State.start]

end ComponentLang.Scan
