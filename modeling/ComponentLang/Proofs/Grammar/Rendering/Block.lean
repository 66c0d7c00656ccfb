import ComponentLang.Proofs.Grammar.Abreast.Block
import ComponentLang.Proofs.Grammar.Rendering.Simple

/-!
# Blocks and bodies, read elsewhere

A body may be in square brackets elsewhere, if it is in braces here. Its statements are the same:
none of them begins with a bracket that closes, so each turn of the second loop takes what the turn
of the first does, whichever bracket it is that the loop ends before.
-/
namespace ComponentLang.Grammar

open Parse
open Renderable (reread tame whole)

variable {all : List Token} {s : State} {B : List Span} {F : Follow} {G : Front}

/-! ## Problems that are reported -/

/-- The reader has reported a problem when it ends. -/
def Parse.Reports {α : Type} (p : Parse α) (s : State) : Prop :=
  Ends (fun _ u => s.Proceeds u ∧ u.diagnostics ≠ []) (fun _ u => s.Proceeds u) p s

theorem reports_recover {problem : Problem} : Reports (recover problem) s := by
  have hreport : s.Proceeds (s.report problem) ∧ (s.report problem).diagnostics ≠ [] :=
    ⟨⟨List.suffix_refl _, .inl rfl, rfl, fun h => nomatch h⟩, List.cons_ne_nil _ _⟩
  have hsynchronize : Ends (fun _ u => s.Proceeds u ∧ u.diagnostics ≠ []) (fun _ _ => False)
      synchronize (s.report problem) :=
    gives_synchronize_of (I := fun u => s.Proceeds u ∧ u.diagnostics ≠ []) hreport fun u hu =>
      ⟨hu.1.trans u.proceeds_next, u.diagnostics_next ▸ hu.2⟩
  unfold Reports recover
  rw [ends_here_bind, ends_modify_bind, ends_bind]
  exact hsynchronize.mono (fun _ _ hu => hu) fun _ _ h => h.elim

theorem Parse.Reports.spoils_bind {α γ : Type} [Renderable γ] {p : Parse α} {f : α → Parse γ}
    (hp : Reports p s)
    (hf : ∀ a u, Ends (fun c v => u.Proceeds v ∧ tame all c) (fun _ v => u.Proceeds v) (f a) u) :
    Spoils all (p >>= f) s := by
  intro _
  rw [ends_bind]
  refine hp.mono (fun a u hu => ?_) fun _ _ hbad => hbad
  refine (hf a u).mono (fun c v hv => ?_) fun _ _ hbad => hu.1.trans hbad
  exact ⟨hu.1.trans hv.1, hv.2, fun hsilent => absurd (hv.1.silent hsilent) hu.2⟩

theorem Parse.Spoils.of_eq {α : Type} [Renderable α] {p p' : Parse α} (h : Spoils all p' s)
    (hp : p s = p' s) : Spoils all p s := by
  intro hfits
  have hends := h hfits
  have hrun : p.run s = p'.run s := hp
  unfold Ends at hends ⊢
  rwa [hrun]

theorem Parse.Reports.spoils {α : Type} [Renderable α] {p : Parse α} (hp : Reports p s)
    (htame : ∀ a : α, tame all a) : Spoils all p s := fun _ =>
  hp.mono (fun a _ hu => ⟨hu.1, htame a, fun hsilent => absurd hsilent hu.2⟩) fun _ _ hbad => hbad

/-! ## Statements of a list -/

/-- The reader of statements gives elsewhere what it gives here, and no statement begins with a
bracket that closes a block. -/
structure Restating (all : List Token) (statement : Parse Stmt) : Prop where
  renders {s : State} {B : List Span} {G : Front} (hs : s.previous ≠ none) :
    RendersFinal all stmtBodies B .unopened G statement (fun _ => statement) s
  shut {s : State} (hkind : s.kind = .rbrace ∨ s.kind = .rbracket) (a : Stmt) (u : State) :
    statement.run s ≠ (.ok a, u)

section Statement

variable {statement : Parse Stmt} (h : Restating all statement)

include h

theorem renders_recovering (hs : s.previous ≠ none) :
    RendersFinal all stmtBodies B .unopened G (recovering statement)
      (fun _ => recovering statement) s := by
  unfold recovering
  apply renders_attempt_bind (h.renders hs)
  · exact fun _ _ _ _ _ _ _ => trivial
  · intro stmt s' _ _
    exact renders_pure (fun _ hbody => List.mem_append_left B hbody) fun _ => trivial
  · exact fun e s' _ => reports_recover.spoils fun _ => trivial

theorem reports_recovering (hfits : s.Fits all) (hs : s.previous ≠ none)
    (hkind : s.kind = .rbrace ∨ s.kind = .rbracket) : Reports (recovering statement) s := by
  have hfails : Ends (fun _ _ => False) (fun _ u => s.Proceeds u) statement s := by
    have hends := h.renders (B := []) (G := .any) hs hfits
    unfold Ends at hends ⊢
    cases hrun : statement.run s with
    | mk result u =>
      rw [hrun] at hends
      cases result with
      | error e => exact hends
      | ok a => exact h.shut hkind a u hrun
  unfold recovering
  apply ends_attempt_bind hfails
  · exact fun _ _ hnever => hnever.elim
  · intro e u hu
    exact reports_recover.mono (fun _ _ hv => ⟨hu.trans hv.1, hv.2⟩) fun _ _ hv => hu.trans hv

end Statement

theorem proceeds_count (before : Nat) (s : State) : s.Proceeds (s.count before) :=
  ⟨List.suffix_refl _, .inl rfl, rfl, id⟩

theorem run_ensureProgress (before : Nat) (s : State) :
    ∃ u, (ensureProgress before).run s = (.ok (), u) ∧ s.Proceeds u := by
  have hcount := proceeds_count before s
  have hrun : (ensureProgress before).run s = _ := ensureProgress_apply before s
  rw [hrun]
  split
  · exact ⟨_, rfl, List.nil_suffix, .inl rfl, rfl, fun h => nomatch h⟩
  · split
    · exact ⟨_, rfl, hcount.trans (State.proceeds_next _)⟩
    · exact ⟨_, rfl, hcount⟩

theorem Rendering.Sees.counted {w : Rendering all} {ahead : List (Taken all)} {t : State}
    (h : w.Sees ahead s t) (before : Nat) :
    w.Sees ahead (s.count before) (t.count before) :=
  { h with iterations := congrArg (· + 1) h.iterations }

/-- A turn of a list of statements is counted alike. -/
theorem renders_ensureProgress (before : Nat) :
    Restates all B .any .clear (ensureProgress before) s := by
  intro _
  obtain ⟨u, hrun, hproceeds⟩ := run_ensureProgress before s
  unfold Ends
  rw [hrun]
  refine ⟨hproceeds, trivial, fun hsilent _ => ?_⟩
  have hwithin : s.rest ≠ [] → s.iterations < s.iterationLimit :=
    within_of_silent (by rw [hrun]; exact hsilent)
  obtain rfl : u = s.turned before := by
    have hrun' : (ensureProgress before).run s = (.ok (), s.turned before) :=
      ensureProgress_of_within hwithin
    rw [hrun] at hrun'
    exact congrArg Prod.snd hrun'
  have hcounts : ∀ (w : Rendering all) (ahead : List (Taken all)) (t : State), w.Final →
      w.Sees ahead s t → (ensureProgress before).run t = (.ok (), t.turned before) := by
    intro w ahead t hw hsees
    refine ensureProgress_of_within fun hrest => ?_
    rw [hsees.iterations]
    refine Nat.lt_of_lt_of_le (hwithin fun hnil => hrest ?_) hsees.limit
    have hlength := hsees.length_eq hw
    rw [hnil] at hlength
    exact List.eq_nil_of_length_eq_zero hlength
  by_cases hstays : (s.rest.length = before && !s.atEnd : Bool) = true
  · -- The turn has taken nothing, so that it drops a token in both.
    obtain ⟨first, rest, hrest⟩ : ∃ first rest, s.rest = first :: rest :=
      List.exists_cons_of_ne_nil fun hnil => by simp [State.atEnd, hnil] at hstays
    have hturned : s.turned before = (s.count before).next := if_pos hstays
    have hnext : (s.count before).next.rest = rest := by
      rw [State.next_eq (s := s.count before) hrest]
    rw [hturned]
    refine ⟨[.plain first], .inr (solid_cons _ _), List.forall_mem_nil _, ?_, ?_⟩
    · rw [hrest, hnext]
      rfl
    · intro w hw ahead t _ _ hsees
      refine ⟨t.turned before, hcounts w _ t hw hsees, ?_⟩
      have hturned' : t.turned before = (t.count before).next :=
        if_pos (by rw [hsees.length_eq hw, hsees.atEnd_eq hw]; exact hstays)
      rw [hturned']
      exact (hsees.counted before).next
  · have hturned : s.turned before = s.count before := if_neg hstays
    rw [hturned]
    refine ⟨[], .inl rfl, List.forall_mem_nil _, rfl, ?_⟩
    intro w hw ahead t _ _ hsees
    refine ⟨t.turned before, hcounts w _ t hw hsees, ?_⟩
    have hturned' : t.turned before = t.count before :=
      if_neg (by rw [hsees.length_eq hw, hsees.atEnd_eq hw]; exact hstays)
    rw [hturned']
    exact hsees.counted before

/-! ## Blocks -/

theorem Bracket.opening_cases (bracket : Bracket) :
    bracket.opening = .lbrace ∨ bracket.opening = .lbracket := by
  cases bracket
  · exact .inl rfl
  · exact .inr rfl

theorem Bracket.closing_cases (bracket : Bracket) :
    bracket.closing = .rbrace ∨ bracket.closing = .rbracket := by
  cases bracket
  · exact .inl rfl
  · exact .inr rfl

/-- A reader ends in one way, of which all may be true that is true of it. -/
theorem ends_forall {α ι : Type} {good : α → State → Prop} {all : ι → α → State → Prop}
    {bad : Problem → State → Prop} {p : Parse α} (h : Ends good bad p s)
    (hall : ∀ i, Ends (all i) bad p s) :
    Ends (fun a u => good a u ∧ ∀ i, all i a u) bad p s := by
  unfold Ends at h hall ⊢
  revert h hall
  rcases p.run s with ⟨_ | _, _⟩
  · exact fun hbad _ => hbad
  · exact fun hgood hall => ⟨hgood, hall⟩

/-- The places of the bodies in a list of statements. -/
abbrev stmtsBodies (stmts : List Stmt) : List Span := stmts.flatMap stmtBodies

theorem mem_stmtsBodies_concat {stmts : List Stmt} {stmt : Stmt} {place : Span}
    (h : place ∈ stmtsBodies (stmts ++ [stmt])) : place ∈ stmtBodies stmt ++ stmtsBodies stmts := by
  rw [stmtsBodies, List.flatMap_append, List.flatMap_singleton, List.mem_append] at h
  exact List.mem_append.2 h.symm

/-- A token that closes a block, whether it is that of a body or another. -/
structure Taken.Closes (closer : Taken all) (close : TokenKind) : Prop where
  kind : closer.token.kind = close
  bracket : close = .rbrace ∨ close = .rbracket
  not_opens : ∀ token body kind place, closer ≠ .opens token body kind place

theorem Taken.closes_plain {token : Token} {close : TokenKind} (hkind : token.kind = close)
    (hbracket : close = .rbrace ∨ close = .rbracket) :
    (Taken.plain token : Taken all).Closes close :=
  ⟨hkind, hbracket, fun _ _ _ _ h => nomatch h⟩

theorem Taken.Closes.unopened {closer : Taken all} {close : TokenKind} (h : closer.Closes close)
    (rest : List (Taken all)) : Follow.unopened.Holds (closer :: rest) := by
  rintro token body kind place _ ⟨⟩
  exact h.not_opens token body kind place rfl

/-- Elsewhere it closes a block too. -/
theorem Taken.Closes.bracket_token {closer : Taken all} {close : TokenKind}
    (h : closer.Closes close) (w : Rendering all) :
    (w.token closer).kind = .rbrace ∨ (w.token closer).kind = .rbracket := by
  rcases w.kind_token closer with hsame | ⟨_, _, _, _, hopens, _⟩ | ⟨_, _, _, _, _, _, _, hkind⟩
  · rw [hsame, h.kind]
    exact h.bracket
  · exact absurd hopens (h.not_opens _ _ _ _)
  · exact .inr hkind

/-- The brackets of a body: wherever they stand they are a pair of brackets. -/
theorem Taken.exists_brackets {bracket : Bracket} {first last : Token} {body : Span}
    (hfirst : first.kind = bracket.opening) (hlast : last.kind = bracket.closing)
    (hsublist : [first, last].Sublist all) (hbody : body = first.span.through last.span) :
    ∃ opener closer : Taken all, opener.token = first ∧ closer.token = last ∧
      closer.Closes bracket.closing ∧
      (∀ inner, Taken.Marks body (opener :: (inner ++ [closer]))) ∧
      ∀ w : Rendering all, ∃ bracket' : Bracket, (w.token opener).kind = bracket'.opening ∧
        (w.token closer).kind = bracket'.closing := by
  have hopens : first.kind = .lbrace ∨ first.kind = .lbracket :=
    hfirst ▸ bracket.opening_cases
  have hcloses : last.kind = .rbrace ∨ last.kind = .rbracket := hlast ▸ bracket.closing_cases
  have hplace : body.start = first.span.start := by
    rw [hbody]
    rfl
  refine ⟨.opens first body hopens hplace, .closes last body hcloses ⟨first, hsublist, hbody⟩,
    rfl, rfl, ⟨hlast, bracket.closing_cases, fun _ _ _ _ h => nomatch h⟩, fun inner => ?_,
    fun w => ?_⟩
  · refine ⟨first, last, hopens, hcloses, hplace, ⟨first, hsublist, hbody⟩,
      (List.sublist_append_right inner _).cons_cons _, hbody, ?_⟩
    rw [hfirst, hlast]
    cases bracket <;> decide
  · simp only [Rendering.token]
    by_cases hsquare : w.square body = true ∧ bracket = .brace
    · obtain ⟨hsquare, rfl⟩ := hsquare
      have hopener : w.square body = true ∧ first.kind = .lbrace := ⟨hsquare, hfirst⟩
      have hcloser : w.square body = true ∧ last.kind = .rbrace := ⟨hsquare, hlast⟩
      rw [if_pos hopener, if_pos hcloser]
      exact ⟨.square, rfl, rfl⟩
    · have hopener : ¬ (w.square body = true ∧ first.kind = .lbrace) := fun h =>
        hsquare ⟨h.1, by cases bracket <;> simp_all [Bracket.opening]⟩
      have hcloser : ¬ (w.square body = true ∧ last.kind = .rbrace) := fun h =>
        hsquare ⟨h.1, by cases bracket <;> simp_all [Bracket.closing]⟩
      rw [if_neg hopener, if_neg hcloser]
      exact ⟨bracket, hfirst, hlast⟩

section Block

variable {statement : Parse Stmt} (h : Restating all statement)

include h

/-- No statement begins with a closing bracket, so a turn that does reports a problem. -/
theorem spoils_blockStep {close : TokenKind} {stmts : List Stmt} (hfits : s.Fits all)
    (hs : s.previous ≠ none) (hshut : s.kind = .rbrace ∨ s.kind = .rbracket)
    (hend : ¬ (s.kind = close || s.atEnd : Bool) = true) :
    Spoils all (blockStep statement close stmts) s := by
  have hsemicolon : s.kind ≠ .semicolon := by rcases hshut with h | h <;> simp [h]
  have hstep : blockStep statement close stmts s = (do
      let stmt ← recovering statement
      ensureProgress s.rest.length
      return .again (stmts ++ [stmt]) : Parse (Turn (List Stmt) (List Stmt))) s := by
    unfold blockStep
    rw [get_bind, if_neg hend, eat_bind_of_ne hsemicolon]
    rfl
  refine Spoils.of_eq ?_ hstep
  refine (reports_recovering h hfits hs hshut).spoils_bind fun stmt u => ?_
  obtain ⟨v, hrun, hv⟩ := run_ensureProgress s.rest.length u
  rw [ends_bind]
  unfold Ends
  rw [hrun]
  exact ⟨hv, trivial⟩

/-- A turn before the end of the list gives the same whichever bracket the list ends before. -/
theorem renders_blockStep {close : TokenKind} {close' : Rendering all → TokenKind}
    {stmts : List Stmt}
    (hclose' : ∀ w, close' w = .rbrace ∨ close' w = .rbracket) (hs : s.previous ≠ none)
    (hend : ¬ (s.kind = close || s.atEnd : Bool) = true) :
    Renders Rendering.Final (Turn.bodies stmtsBodies stmtsBodies) (stmtsBodies stmts) .unopened
      .solid (blockStep statement close stmts)
      (fun w => blockStep statement (close' w) (reread w stmts)) s := by
  refine renders_of_fits fun hfits => ?_
  by_cases hshut : s.kind = .rbrace ∨ s.kind = .rbracket
  · exact (spoils_blockStep h hfits hs hshut hend).renders
  · unfold blockStep
    refine renders_get_bind (q := fun w => do
      if ← eat .semicolon then return .again (reread w stmts)
      else
        let stmt ← recovering statement
        ensureProgress s.rest.length
        return .again (reread w stmts ++ [stmt])) ?_ ?_
    · rw [if_neg hend]
      refine renders_eat_bind_solid rfl ?_ ?_
      · intro _
        simp only [if_true]
        exact renders_pure (a := (.again stmts : Turn (List Stmt) (List Stmt)))
          (fun _ hbody => hbody) fun _ => trivial
      · intro _
        simp only [Bool.false_eq_true, if_false]
        apply renders_bind (renders_recovering h hs)
        intro stmt u _ _
        apply renders_bind (renders_ensureProgress _).follow
        intro _ v _ _
        simp only [Renderable.render_concat]
        refine renders_pure (a := (.again (stmts ++ [stmt]) : Turn (List Stmt) (List Stmt)))
          (fun body hbody => ?_) fun _ => trivial
        exact List.mem_append_right [] (mem_stmtsBodies_concat hbody)
    · intro w taken ahead t hw hsolid _ hsees
      have hkind := hsees.kind (Follow.solid.holds_solid hsolid ahead)
      have hend' : ¬ (t.kind = close' w || t.atEnd : Bool) = true := by
        rw [hkind, hsees.atEnd_eq hw]
        have hne : s.kind ≠ close' w := by
          intro heq
          rw [heq] at hshut
          exact hshut (hclose' w)
        simp only [Bool.or_eq_true, decide_eq_true_eq, not_or] at hend ⊢
        exact ⟨hne, hend.2⟩
      rw [if_neg hend', hsees.length_eq hw]

/-- The statements up to the token that closes their block. -/
theorem ends_blockLoop {close : TokenKind} {closer : Taken all} (hcloser : closer.Closes close)
    (hfits : s.Fits all) (hs : s.previous ≠ none) :
    Ends (fun stmts u => s.Proceeds u ∧ (u.diagnostics = [] → ∃ taken, Clear taken ∧
        (∀ body ∈ stmtsBodies stmts, Taken.Marks body taken) ∧
        Conveys Rendering.Final (fun ahead => ∃ rest, ahead = closer :: rest) taken
          (fun w => iterate (blockStep statement (w.token closer).kind) []) stmts s u))
      (fun _ u => s.Proceeds u) (iterate (blockStep statement close) []) s := by
  refine Ends.mono (ends_iterate_conveys (W := Rendering.Final) (F := .unopened) (m := stmtsBodies)
    (k := stmtsBodies) (P := fun ahead => ∃ rest, ahead = closer :: rest)
    (fun w => blockStep statement (w.token closer).kind)
    (fun ahead ⟨rest, hahead⟩ => hahead ▸ hcloser.unopened rest) ?_ (b := []) trivial hfits)
    ?_ fun _ _ hbad => hbad
  rotate_left
  · rintro stmts u ⟨hproceeds, -, hconveys⟩
    refine ⟨hproceeds, fun hsilent => ?_⟩
    obtain ⟨taken, hclear, hmarks, hconveys'⟩ := hconveys hsilent trivial
    exact ⟨taken, hclear, fun body hbody => (hmarks body hbody).resolve_left List.not_mem_nil,
      hconveys'⟩
  intro stmts s' hs' _ hfits'
  by_cases hend : (s'.kind = close || s'.atEnd : Bool) = true
  · have hdone : blockStep statement close stmts s' =
        (pure (.done stmts) : Parse (Turn (List Stmt) (List Stmt))) s' := by
      unfold blockStep
      rw [get_bind, if_pos hend]
    have hrun : (blockStep statement close stmts).run s' = (.ok (.done stmts), s') := hdone
    unfold Ends
    rw [hrun]
    refine ⟨.refl s', trivial, fun _ _ => ⟨[], .inl rfl, fun _ hbody => .inl hbody, rfl, ?_⟩⟩
    rintro w _ ahead t ⟨rest, rfl⟩ _ hsees
    refine ⟨t, ?_, hsees⟩
    have hkind : t.kind = (w.token closer).kind := congrArg Token.kind hsees.peek_cons
    show blockStep statement (w.token closer).kind (reread w stmts) t = _
    unfold blockStep
    rw [get_bind, if_pos (by rw [hkind]; simp)]
    rfl
  · refine (renders_blockStep h hcloser.bracket_token (hs'.previous_ne hs) hend hfits').mono ?_
      fun _ _ hbad => hbad
    rintro turned u ⟨hproceeds, htame, hconveys⟩
    refine ⟨hproceeds, htame, fun hsilent hwhole => ?_⟩
    obtain ⟨taken, hsolid, hmarks, hrest, hrenders⟩ := hconveys hsilent hwhole
    refine ⟨taken, .inr hsolid, hmarks, hrest, fun w hw ahead t hahead => hrenders w hw ahead t ?_⟩
    cases turned with
    | again => exact hahead
    | done =>
      obtain ⟨rest, rfl⟩ := hahead
      exact hcloser.unopened rest

omit h in
/-- A block is read by its opening bracket, its statements and its closing bracket. -/
theorem run_block {bracket : Bracket} {t v : State} {stmts : List Stmt}
    (hopen : t.kind = bracket.opening)
    (hrun : (iterate (blockStep statement bracket.closing) []).run t.next = (.ok stmts, v))
    (hclose : v.kind = bracket.closing) :
    (block statement bracket).run t = (.ok ⟨stmts, v.next.spanFrom t.here⟩, v.next) := by
  show block statement bracket t = _
  unfold block
  rw [here_bind, eat_bind_of_eq hopen, if_pos rfl]
  refine run_bind_ok.2 ⟨stmts, v, hrun, ?_⟩
  show (expect bracket.closing _ >>= _) v = _
  rw [expect_bind hclose]
  rfl

/-- A block, with whatever its brackets may be: both readers of blocks go by the kinds of the
brackets that they meet. -/
theorem ends_block {bracket : Bracket} (hfits : s.Fits all) :
    Ends (fun b u => s.Proceeds u ∧ (u.diagnostics = [] → s.kind = bracket.opening ∧
        ∃ last, last.kind = bracket.closing ∧ b.span = s.here.through last.span ∧
        ∀ opener closer : Taken all, opener.token = s.peek → closer.token = last →
        closer.Closes bracket.closing → ∃ inner,
          (∀ body ∈ (TreePart.block b).bodies, Taken.Marks body inner) ∧
          s.rest = s.peek :: (inner.map Taken.token ++ last :: u.rest) ∧
          ∀ (w : Rendering all) (bracket' : Bracket), w.Final →
            (w.token opener).kind = bracket'.opening → (w.token closer).kind = bracket'.closing →
            ∀ ahead t, u.rest = ahead.map Taken.token →
              w.Sees (opener :: (inner ++ closer :: ahead)) s t →
              ∃ v, (block statement bracket').run t = (.ok (reread w b), v) ∧ w.Sees ahead u v))
      (fun _ u => s.Proceeds u) (block statement bracket) s := by
  unfold block
  rw [ends_here_bind, ends_eat_bind]
  split
  case isFalse => exact State.Proceeds.refl s
  case isTrue hopen =>
  have hkind : s.kind ≠ .eof := hopen ▸ opening_ne_eof bracket
  have hclosing := bracket.closing_cases
  have hnext := s.proceeds_next
  have hloop : ∀ closer : Taken all, closer.Closes bracket.closing → _ := fun closer hcloser =>
    ends_blockLoop h hcloser (hnext.fits hfits) (State.previous_next_ne hkind)
  have hloops := ends_forall (hloop (.plain (.ofKind bracket.closing "" .zero))
    (Taken.closes_plain rfl hclosing))
    fun closer : { closer : Taken all // closer.Closes bracket.closing } => hloop closer.1 closer.2
  simp only [if_true]
  rw [ends_bind]
  refine hloops.mono ?_ fun _ _ hbad => hnext.trans hbad
  rintro stmts u ⟨⟨hu, -⟩, hreads⟩
  refine ends_expect_bind (fun hclose => ?_) fun _ => hnext.trans hu
  have hlast : u.kind ≠ .eof := by
    rw [hclose]
    cases bracket <;> simp [Bracket.closing]
  have hspan : u.next.spanFrom s.here = s.here.through u.peek.span := by
    unfold State.spanFrom
    rw [State.previous_next hlast]
    rfl
  show s.Proceeds u.next ∧ (u.next.diagnostics = [] → _)
  refine ⟨(hnext.trans hu).trans u.proceeds_next, fun hsilent => ⟨hopen, u.peek, hclose, hspan, ?_⟩⟩
  intro opener closer hopener hcloser hcloses
  obtain ⟨-, hconveys⟩ := hreads ⟨closer, hcloses⟩
  obtain ⟨inner, -, hmarks, hrest, hrenders⟩ := hconveys (u.diagnostics_next ▸ hsilent)
  refine ⟨inner, ?_, ?_, ?_⟩
  · intro body hbody
    rw [TreePart.bodies_block] at hbody
    exact hmarks body hbody
  · rw [State.rest_of_kind hkind, hrest, State.rest_of_kind hlast]
    rfl
  · intro w bracket' hw hopen' hclose' ahead t hahead hsees
    have hahead' : u.rest = (closer :: ahead).map Taken.token := by
      rw [State.rest_of_kind hlast, hahead, List.map_cons, hcloser]
      rfl
    obtain ⟨v, hrun, hsees'⟩ :=
      hrenders w hw (closer :: ahead) t.next ⟨ahead, rfl⟩ hahead' hsees.next
    have hopens : t.kind = bracket'.opening := by
      rw [← hopen']
      exact congrArg Token.kind hsees.peek_cons
    have hcloses' : v.kind = bracket'.closing := by
      rw [← hclose']
      exact congrArg Token.kind hsees'.peek_cons
    refine ⟨v.next, ?_, hsees'.next⟩
    refine (run_block hopens (hclose' ▸ hrun) hcloses').trans ?_
    rw [hsees.here_cons, hsees'.next.spanFrom (State.previous_next_ne hlast) s.here]
    exact congrArg (fun ss => (Except.ok (Block.mk ss _), v.next))
      (Remap.stmts_eq_map _ _ stmts).symm

/-- The places of the bodies in a block. -/
abbrev blockBodies (b : Block) : List Span := (TreePart.block b).bodies

/-- The brackets of a block that is no body stay what they are. -/
theorem renders_block {bracket : Bracket} :
    RendersFinal all blockBodies B .any G (block statement bracket)
      (fun _ => block statement bracket) s := by
  intro hfits
  refine (ends_block h hfits).mono ?_ fun _ _ hbad => hbad
  rintro b u ⟨hproceeds, hreads⟩
  refine ⟨hproceeds, trivial, fun hsilent _ => ?_⟩
  obtain ⟨hopen, last, hlast, -, hall⟩ := hreads hsilent
  obtain ⟨inner, hmarks, hrest, hrenders⟩ :=
    hall (.plain s.peek) (.plain last) rfl rfl (Taken.closes_plain hlast bracket.closing_cases)
  refine ⟨.plain s.peek :: (inner ++ [.plain last]), G.holds_plain _ _,
    fun body hbody => ?_, ?_, ?_⟩
  · exact .inr (((hmarks body hbody).append_left _).append_right [_])
  · rw [hrest]
    simp [Taken.token]
  · intro w hw ahead t _ hahead hsees
    have hsees' : w.Sees (.plain s.peek :: (inner ++ .plain last :: ahead)) s t := by
      simpa using hsees
    exact hrenders w bracket hw hopen hlast ahead t hahead hsees'

omit h in
theorem body_eq {bracket : Bracket} (hkind : s.kind = bracket.opening) :
    body statement s = block statement bracket s := by
  unfold body
  rw [kind_bind, hkind]
  cases bracket <;> rfl

/-- A body may be in square brackets elsewhere. -/
theorem renders_body :
    RendersFinal all bodyBodies B .any .any (body statement)
      (fun _ => body statement) s := by
  have hbody : ∀ bracket : Bracket, RendersFinal all bodyBodies B .any .any
      (block statement bracket) (fun _ => body statement) s := by
    intro bracket hfits
    refine (ends_block h hfits).mono ?_ fun _ _ hbad => hbad
    rintro b u ⟨hproceeds, hreads⟩
    refine ⟨hproceeds, trivial, fun hsilent _ => ?_⟩
    obtain ⟨hopen, last, hlast, hspan, hall⟩ := hreads hsilent
    have hsublist : [s.peek, last].Sublist all := by
      obtain ⟨inner, -, hrest, -⟩ :=
        hall (.plain s.peek) (.plain last) rfl rfl (Taken.closes_plain hlast bracket.closing_cases)
      refine List.Sublist.trans ?_ hfits.rest.sublist
      rw [hrest]
      exact (((List.nil_sublist _).cons_cons last).trans
        (List.sublist_append_right _ _)).cons_cons s.peek
    obtain ⟨opener, closer, hopener, hcloser, hcloses, hmark, hbrackets⟩ :=
      Taken.exists_brackets hopen hlast hsublist hspan
    obtain ⟨inner, hmarks, hrest, hrenders⟩ := hall opener closer hopener hcloser hcloses
    refine ⟨opener :: (inner ++ [closer]), trivial, fun body hmem => .inr ?_, ?_, ?_⟩
    · rcases List.mem_cons.1 hmem with hsame | hmem
      · rw [hsame]
        exact hmark inner
      · exact ((hmarks body hmem).append_left _).append_right [_]
    · rw [hrest]
      simp [hopener, hcloser]
    · intro w hw ahead t _ hahead hsees
      have hsees' : w.Sees (opener :: (inner ++ closer :: ahead)) s t := by simpa using hsees
      obtain ⟨bracket', hopen', hclose'⟩ := hbrackets w
      obtain ⟨v, hrun, hv⟩ := hrenders w bracket' hw hopen' hclose' ahead t hahead hsees'
      have hkind : t.kind = bracket'.opening := hopen' ▸ congrArg Token.kind hsees'.peek_cons
      have hblock : (body statement).run t = (block statement bracket').run t := body_eq hkind
      exact ⟨v, hblock.trans hrun, hv⟩
  by_cases hbrace : s.kind = .lbrace
  · exact (hbody .brace).of_eq (body_eq hbrace) fun _ _ _ _ _ _ _ _ => rfl
  by_cases hbracket : s.kind = .lbracket
  · exact (hbody .square).of_eq (body_eq hbracket) fun _ _ _ _ _ _ _ _ => rfl
  have hneither : body statement s = (unexpected .bodyStart : Parse Block) s := by
    unfold body
    rw [kind_bind]
    generalize s.kind = kind at hbrace hbracket
    cases kind with
    | lbrace => exact absurd rfl hbrace
    | lbracket => exact absurd rfl hbracket
    | _ => rfl
  exact renders_unexpected.of_eq hneither fun _ _ _ _ _ _ _ _ => rfl

end Block

end ComponentLang.Grammar
