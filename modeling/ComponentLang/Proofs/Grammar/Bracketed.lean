import ComponentLang.Proofs.Grammar.Abreast.Program
import ComponentLang.Proofs.Grammar.Provenance.Program
import ComponentLang.Proofs.Grammar.Rendering.Program
import ComponentLang.Proofs.Grammar.Starts
import ComponentLang.Proofs.Scan.Forms
import Mathlib.Data.List.Chain

/-!
# Bodies in square brackets

The braces around some of the bodies of a program are made square brackets. As no such bracket
stands directly behind another token, none of them is read as an index, and the program stays the
same.
-/
namespace ComponentLang.Grammar

open Parse
open Renderable (reread)

/-! ## The first state -/

section Start

variable {f : Token → Token} (herror : ∀ t, (f t).kind.isError = t.kind.isError)
  (heof : ∀ t, (f t).kind = .eof ↔ t.kind = .eof) (tokens : List Token)

include herror

theorem filter_map_sound : (tokens.map f).filter (fun t => !t.kind.isError) =
    (tokens.filter fun t => !t.kind.isError).map f := by
  rw [List.filter_map]
  congr 1
  exact List.filter_congr fun t _ => by simp [herror]

include heof

/-- The same tokens are to come, each as it is changed. -/
theorem rest_start_map : (State.start (tokens.map f)).rest = (State.start tokens).rest.map f := by
  have hends : ((fun t : Token => t.kind != .eof) ∘ f) = fun t : Token => t.kind != .eof := by
    funext t
    rw [Function.comp_apply, Bool.eq_iff_iff]
    simp [heof]
  show ((tokens.map f).filter _).takeWhile _ = _
  rw [filter_map_sound herror, List.takeWhile_map, hends]
  rfl

theorem limit_start_map :
    (State.start (tokens.map f)).iterationLimit = (State.start tokens).iterationLimit := by
  unfold State.start
  dsimp only
  rw [filter_map_sound herror, List.length_map]
  generalize tokens.filter (fun t => !t.kind.isError) = valid
  have hlast : (valid.map f).getLast?.map Token.kind = some .eof ↔
      valid.getLast?.map Token.kind = some .eof := by
    rw [List.getLast?_map]
    cases valid.getLast? with
    | none => simp
    | some t => simp [heof]
  simp only [hlast]

end Start

/-! ## Tokens in their places -/

/-- The tokens stand one behind the other, and no bracket among them is empty. -/
structure InPlace (tokens : List Token) : Prop where
  ordered : tokens.Pairwise fun t u => t.span.stop ≤ u.span.start
  spans : ∀ t ∈ tokens, t.span.start ≤ t.span.stop
  wide : Scan.Wide tokens

theorem inPlace_of_scan {config : ScanConfig} {s : Source} {scanned : Scan.Scanned}
    (h : Scan.scan config s = some scanned) : InPlace scanned.tokens := by
  have hlossless := Scan.scan_lossless config s scanned h
  exact ⟨hlossless.ordered, hlossless.spans, Scan.wide_of_scan h⟩

theorem InPlace.sublist {tokens others : List Token} (h : InPlace tokens)
    (hsub : others.Sublist tokens) : InPlace others :=
  ⟨h.ordered.sublist hsub, fun t ht => h.spans t (hsub.subset ht),
    fun t ht => h.wide t (hsub.subset ht)⟩

namespace InPlace

variable {all : List Token} {taken : List (Taken all)} {x y : Taken all}

theorem taken_eq (h : InPlace (taken.map Taken.token)) (hx : x ∈ taken) (hy : y ∈ taken)
    (hdisjoint : ∀ t ∈ [x.token, y.token], ∀ u ∈ [x.token, y.token],
      ¬ t.span.stop ≤ u.span.start) : x = y := by
  obtain ⟨i, hi, rfl⟩ := List.getElem_of_mem hx
  obtain ⟨j, hj, rfl⟩ := List.getElem_of_mem hy
  have hordered := List.pairwise_iff_getElem.1 (List.pairwise_map.1 h.ordered)
  rcases Nat.lt_trichotomy i j with hlt | rfl | hlt
  · exact absurd (hordered i j hi hj hlt) (hdisjoint _ (by simp) _ (by simp))
  · rfl
  · exact absurd (hordered j i hj hi hlt) (hdisjoint _ (by simp) _ (by simp))

/-- Brackets that begin at one place are one. -/
theorem eq_of_start (h : InPlace (taken.map Taken.token)) (hx : x ∈ taken) (hy : y ∈ taken)
    (hxmark : x.token.kind.isMark = true) (hymark : y.token.kind.isMark = true)
    (hstart : x.token.span.start = y.token.span.start) : x = y := by
  have hxwide := h.wide _ (List.mem_map_of_mem hx) hxmark
  have hywide := h.wide _ (List.mem_map_of_mem hy) hymark
  refine h.taken_eq hx hy ?_
  simp only [List.mem_cons, List.not_mem_nil, or_false, forall_eq_or_imp, forall_eq]
  omega

/-- Brackets that end at one place are one. -/
theorem eq_of_stop (h : InPlace (taken.map Taken.token)) (hx : x ∈ taken) (hy : y ∈ taken)
    (hxmark : x.token.kind.isMark = true) (hymark : y.token.kind.isMark = true)
    (hstop : x.token.span.stop = y.token.span.stop) : x = y := by
  have hxwide := h.wide _ (List.mem_map_of_mem hx) hxmark
  have hywide := h.wide _ (List.mem_map_of_mem hy) hymark
  refine h.taken_eq hx hy ?_
  simp only [List.mem_cons, List.not_mem_nil, or_false, forall_eq_or_imp, forall_eq]
  omega

end InPlace

/-! ## Brackets that match -/

theorem Unclosed.split {opened : List Opening} {taken : List Token} {t : Token}
    (h : Unclosed opened (taken ++ [t])) :
    ∃ before, Unclosed before taken ∧ Stacks t before opened := by
  generalize hall : taken ++ [t] = all at h
  cases h with
  | nil => simp at hall
  | @concat before _ taken' t' hbefore hstep =>
    obtain ⟨rfl, hlast⟩ := List.append_inj' hall rfl
    obtain rfl := List.singleton_inj.1 hlast
    exact ⟨before, hbefore, hstep⟩

theorem Unclosed.init {opened : List Opening} {taken more : List Token}
    (h : Unclosed opened (taken ++ more)) : ∃ before, Unclosed before taken := by
  generalize hall : taken ++ more = all at h
  induction h generalizing more with
  | nil =>
    obtain ⟨rfl, -⟩ := List.append_eq_nil_iff.1 hall
    exact ⟨[], .nil⟩
  | @concat opened opened' taken' t hbefore hstep ih =>
    rcases List.eq_nil_or_concat more with rfl | ⟨init, last, rfl⟩
    · rw [List.append_nil] at hall
      rw [hall]
      exact ⟨_, hbefore.concat hstep⟩
    · rw [List.concat_eq_append, ← List.append_assoc] at hall
      exact ih (List.append_inj' hall rfl).1

/-- No brace closes right behind a square bracket that opens. -/
theorem Unclosed.apart {opened : List Opening} {all : List Token} (h : Unclosed opened all)
    {first second : Token} (hpair : [first, second] <:+: all) (hfirst : first.kind = .lbracket) :
    second.kind ≠ .rbrace := by
  intro hsecond
  obtain ⟨before, after, rfl⟩ := hpair
  obtain ⟨opened', h'⟩ := h.init
  have hlist : before ++ [first, second] = before ++ [first] ++ [second] := by simp
  rw [hlist] at h'
  obtain ⟨outer, houter, hclose⟩ := h'.split
  obtain ⟨outermost, -, hopen⟩ := houter.split
  have hsquare : ∃ below, outer = .square :: below := by
    cases hopen with
    | opens ho =>
      rw [hfirst] at ho
      exact ⟨_, congrArg (· :: _) (Option.some.inj ho).symm⟩
    | @closes o _ ho => rw [hfirst] at ho; cases o <;> cases ho
    | passes ht => rw [hfirst] at ht; cases ht
  obtain ⟨below, rfl⟩ := hsquare
  cases hclose with
  | opens ho => rw [hsecond] at ho; cases ho
  | closes ho => rw [hsecond] at ho; cases ho
  | passes ht => rw [hsecond] at ht; cases ht

/-! ## Bodies in square brackets -/

/-- The token, but a square bracket if it is a brace at either end of one of the bodies. -/
def squared (bodies : List Span) (t : Token) : Token :=
  if t.kind = .lbrace ∧ ∃ body ∈ bodies, body.start = t.span.start then
    .ofKind .lbracket "[" t.span
  else if t.kind = .rbrace ∧ ∃ body ∈ bodies, body.stop = t.span.stop then
    .ofKind .rbracket "]" t.span
  else t

section Squared

variable {bodies : List Span} {t : Token}

theorem squared_opening (hkind : t.kind = .lbrace)
    (hbody : ∃ body ∈ bodies, body.start = t.span.start) :
    squared bodies t = .ofKind .lbracket "[" t.span :=
  if_pos ⟨hkind, hbody⟩

theorem squared_closing (hkind : t.kind = .rbrace)
    (hbody : ∃ body ∈ bodies, body.stop = t.span.stop) :
    squared bodies t = .ofKind .rbracket "]" t.span := by
  unfold squared
  rw [if_neg (by simp [hkind]), if_pos ⟨hkind, hbody⟩]

theorem squared_other (hopen : t.kind = .lbrace → ∀ body ∈ bodies, body.start ≠ t.span.start)
    (hclose : t.kind = .rbrace → ∀ body ∈ bodies, body.stop ≠ t.span.stop) :
    squared bodies t = t := by
  unfold squared
  rw [if_neg, if_neg]
  · rintro ⟨hkind, body, hbody, hstop⟩
    exact hclose hkind body hbody hstop
  · rintro ⟨hkind, body, hbody, hstart⟩
    exact hopen hkind body hbody hstart

theorem kind_squared (bodies : List Span) (t : Token) : (squared bodies t).kind = t.kind ∨
    t.kind = .lbrace ∧ (squared bodies t).kind = .lbracket ∨
    t.kind = .rbrace ∧ (squared bodies t).kind = .rbracket := by
  unfold squared
  split
  next h => exact .inr (.inl ⟨h.1, rfl⟩)
  next =>
    split
    next h => exact .inr (.inr ⟨h.1, rfl⟩)
    next => exact .inl rfl

theorem isError_squared (bodies : List Span) (t : Token) :
    (squared bodies t).kind.isError = t.kind.isError := by
  rcases kind_squared bodies t with h | ⟨h, h'⟩ | ⟨h, h'⟩
  · rw [h]
  · rw [h, h']
    rfl
  · rw [h, h']
    rfl

theorem eof_squared (bodies : List Span) (t : Token) :
    (squared bodies t).kind = .eof ↔ t.kind = .eof := by
  rcases kind_squared bodies t with h | ⟨h, h'⟩ | ⟨h, h'⟩
  · rw [h]
  · simp [h, h']
  · simp [h, h']

end Squared

/-- No brace that opens one of the bodies begins where the token before it ends. -/
def OpenersApart (bodies : List Span) (tokens : List Token) : Prop :=
  tokens.IsChain fun before opener => opener.kind = .lbrace →
    (∃ body ∈ bodies, body.start = opener.span.start) → before.span.stop ≠ opener.span.start

instance (bodies : List Span) (tokens : List Token) : Decidable (OpenersApart bodies tokens) :=
  inferInstanceAs (Decidable (tokens.IsChain _))

section Tokens

variable {bodies : List Span} {tokens : List Token}

/-- No token at all ends where such a brace begins. -/
theorem OpenersApart.stop_ne (h : OpenersApart bodies tokens) (hplace : InPlace tokens)
    {opener : Token} (hopener : opener ∈ tokens) (hkind : opener.kind = .lbrace)
    (hbody : ∃ body ∈ bodies, body.start = opener.span.start) :
    ∀ t ∈ tokens, t.span.stop ≠ opener.span.start := by
  intro t ht
  have hwide := hplace.wide opener hopener (by rw [hkind]; rfl)
  have ht' := hplace.spans t ht
  obtain ⟨front, behind, rfl⟩ := List.append_of_mem hopener
  obtain ⟨hfront, hbehind, hacross⟩ := List.pairwise_append.1 hplace.ordered
  rcases List.mem_append.1 ht with hbefore | hafter
  · rcases List.eq_nil_or_concat front with rfl | ⟨init, last, rfl⟩
    · cases hbefore
    · rw [List.concat_eq_append] at *
      have hlast : last.span.stop ≠ opener.span.start :=
        (List.isChain_append.1 h).2.2 last (by simp) opener (by simp) hkind hbody
      have hle : last.span.stop ≤ opener.span.start :=
        hacross last (by simp) opener List.mem_cons_self
      have hspan := hplace.spans last (by simp)
      rcases List.mem_append.1 hbefore with hinit | hsame
      · have hnext := (List.pairwise_append.1 hfront).2.2 t hinit last (List.mem_singleton_self _)
        omega
      · rwa [List.mem_singleton.1 hsame]
  · rcases List.mem_cons.1 hafter with rfl | hlater
    · omega
    · have hnext := (List.pairwise_cons.1 hbehind).1 t hlater
      omega

variable {all : List Token} {taken : List (Taken all)}

/-- A closing bracket ends where its body ends. -/
theorem stop_of_through (hplace : InPlace (taken.map Taken.token)) {t : Token} {body : Span}
    (ht : t ∈ taken.map Taken.token) (hkind : t.kind = .rbrace ∨ t.kind = .rbracket) {first : Token}
    (hsub : [first, t].Sublist (taken.map Taken.token)) (hbody : body = first.span.through t.span) :
    body.stop = t.span.stop := by
  have hmark : t.kind.isMark = true := by rcases hkind with h | h <;> rw [h] <;> rfl
  have hordered : first.span.stop ≤ t.span.start :=
    List.rel_of_pairwise_cons (hplace.ordered.sublist hsub) (List.mem_singleton_self t)
  have hwide := hplace.wide t ht hmark
  rw [hbody]
  exact Nat.max_eq_left (by omega)

section Marks

variable (hplace : InPlace (taken.map Taken.token)) {body : Span} (hmarks : Taken.Marks body taken)
  {x : Taken all} (hx : x ∈ taken)

include hplace hmarks hx

/-- The brace that opens a body is found among the tokens that were taken as such. -/
theorem opens_of_start (hkind : x.token.kind = .lbrace) (hstart : body.start = x.token.span.start) :
    ∃ t kind place, x = .opens t body kind place := by
  obtain ⟨first, last, kind, kind', place, place', hsub, -, -⟩ := hmarks
  have hfirst : Taken.opens first body kind place ∈ taken := hsub.subset List.mem_cons_self
  refine ⟨first, kind, place, hplace.eq_of_start hx hfirst ?_ ?_ (hstart.symm.trans place)⟩
  · rw [hkind]
    rfl
  · show first.kind.isMark = true
    rcases kind with h | h <;> rw [h] <;> rfl

/-- So is the brace that closes it, and the one that opens it is before. -/
theorem closes_of_stop (hkind : x.token.kind = .rbrace) (hstop : body.stop = x.token.span.stop) :
    (∃ t kind place, x = .closes t body kind place) ∧
      ∃ opener ∈ taken.map Taken.token, opener.kind = .lbrace ∧ body.start = opener.span.start := by
  obtain ⟨first, last, kind, kind', place, place', hsub, hthrough, hpair⟩ := hmarks
  have hfirst : Taken.opens first body kind place ∈ taken := hsub.subset List.mem_cons_self
  have hlast : Taken.closes last body kind' place' ∈ taken := hsub.subset (by simp)
  have hends : body.stop = last.span.stop :=
    stop_of_through hplace (List.mem_map_of_mem hlast) kind' (hsub.map Taken.token) hthrough
  have hsame : x = .closes last body kind' place' := by
    refine hplace.eq_of_stop hx hlast ?_ ?_ (hstop.symm.trans hends)
    · rw [hkind]
      rfl
    · show last.kind.isMark = true
      rcases kind' with h | h <;> rw [h] <;> rfl
  refine ⟨⟨last, kind', place', hsame⟩, first, List.mem_map_of_mem hfirst, hpair.2 ?_, place⟩
  rw [hsame] at hkind
  exact hkind

end Marks

/-- Where the tokens that were taken stand with the bodies in square brackets. -/
theorem token_eq_squared {w : Rendering all} (hspan : w.span = id)
    (hsquare : ∀ body, w.square body = true ↔ body ∈ bodies ∧
      ∃ opener ∈ all, opener.kind = .lbrace ∧ body.start = opener.span.start)
    (hplace : InPlace (taken.map Taken.token)) (hall : taken.map Taken.token = all)
    (hmarks : ∀ body ∈ bodies, Taken.Marks body taken) {x : Taken all} (hx : x ∈ taken) :
    w.token x = squared bodies x.token := by
  have hmoved : ∀ t, w.moved t = t := fun t => by rw [Rendering.moved, hspan]; rfl
  cases x with
  | plain t =>
    refine (hmoved t).trans (squared_other (fun hkind body hbody hstart => ?_)
      fun hkind body hbody hstop => ?_).symm
    · obtain ⟨_, _, _, hx⟩ := opens_of_start hplace (hmarks body hbody) hx hkind hstart
      cases hx
    · obtain ⟨⟨_, _, _, hx⟩, -⟩ := closes_of_stop hplace (hmarks body hbody) hx hkind hstop
      cases hx
  | opens t body kind place =>
    rw [Rendering.token, hmoved, hspan]
    split
    next h =>
      exact (squared_opening h.2 ⟨body, ((hsquare body).1 h.1).1, place⟩).symm
    next h =>
      refine (squared_other (fun hkind body' hbody' hstart => ?_)
        fun hkind => ?_).symm
      · obtain ⟨_, _, _, hx'⟩ := opens_of_start hplace (hmarks body' hbody') hx hkind hstart
        cases hx'
        refine h ⟨(hsquare body).2 ⟨hbody', t, ?_, hkind, place⟩, hkind⟩
        rw [← hall]
        exact List.mem_map_of_mem hx
      · rcases kind with h | h <;> rw [h] at hkind <;> cases hkind
  | closes t body kind place =>
    rw [Rendering.token, hmoved, hspan]
    have hstop : body.stop = t.span.stop := by
      obtain ⟨first, hsub, hbody⟩ := place
      rw [← hall] at hsub
      exact stop_of_through hplace (List.mem_map_of_mem hx) kind hsub hbody
    split
    next h =>
      exact (squared_closing h.2 ⟨body, ((hsquare body).1 h.1).1, hstop⟩).symm
    next h =>
      refine (squared_other (fun hkind => ?_) fun hkind body' hbody' hstop' => ?_).symm
      · rcases kind with h | h <;> rw [h] at hkind <;> cases hkind
      · obtain ⟨⟨_, _, _, hx'⟩, hopener⟩ :=
          closes_of_stop hplace (hmarks body' hbody') hx hkind hstop'
        cases hx'
        exact h ⟨(hsquare body).2 ⟨hbody', hall ▸ hopener⟩, hkind⟩

theorem renders_program {s : State} (hs : s.previous ≠ none) :
    RendersFinal all programBodies [] .unopened .clear (iterate programStep .empty)
      (fun _ => iterate programStep .empty) s :=
  renders_iterate (b := Program.empty) (fun _ => programStep)
    (fun _ _ hu _ => renders_programStep (hu.previous_ne hs)) (fun _ => trivial)
    (by simp [TreePart.bodies_program, Program.empty])

/-- The first token may be read as if it were behind another. -/
theorem run_start_behind (hne : (State.start tokens).rest ≠ []) (previous : Option Span) :
    (iterate programStep .empty).run { State.start tokens with previous } =
      program.run (.start tokens) :=
  forgets_iterate .empty hne (State.paced_start tokens) previous

theorem parse_of_run {read : Program} {u : State}
    (h : program.run (.start tokens) = (.ok read, u)) :
    parse tokens = ⟨read, u.diagnostics.reverse⟩ := by
  unfold parse
  rw [h]
  rfl

theorem parse_of_nothing (h : (State.start tokens).rest = []) : parse tokens = ⟨.empty, []⟩ :=
  parse_of_run (iterate_of_end .empty h)

/-- All tokens of a program that is read without problems are taken, and wherever they stand
otherwise the program is read there. -/
theorem exists_taken_of_silent (hsilent : (parse tokens).diagnostics = []) {first : Token}
    (hfirst : first ∈ (State.start tokens).rest) :
    ∃ taken : List (Taken (State.start tokens).rest),
      taken.map Taken.token = (State.start tokens).rest ∧
      (∀ body ∈ programBodies (parse tokens).program, Taken.Marks body taken) ∧
      ∀ (w : Rendering (State.start tokens).rest) (t : State), w.Final →
        w.Sees taken { State.start tokens with previous := some first.span } t →
        ∃ v, (iterate programStep .empty).run t = (.ok (reread w (parse tokens).program), v) ∧
          v.diagnostics = [] := by
  have hrun := run_start_behind (List.ne_nil_of_mem hfirst) (some first.span)
  obtain ⟨read, hok, -, hend⟩ := (gives_program (n := 0) (s := .start tokens)).exists_ok
  have hprogram : (parse tokens).program = read := by
    show (program.run (.start tokens)).1.toOption.getD .empty = read
    rw [hok]
    rfl
  have hsilent' : (program.run (.start tokens)).2.diagnostics = [] :=
    List.reverse_eq_nil_iff.1 hsilent
  have hfits : State.Fits (State.start tokens).rest
      { State.start tokens with previous := some first.span } := by
    refine ⟨List.suffix_refl _, ?_⟩
    rintro span ⟨⟩
    exact ⟨first, hfirst, rfl⟩
  have hends := renders_program (Option.some_ne_none first.span) hfits
  rw [← hrun] at hok hend hsilent'
  obtain ⟨-, -, hconveys⟩ := hends.good_of_ok hok
  obtain ⟨taken, -, hmarks, hrest, hrenders⟩ := hconveys hsilent' trivial
  rw [hend, List.append_nil] at hrest
  rw [hprogram]
  refine ⟨taken, hrest.symm, fun body hbody => (hmarks body hbody).resolve_left List.not_mem_nil,
    fun w t hw hsees => ?_⟩
  rw [← List.append_nil taken] at hsees
  obtain ⟨v, hrun', hv⟩ := hrenders w hw [] t (Follow.unopened_of_clear (.inl rfl)) hend hsees
  exact ⟨v, hrun', hv.silent⟩

/-- Each token stays where it is, but the bodies that are in braces are in square brackets. -/
def Rendering.squaring (all : List Token) (bodies : List Span)
    (hapart : ∀ opener ∈ all, opener.kind = .lbrace →
      (∃ body ∈ bodies, body.start = opener.span.start) →
        ∀ token ∈ all, token.span.stop ≠ opener.span.start)
    (hunclosed : Unclosed [] all) : Rendering all where
  span := id
  offset := 0
  square body := body ∈ bodies ∧ ∃ opener ∈ all, opener.kind = .lbrace ∧
    body.start = opener.span.start
  more := []
  through _ _ := rfl
  meets _ _ := Iff.rfl
  detached body hsquare token htoken := by
    obtain ⟨hbody, opener, hopener, hkind, hstart⟩ := of_decide_eq_true hsquare
    rw [hstart]
    exact hapart opener hopener hkind ⟨body, hbody, hstart⟩ token htoken
  apart _ _ _ _ hpair hfirst := hunclosed.apart hpair hfirst
  halts _ hnone := absurd hnone (Option.not_mem_none _)

/-- The program of tokens that are read without problems stays the same. -/
theorem parse_squared_of_inPlace (hplace : InPlace tokens)
    (hsilent : (parse tokens).diagnostics = [])
    (hbodies : ∀ body ∈ bodies, body ∈ programBodies (parse tokens).program)
    (hapart : OpenersApart bodies tokens) :
    parse (tokens.map (squared bodies)) = parse tokens := by
  have hrest := rest_start_map (isError_squared bodies) (eof_squared bodies) tokens
  have hlimit := limit_start_map (isError_squared bodies) (eof_squared bodies) tokens
  by_cases hne : (State.start tokens).rest = []
  · rw [parse_of_nothing hne, parse_of_nothing (by rw [hrest, hne, List.map_nil])]
  have hne' : (State.start (tokens.map (squared bodies))).rest ≠ [] := by
    rw [hrest]
    exact fun hnil => hne (List.map_eq_nil_iff.1 hnil)
  obtain ⟨first, hfirst⟩ := List.exists_mem_of_ne_nil _ hne
  obtain ⟨taken, htaken, hmarks, hrenders⟩ := exists_taken_of_silent hsilent hfirst
  have hsub : (State.start tokens).rest.Sublist tokens :=
    ((List.takeWhile_prefix _).sublist).trans List.filter_sublist
  have hunclosed : Unclosed [] (State.start tokens).rest := by
    obtain ⟨after, log, hcounts, hdiagnostics⟩ := tallies_parse tokens
    exact (exact_parse hcounts hdiagnostics hsilent).2
  let w := Rendering.squaring (State.start tokens).rest bodies
    (fun opener hopener hkind hbody t ht =>
      hapart.stop_ne hplace (hsub.subset hopener) hkind hbody t (hsub.subset ht)) hunclosed
  have htokens : (State.start tokens).rest.map (squared bodies) = taken.map w.token := by
    refine (congrArg (List.map (squared bodies)) htaken.symm).trans ?_
    rw [List.map_map]
    refine List.map_congr_left fun x hx => ?_
    exact (token_eq_squared rfl (fun _ => decide_eq_true_iff)
      (htaken.symm ▸ hplace.sublist hsub) htaken
      (fun body hbody => hmarks body (hbodies body hbody)) hx).symm
  have hsees : w.Sees taken { State.start tokens with previous := some first.span }
      { State.start (tokens.map (squared bodies)) with previous := some first.span } :=
    ⟨htaken.symm, (hrest.trans htokens).trans (List.append_nil _).symm, fun _ hspan => hspan,
      rfl, rfl, rfl, hlimit.ge, rfl⟩
  obtain ⟨v, hrun, hv⟩ := hrenders w _ rfl hsees
  have hreread : reread w (parse tokens).program = (parse tokens).program :=
    (parse tokens).program.remap_id
  rw [run_start_behind hne', hreread] at hrun
  rw [parse_of_run hrun, hv]
  exact congrArg (Parsed.mk _) hsilent.symm

end Tokens

/-- If the tokens of a source are read without problems, the braces of any of the bodies may be
square brackets that do not begin where the token before them ends: the program that is read is the
same, and there are no problems. -/
theorem parse_squared (config : ScanConfig) (s : Source) (scanned : Scan.Scanned)
    (hscan : Scan.scan config s = some scanned) (hsilent : (parse scanned.tokens).diagnostics = [])
    (bodies : List Span)
    (hbodies : ∀ body ∈ bodies, body ∈ (TreePart.program (parse scanned.tokens).program).bodies)
    (hapart : OpenersApart bodies scanned.tokens) :
    (parse (scanned.tokens.map (squared bodies))).diagnostics = [] ∧
      (parse (scanned.tokens.map (squared bodies))).program = (parse scanned.tokens).program := by
  rw [parse_squared_of_inPlace (inPlace_of_scan hscan) hsilent hbodies hapart]
  exact ⟨hsilent, rfl⟩

/-- A body of a branch and one behind `else`. -/
def branches : Source := Source.ofString "if (f) \x7b g() \x7d else \x7b f = 3 \x7d"

def branchPlaces : List Span := [⟨7, 14, 1, 8⟩, ⟨20, 29, 1, 21⟩]

theorem parse_squared_branches : ∃ scanned, Scan.scan {} branches = some scanned ∧
    (parse scanned.tokens).diagnostics = [] ∧
    (∀ body ∈ branchPlaces, body ∈ (TreePart.program (parse scanned.tokens).program).bodies) ∧
    OpenersApart branchPlaces scanned.tokens ∧
    (scanned.tokens.map (squared branchPlaces)).map Token.lexeme =
      ["if", "(", "f", ")", "[", "g", "(", ")", "]", "else", "[", "f", "=", "3", "]", ""] ∧
    (parse (scanned.tokens.map (squared branchPlaces))).diagnostics = [] ∧
      (parse (scanned.tokens.map (squared branchPlaces))).program =
        (parse scanned.tokens).program := by
  have hruns : (Scan.scan {} branches).any (fun scanned =>
      decide ((parse scanned.tokens).diagnostics = [] ∧
        (∀ body ∈ branchPlaces,
          body ∈ (TreePart.program (parse scanned.tokens).program).bodies) ∧
        OpenersApart branchPlaces scanned.tokens ∧
        (scanned.tokens.map (squared branchPlaces)).map Token.lexeme =
          ["if", "(", "f", ")", "[", "g", "(", ")", "]", "else", "[", "f", "=", "3", "]",
            ""])) = true := by
    decide +kernel
  obtain ⟨scanned, hscan, hfacts⟩ := (Option.any_eq_true _ _).1 hruns
  obtain ⟨hsilent, hbodies, hapart, hlexemes⟩ := of_decide_eq_true hfacts
  exact ⟨scanned, hscan, hsilent, hbodies, hapart, hlexemes,
    parse_squared {} branches scanned hscan hsilent branchPlaces hbodies hapart⟩

end ComponentLang.Grammar
