import ComponentLang.Proofs.Grammar.Abreast.Statement
import ComponentLang.Proofs.Grammar.Resumption

/-!
# Programs, abreast

Turns that read a program without a problem are followed by turns that read the same when words have
other texts and when there is more behind the program. Then the other reader stands where the rest
begins. Only an export of an export reaches for more: one semicolon ends the inner export and
another the outer one.
-/
namespace ComponentLang.Grammar

open Parse
open State (Abreast Open)

variable {word : String → Prop} {more : Beyond} {s t u v : State} {n : Nat}
variable {program program' : Program}

/-! ## Turns -/

/-- A reader that tracks another has also done what it does by itself. -/
theorem Parse.Tracks.reached {α β : Type} {E : α → State → Prop} {C : State → State → Prop}
    {Q : α → β → Prop} {G : State → Prop} {bad : Problem → State → Prop} {p : Parse α}
    {q : Parse β} (h : Tracks E C Q p q s t) (hends : Ends (fun _ u => G u) bad p s) :
    Tracks E (fun u v => C u v ∧ G u) Q p q s t := by
  intro a u hrun hend
  obtain ⟨b, v, hrun', hab, huv, hhead⟩ := h a u hrun hend
  unfold Ends at hends
  rw [hrun] at hends
  exact ⟨b, v, hrun', hab, ⟨huv, hends⟩, hhead⟩

/-- If what comes next begins with a semicolon, the last export of the program exports no export. -/
def Detached (more : Beyond) (program : Program) : Prop :=
  more.tokens.head?.map Token.kind = some .semicolon →
    ∀ e ∈ program.exports.getLast?, e.item.isExport = false

/-- The program was read without a problem, and if this is the end of it its last export does not
need what comes next. -/
abbrev Quiet (more : Beyond) (program : Program) (u : State) : Prop :=
  u.diagnostics = [] ∧ (u.rest = [] → Detached more program)

theorem tracks_item (h : program.Agrees word program') (hst : Open word more s t) :
    Tracks (Quiet more) (Abreast word more) (Program.Agrees word) (item program) (item program')
      s t := by
  unfold item
  apply tracks_kind_bind hst
  split
  next hkind =>
    apply tracks_bind (mirrors_importDecl hst (State.ne_of_kind hkind (by simp)))
    rintro import_ _ s' t' rfl hst'
    exact tracks_pure hst'.toAbreast { h with imports := by rw [h.imports] }
  next hkind =>
    apply tracks_bind_if
      (tracks_exportDecl pursued_statement hst (State.ne_of_kind hkind (by simp)))
    · intro export_ s' read u hrun hend
      cases hrun
      refine ⟨hend.1, fun hexport hhead hnil => ?_⟩
      have hplain := hend.2 hnil hhead export_ (by simp)
      rw [hplain] at hexport
      cases hexport
    · intro export_ export' s' t' hexport hst'
      exact tracks_pure hst' { h with exports := h.exports.concat hexport }
  next hkind =>
    split
    · apply tracks_bind_silent (tracks_declaration pursued_statement hst) And.left
      · intro declared
        cases declared <;> exact keeps_pure _
      · intro declared declared' s' t' hagrees hst'
        cases hagrees with
        | inl hf =>
            exact tracks_pure hst'.toAbreast { h with functions := h.functions.concat hf }
        | inr hc =>
            exact tracks_pure hst'.toAbreast { h with components := h.components.concat hc }
    · apply tracks_bind_if (pursued_statement.tracks hst)
      · intro stmt s' read u hrun hend
        cases hrun
        refine ⟨hend.1, fun hexport => absurd ?_ hkind⟩
        exact of_decide_eq_true (Bool.and_eq_true_iff.1 hexport).2
      · intro stmt stmt' s' t' hstmt hst'
        exact tracks_pure hst' { h with statements := h.statements.concat hstmt }

theorem tracks_recoveringItem (h : program.Agrees word program') (hst : Open word more s t) :
    Tracks (Quiet more) (Abreast word more) (Program.Agrees word) (recoveringItem program)
      (recoveringItem program') s t := by
  unfold recoveringItem
  apply tracks_attempt_bind (tracks_item h hst)
  · intro read s' c u hrun hend
    cases hrun
    exact hend
  · intro read read' s' t' hread hst'
    exact tracks_pure hst' hread
  · intro problem s' c u hrun hend
    have hkeeps : ∀ placeholder : Stmt, Keeps (do
        if isClosing (← kind) then
          let _ ← advance
        return { program with statements := program.statements ++ [placeholder] }) := by
      intro placeholder
      apply keeps_kind_bind
      intro kind
      split
      · exact keeps_advance_bind fun _ => keeps_pure _
      · exact keeps_pure _
    obtain ⟨placeholder, w, hrecover, hrest⟩ := run_bind_ok.1 hrun
    apply not_silent_recover problem s'
    rw [hrecover]
    apply hkeeps placeholder w
    rw [show _ = _ from hrest]
    exact hend.1

/-- The program that has been read when a turn ends. -/
def Parse.Turn.read : Turn Program Program → Program
  | .again program => program
  | .done program => program

theorem tracks_programStep (h : program.Agrees word program') (hst : Open word more s t)
    (hpaced : s.Paced n) :
    Tracks (fun turn u => Quiet more turn.read u) (Abreast word more)
      (Turn.Rel (Program.Agrees word) (Program.Agrees word)) (programStep program)
      (programStep program') s t := by
  unfold programStep
  apply tracks_get_bind
  rw [hst.atEnd]
  split
  next => exact tracks_done hst.toAbreast h
  next hend =>
    have hpos := State.length_pos_of_not_atEnd hend
    apply tracks_eat_bind hst
    · intro _ hnext
      exact tracks_again hnext h
    · intro _
      rw [if_neg Bool.false_ne_true, if_neg Bool.false_ne_true]
      apply tracks_bind_if ((tracks_recoveringItem h hst).reached (gives_recoveringItem (n := n)))
      · intro read s' turn u hrun hend
        obtain ⟨_, w, hcount, hpure⟩ := run_bind_ok.1 hrun
        cases hpure
        constructor
        · apply keeps_ensureProgress s.rest.length s'
          rw [hcount]
          exact hend.1
        · intro hnil
          by_contra hexport
          refine rest_ensureProgress s.rest.length ?_ hnil
          rw [hcount]
          exact fun hrest => hexport (hend.2 hrest)
      · intro read read' s' t' hread ⟨hst', hattempts⟩
        have hwithin := hattempts.count_le hpaced hpos
        rw [hst.length]
        apply tracks_bind_if (tracks_ensureProgress hst' hpos fun _ _ => hwithin)
        · intro _ u turn v hrun hend
          cases hrun
          exact hend.1
        · intro _ _ u v _ huv
          exact tracks_again huv hread

/-! ## Turns in a row -/

/-- While there are tokens there is another turn. -/
theorem programStep_again (program : Program) (hrest : s.rest ≠ []) :
    ∃ read u, (programStep program).run s = (.ok (.again read), u) := by
  have hgives : Gives (fun turn _ => ∃ read, turn = .again read) (programStep program) s := by
    have hend : ¬ s.atEnd = true := by
      rw [State.atEnd_iff]
      exact hrest
    unfold Gives programStep
    rw [ends_get_bind, if_neg hend, ends_eat_bind]
    split
    · exact ⟨program, rfl⟩
    · exact gives_turn (n := 0) (List.length_pos_of_ne_nil hrest) gives_recoveringItem
        fun read _ _ _ => ⟨read, rfl⟩
  obtain ⟨_, hok, read, rfl⟩ := hgives.exists_ok
  exact ⟨read, _, Prod.ext hok rfl⟩

/-- A turn that another follows begins before the end. -/
theorem rest_of_again {read : Program} (hrun : (programStep program).run s = (.ok (.again read), u)) :
    s.rest ≠ [] := by
  intro hnil
  unfold programStep at hrun
  obtain ⟨_, _, hget, hstep⟩ := run_bind_ok.1 hrun
  cases hget
  rw [if_pos (State.atEnd_iff.2 hnil)] at hstep
  cases hstep

theorem moves_programStep {turn : Turn Program Program}
    (hrun : (programStep program).run s = (.ok turn, u)) : s.Moves n 1 u := by
  have hgives : Gives (fun _ u => s.Moves n 1 u) (programStep program) s :=
    gives_programStep.mono fun _ _ h => h.1
  unfold Gives Ends at hgives
  rwa [hrun] at hgives

namespace Reaches

variable {read : Program}

theorem moves (h : Reaches program s read u) : s.Moves n 1 u := by
  induction h with
  | refl => exact Travel.refl _
  | turn hturn _ ih => exact Travel.trans (moves_programStep hturn) ih

/-- What ends in silence was silent, and it was not the end if there was another turn. -/
theorem quiet (h : Reaches program s read u) (hquiet : Quiet more read u) :
    Quiet more program s := by
  have hsuffix := (h.moves (n := 0)).diagnostics
  rw [hquiet.1, List.suffix_nil] at hsuffix
  refine ⟨hsuffix, fun hnil => ?_⟩
  cases h with
  | refl => exact hquiet.2 hnil
  | turn hturn _ => exact absurd hnil (rest_of_again hturn)

/-- Turns that read a program in silence are followed by turns that read the same. -/
theorem abreast (h : Reaches program s read u) (hagrees : program.Agrees word program')
    (hst : Abreast word more s t) (hpaced : s.Paced n) (hquiet : Quiet more read u) :
    ∃ read' v, Reaches program' t read' v ∧ read.Agrees word read' ∧ Abreast word more u v ∧
      u.inHead = s.inHead := by
  induction h generalizing program' t with
  | refl program s => exact ⟨program', t, .refl _ _, hagrees, hst, rfl⟩
  | @turn program next read s s' u hturn hnext ih =>
      have hrest := rest_of_again hturn
      have hopen : Open word more s t := ⟨hst, fun _ => hrest⟩
      obtain ⟨turn', t', hturn', hrel, hst', hhead⟩ := tracks_programStep hagrees hopen hpaced
        (.again next) s' hturn (hnext.quiet hquiet)
      cases hrel with
      | again hnext' =>
          have hpaced' := (moves_programStep hturn).paced hpaced
          obtain ⟨read', v, hreaches, hread, huv, hhead'⟩ := ih hnext' hst' hpaced' hquiet
          exact ⟨read', v, .turn hturn' hreaches, hread, huv, hhead'.trans hhead⟩

end Reaches

/-- At the end of the input the program has been read. -/
theorem iterate_of_end (program : Program) (hrest : s.rest = []) :
    (iterate programStep program).run s = (.ok program, s) := by
  have hdone : programStep program s =
      (pure (.done program) : Parse (Turn Program Program)) s := by
    show (if s.atEnd = true then _ else _ : Parse (Turn Program Program)) s = _
    rw [if_pos (State.atEnd_iff.2 hrest)]
  exact iterate_of_done advances_programStep hdone

/-- Turns lead to the end of the input from every state. -/
theorem reaches_end (program : Program) (s : State) :
    ∃ read u, Reaches program s read u ∧ u.rest = [] ∧
      (iterate programStep program).run s = (.ok read, u) := by
  induction hlength : s.rest.length using Nat.strongRecOn generalizing s program with
  | _ length ih =>
  subst hlength
  by_cases hrest : s.rest = []
  · exact ⟨program, s, .refl program s, hrest, iterate_of_end program hrest⟩
  · obtain ⟨next, t, hturn⟩ := programStep_again program hrest
    have hless : t.rest.length < s.rest.length := by
      have hadvances := advances_programStep program s
      unfold Ends at hadvances
      rwa [hturn] at hadvances
    obtain ⟨read, u, hreaches, hend, hrun⟩ := ih _ hless next t rfl
    refine ⟨read, u, .turn hturn hreaches, hend, ?_⟩
    rw [← hrun]
    exact iterate_of_next advances_programStep hturn

/-- What turns have read at the end of the input is what is read of the tokens. -/
theorem Reaches.parse_eq {tokens : List Token} {read : Program}
    (h : Reaches .empty (.start tokens) read u) (hend : u.rest = []) :
    parse tokens = ⟨read, u.diagnostics.reverse⟩ := by
  have hrun : program.run (.start tokens) = (.ok read, u) :=
    h.iterate_eq.trans (iterate_of_end read hend)
  unfold parse
  rw [hrun]
  rfl

/-- Tokens that are read in silence lead the reader of tokens abreast of them through the same
program, and up to what is behind it. -/
theorem exists_reaches_of_silent {tokens tokens' : List Token}
    (h : Abreast word more (.start tokens) (.start tokens'))
    (hsilent : (parse tokens).diagnostics = []) (hdetached : Detached more (parse tokens).program) :
    ∃ read v, Reaches .empty (.start tokens') read v ∧ (parse tokens).program.Agrees word read ∧
      v.rest = more.tokens ∧ v.stop = more.stop ∧ v.inHead = false ∧ v.diagnostics = [] ∧
      v.nextId = (Grammar.program.run (.start tokens)).2.nextId := by
  obtain ⟨read, u, hreaches, hend, hrun⟩ := reaches_end .empty (.start tokens)
  have hprogram : Grammar.program.run (.start tokens) = (.ok read, u) := hrun
  rw [hreaches.parse_eq hend] at hsilent hdetached ⊢
  have hquiet : Quiet more read u := ⟨List.reverse_eq_nil_iff.1 hsilent, fun _ => hdetached⟩
  obtain ⟨read', v, hreaches', hagrees, hst, hhead⟩ := hreaches.abreast (.refl .empty) h
    (State.paced_start tokens) hquiet
  obtain ⟨ahead, hrest, htokens⟩ := hst.rest
  rw [hend] at htokens
  cases htokens
  refine ⟨read', v, hreaches', hagrees, hrest, hst.stop.1, hst.inHead.trans hhead, hst.silent', ?_⟩
  rw [hprogram]
  exact hst.nextId

end ComponentLang.Grammar

/-! ## One program after another

Items are read one by one, and an item that ends with a semicolon ends there whatever comes next.
When the tokens of a program without problems are followed by others, its items are read as they are
without them, and then the others are read as they are by themselves. Only a row of exports reaches
further: every export that is exported again takes a semicolon of its own. -/

namespace ComponentLang.Grammar

open Parse
open State (Abreast)

variable {first : List Token}

/-- More turns are allowed when there are more tokens. -/
theorem Plain.limit_append (h : Plain first) (rest : List Token) :
    (State.start first).iterationLimit ≤ (State.start (first ++ rest)).iterationLimit := by
  have hfirst := h.filter_append []
  rw [List.append_nil, List.filter_nil, List.append_nil] at hfirst
  unfold State.start
  dsimp only
  rw [h.filter_append, hfirst]
  cases rest.filter fun t => !t.kind.isError with
  | nil => rw [List.append_nil]
  | cons next others =>
      rw [List.length_append, List.length_cons]
      split <;> split <;> omega

/-- The programs that are read begin abreast. -/
theorem Plain.abreast (h : Plain first) (hlast : ∀ final ∈ first.getLast?, final.kind = .semicolon)
    (rest : List Token) :
    Abreast (fun _ => False)
      ⟨(State.start rest).rest, (State.start (first ++ rest)).stop, True, fun _ => trivial⟩
      (.start first) (.start (first ++ rest)) := by
  have hrest := h.rest_append []
  rw [List.append_nil] at hrest
  have hfirst : (State.start first).rest = first := hrest.trans (List.append_nil first)
  refine ⟨⟨first, h.rest_append rest, ?_⟩, fun _ => ?_, ⟨rfl, fun hopen => absurd trivial hopen⟩, rfl,
    rfl, rfl, rfl, h.limit_append rest, rfl, rfl⟩
  · rw [hfirst]
    exact List.forall₂_same.2 fun t _ => .refl t
  · rwa [hfirst]

end ComponentLang.Grammar
