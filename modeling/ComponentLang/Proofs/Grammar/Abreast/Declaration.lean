import ComponentLang.Proofs.Grammar.Abreast.Block
import ComponentLang.Proofs.Grammar.Abreast.Simple

/-!
# Declarations, abreast

An export ends as the statement does that it exports, and perhaps with the semicolon that follows.
Everything else that may be declared ends with its bracket.
-/
namespace ComponentLang.Grammar

open Parse
open State (Abreast Open)

variable {word : String → Prop} {more : Beyond} {s t : State}
variable {statement statement' : Parse Stmt} (hstatement : Pursued word more statement statement')

include hstatement

/-! ## Functions -/

theorem tracks_function {modifiers : List String} (hst : Open word more s t) :
    Tracks Silent (Open word more) (Agrees word .function) (function statement modifiers)
      (function statement' modifiers) s t := by
  unfold function
  apply tracks_here_bind hst
  apply tracks_bind (mirrors_eat hst (by simp))
  rintro async _ s₁ t₁ rfl hst₁
  apply tracks_bind (mirrors_functionWord hst₁)
  rintro _ _ s₂ t₂ - hst₂
  apply tracks_expectIdentifier_bind hst₂
  intro _ hst₃
  apply tracks_expect_bind hst₃ (by simp)
  intro _ _ _ hst₄
  apply tracks_bind (mirrors_commaSeparated hst₄ fun hst' => mirrors_param hst')
  intro params params' s₅ t₅ hparams hst₅
  apply tracks_expect_bind hst₅ (by simp)
  intro _ _ _ hst₆
  apply tracks_bind (mirrors_typeExpr? hst₆)
  intro returnType returnType' s₇ t₇ hreturn hst₇
  apply tracks_bind_silent (tracks_block hstatement hst₇) id
    fun _ => keeps_spanFrom_bind fun _ => keeps_pure _
  intro body body' u v hbody huv
  apply tracks_spanFrom_bind huv.toAbreast
  exact tracks_pure huv (agrees_function hparams hreturn hbody)

theorem tracks_method (hst : Open word more s t) :
    Tracks Silent (Open word more) (Agrees word .stmt) (method statement) (method statement')
      s t := by
  unfold method
  apply tracks_here_bind hst
  apply tracks_expectIdentifier_bind hst
  intro _ hnext
  apply tracks_bind_silent (tracks_block hstatement hnext) id
    fun _ => keeps_spanFrom_bind fun _ => keeps_pure _
  intro body body' u v hbody huv
  apply tracks_spanFrom_bind huv.toAbreast
  exact tracks_pure huv (agrees_functionDecl (agrees_function .nil .none hbody))

/-! ## Components -/

omit hstatement in
/-- The statements agree, and so does the markup. -/
structure Members.Agrees (word : String → Prop) (members members' : Members) : Prop where
  statements : AgreesAll word .stmt members.statements members'.statements
  body : AgreesAll word .markup members.body members'.body

omit hstatement in
theorem Members.Agrees.concat {members members' : Members} {stmt stmt' : Stmt}
    (h : members.Agrees word members') (hstmt : ComponentLang.Agrees word .stmt stmt stmt') :
    Members.Agrees word { members with statements := members.statements ++ [stmt] }
      { members' with statements := members'.statements ++ [stmt'] } :=
  ⟨h.statements.concat hstmt, h.body⟩

omit hstatement in
theorem Members.Agrees.append {members members' : Members} {items items' : List Markup}
    (h : members.Agrees word members') (hitems : AgreesAll word .markup items items') :
    Members.Agrees word { members with body := members.body ++ items }
      { members' with body := members'.body ++ items' } :=
  ⟨h.statements, h.body.append hitems⟩

/-- Neither of the members had a problem, and what has been read agrees. -/
structure Members.ReadAlike (word : String → Prop) (read read' : Members × Option Problem) :
    Prop where
  problem : read.2 = none
  problem' : read'.2 = none
  members : read.1.Agrees word read'.1

/-- A member that was read without a problem. -/
abbrev SoundMember (more : Beyond) (read : Members × Option Problem) (u : State) : Prop :=
  read.2 = none ∧ Shut more read u

theorem tracks_member {members members' : Members} (h : members.Agrees word members')
    (hst : Open word more s t) (hkind : s.kind ≠ .semicolon) :
    Tracks (SoundMember more) (Abreast word more)
      (Members.ReadAlike word) (member statement members) (member statement' members') s t := by
  have hadded : ∀ {stmt stmt' : Stmt} {s t : State}, Agrees word .stmt stmt stmt' →
      Abreast word more s t → Tracks (SoundMember more) (Abreast word more)
        (Members.ReadAlike word)
        (pure ({ members with statements := members.statements ++ [stmt] }, none))
        (pure ({ members' with statements := members'.statements ++ [stmt'] }, none)) s t :=
    fun hstmt hst => tracks_pure hst ⟨rfl, rfl, h.concat hstmt⟩
  have hread : Tracks (SoundMember more) (Abreast word more)
      (Members.ReadAlike word) (do
        let stmt ← statement
        return ({ members with statements := members.statements ++ [stmt] }, none)) (do
        let stmt ← statement'
        return ({ members' with statements := members'.statements ++ [stmt] }, none)) s t := by
    apply tracks_bind_if (hstatement.tracks hst)
    · intro stmt s' c u hrun hend
      cases hrun
      exact hend.2.parted
    · exact hadded
  unfold member
  apply tracks_get_bind
  rw [hst.kind]
  split
  · apply tracks_bind_if (tracks_renderSection hst hkind)
    · intro run s' c u hrun hend
      cases hrun
      exact hend.1
    · intro run run' s' t' hrun hst'
      exact tracks_pure hst'.toAbreast ⟨hrun.problem, hrun.problem', h.append hrun.items⟩
  · apply tracks_bind (mirrors_tag hst)
    intro tag tag' s' t' htag hst'
    refine tracks_pure hst'.toAbreast ⟨rfl, rfl, h.append ?_⟩
    intro hclear
    rw [htag.markup (hclear _ List.mem_cons_self)]
  next hname =>
    rw [hst.secondKind (by simp [hname]) hkind]
    split
    · apply tracks_bind_silent (tracks_method hstatement hst) (fun hend => hend.2.1)
        fun _ => keeps_pure _
      intro stmt stmt' s' t' hstmt hst'
      exact hadded hstmt hst'.toAbreast
    · exact hread
  · exact hread

theorem tracks_recoveringMember {members members' : Members} (h : members.Agrees word members')
    (hst : Open word more s t) (hkind : s.kind ≠ .semicolon) :
    Tracks (Shut more) (Abreast word more) (Members.Agrees word)
      (recoveringMember statement members) (recoveringMember statement' members') s t := by
  have hloud : ∀ {members c : Members} {problem : Problem} {s' u : State}, (do
      let placeholder ← recover problem
      return { members with statements := members.statements ++ [placeholder] } :
        Parse Members).run s' = (.ok c, u) → ¬ u.diagnostics = [] := by
    intro members c problem s' u hrun hsilent
    obtain ⟨placeholder, w, hrecover, hpure⟩ := run_bind_ok.1 hrun
    cases hpure
    apply not_silent_recover problem s'
    rw [hrecover]
    exact hsilent
  unfold recoveringMember
  apply tracks_attempt_bind (tracks_member hstatement h hst hkind)
  · rintro ⟨read, problem⟩ s' c u hrun hend
    cases problem with
    | none =>
        cases hrun
        exact ⟨rfl, hend⟩
    | some problem => exact absurd hend.1 (hloud hrun)
  · rintro ⟨read, _⟩ ⟨read', _⟩ s' t' ⟨rfl, rfl, hread⟩ hst'
    exact tracks_pure hst' hread
  · intro e s' c u hrun hend
    exact hloud hrun hend.1

theorem keeps_member {members : Members} : Keeps (member statement members) := by
  unfold member
  apply keeps_get_bind
  intro s
  split
  · exact keeps_bind (keeps_of_builds builds_renderSection) fun _ => keeps_pure _
  · exact keeps_bind (keeps_of_builds builds_tag) fun _ => keeps_pure _
  · exact keeps_ite_bind (keeps_of_builds (builds_method hstatement.builds))
      (keeps_of_builds hstatement.builds) fun _ => keeps_pure _
  · exact keeps_bind (keeps_of_builds hstatement.builds) fun _ => keeps_pure _

theorem keeps_memberStep {members : Members} : Keeps (memberStep statement members) := by
  have hplaceholder : ∀ {members : Members} {problem : Problem}, Keeps (do
      let placeholder ← recover problem
      return { members with statements := members.statements ++ [placeholder] }) :=
    keeps_bind keeps_recover fun _ => keeps_pure _
  have hmember : Keeps (recoveringMember statement members) := by
    unfold recoveringMember
    apply keeps_bind (keeps_attempt (keeps_member hstatement))
    rintro (problem | ⟨members, problem | problem⟩)
    · exact hplaceholder
    · exact keeps_pure _
    · exact hplaceholder
  unfold memberStep
  apply keeps_get_bind
  intro s
  split
  · exact keeps_pure _
  · apply keeps_eat_if (keeps_pure _)
    apply keeps_bind hmember
    intro members
    exact keeps_bind (keeps_ensureProgress _) fun _ => keeps_pure _

theorem tracks_memberStep {members members' : Members} (h : members.Agrees word members')
    (hst : Open word more s t) :
    Tracks (Shut more) (Open word more) (Turn.Rel (Members.Agrees word) (Members.Agrees word))
      (memberStep statement members) (memberStep statement' members') s t := by
  unfold memberStep
  apply tracks_get_bind
  rw [hst.kind, hst.atEnd]
  split
  next => exact tracks_done hst h
  next hend =>
    have hpos : 0 < s.rest.length := by
      apply State.length_pos_of_not_atEnd
      intro hatEnd
      exact hend (by rw [hatEnd, Bool.or_true])
    apply tracks_eat_bind hst
    · intro _ hnext
      rw [if_pos rfl, if_pos rfl]
      intro turned u hrun hshut
      cases hrun
      exact ⟨.again members', _, rfl, .again h, ⟨hnext, hshut.2⟩, rfl⟩
    · intro hkind
      rw [if_neg Bool.false_ne_true, if_neg Bool.false_ne_true]
      exact tracks_turn hst hpos (tracks_recoveringMember hstatement h hst hkind) .again

theorem tracks_component {modifiers : List String} (hst : Open word more s t)
    (hkind : s.kind ≠ .semicolon) :
    Tracks Silent (Open word more) (Agrees word .component) (component statement modifiers)
      (component statement' modifiers) s t := by
  unfold component
  apply tracks_advance_bind hst hkind
  intro token htoken hnext
  rw [htoken.span]
  apply tracks_expectIdentifier_bind hnext
  intro _ hst₁
  apply tracks_expect_bind hst₁ (by simp)
  intro _ _ _ hst₂
  apply tracks_bind_if (tracks_closedLoop (R := Members.Agrees word) hst₂
    (fun h hst' => tracks_memberStep hstatement h hst') (fun _ => keeps_memberStep hstatement) ?_
    ⟨fun _ => rfl, fun _ => rfl⟩)
  · intro members s' b u hrun hsilent
    exact shut_of_expect (by simp) (fun _ => keeps_spanFrom_bind fun _ => keeps_pure _) hrun
      hsilent
  · intro members members' s' t' h hst'
    apply tracks_expect_bind hst' (by simp)
    intro _ _ _ hlast
    apply tracks_spanFrom_bind hlast.toAbreast
    exact tracks_pure hlast (agrees_component h.statements h.body)
  · intro members s' hnil
    refine ⟨members, ?_⟩
    unfold memberStep
    show (if _ then _ else _ : Parse _) s' = _
    rw [if_pos (by simp [State.atEnd, hnil])]
    rfl

/-! ## Declarations that may be exported -/

theorem tracks_declaration (hst : Open word more s t) :
    Tracks Silent (Open word more)
      (Sum.LiftRel (Agrees word .function) (Agrees word .component)) (declaration statement)
      (declaration statement') s t := by
  unfold declaration
  apply tracks_bind (mirrors_modifiers hst)
  rintro modifiers _ s' t' rfl hst'
  apply tracks_kind_bind hst'
  split
  case h_1 hkind =>
    exact tracks_map (tracks_component hstatement hst' (State.ne_of_kind hkind (by simp))) .inr
  case h_2 | h_3 | h_4 => exact tracks_map (tracks_function hstatement hst') .inl
  case h_5 => exact tracks_unexpected

theorem tracks_exportItem (hst : Open word more s t) :
    Tracks (fun item u => Parted more item.isExport u) (Abreast word more)
      (Agrees word ExportItem.part) (exportItem statement) (exportItem statement') s t := by
  unfold exportItem
  apply tracks_kind_bind hst
  split
  · apply tracks_bind_silent (tracks_declaration hstatement hst) And.left
    · intro declared
      cases declared <;> exact keeps_pure _
    · intro declared declared' s' t' hagrees hst'
      cases hagrees with
      | inl h => exact tracks_pure hst'.toAbreast fun hclear => congrArg _ (h hclear)
      | inr h => exact tracks_pure hst'.toAbreast fun hclear => congrArg _ (h hclear)
  · apply tracks_map ((hstatement.tracks hst).mono _ (fun _ h => h) id)
    · exact fun h hclear => congrArg _ (h hclear)
    · exact fun hend => ⟨hend.1, fun hexport => hend.2 (Bool.and_eq_true_iff.1 hexport).1⟩

theorem tracks_exportDecl (hst : Open word more s t) (hkind : s.kind ≠ .semicolon) :
    Tracks (fun export_ u => Parted more export_.item.isExport u) (Abreast word more)
      (Agrees word .exportDecl) (exportDecl statement) (exportDecl statement') s t := by
  unfold exportDecl
  apply tracks_advance_bind hst hkind
  intro token htoken hnext
  rw [htoken.span]
  apply tracks_bind (mirrors_eat hnext (by simp))
  rintro isDefault _ s₁ t₁ rfl hst₁
  apply tracks_bind_if (tracks_exportItem hstatement hst₁)
  · intro item s' c u hrun hend
    cases hrun
    exact hend
  · intro item item' s' t' hitem hst'
    apply tracks_spanFrom_bind hst'
    exact tracks_pure hst' (agrees_export hitem)

end ComponentLang.Grammar
