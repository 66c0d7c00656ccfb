import ComponentLang.Proofs.Grammar.Rendering.Block

/-!
# Functions, components and exports, read elsewhere

Their own blocks are in braces wherever they stand. The bodies in them are those of the statements
in them.
-/
namespace ComponentLang.Grammar

open Parse
open Renderable (reread tame whole)

variable {all : List Token} {s : State} {B : List Span} {F : Follow} {G : Front}

instance : Renderable Function where
  reread w := Remap.function (· + w.offset) w.span

instance : Renderable Component where
  reread w := Remap.component (· + w.offset) w.span

instance : Renderable ExportItem where
  reread w := Remap.exportItem (· + w.offset) w.span

instance : Renderable Export where
  reread w := Remap.exportDecl (· + w.offset) w.span

instance : AllWhole Function := ⟨fun _ => trivial⟩
instance : AllWhole Component := ⟨fun _ => trivial⟩
instance : AllWhole ExportItem := ⟨fun _ => trivial⟩
instance : AllWhole Export := ⟨fun _ => trivial⟩

instance {α β : Type} [Renderable α] [Renderable β] : Renderable (α ⊕ β) where
  reread w := Sum.map (reread w) (reread w)
  tame all := Sum.elim (tame all) (tame all)
  whole := Sum.elim whole whole

instance {α β : Type} [Renderable α] [Renderable β] [AllWhole α] [AllWhole β] : AllWhole (α ⊕ β) :=
  ⟨fun
    | .inl a => AllWhole.whole a
    | .inr b => AllWhole.whole b⟩

/-- Members up to a problem are not all that was to be read. -/
instance : Renderable (Option Problem) where
  reread _ problem := problem
  whole problem := problem = none

instance : Renderable Members where
  reread w members := ⟨reread w members.statements, reread w members.body⟩

instance : AllWhole Members := ⟨fun _ => trivial⟩

abbrev functionBodies (f : Function) : List Span := (TreePart.function f).bodies

abbrev componentBodies (c : Component) : List Span := (TreePart.component c).bodies

section Statement

variable {statement : Parse Stmt} (h : Restating all statement)

include h

/-! ## Functions -/

theorem renders_function {names : List String} :
    RendersFinal all functionBodies B .any G (function statement names)
      (fun _ => function statement names) s := by
  have htail : ∀ (async : Bool) {u : State} {B : List Span} {G : Front},
      RendersFinal all functionBodies B .any G (do
        functionWord
        let name ← expectIdentifier .functionName
        let _ ← expect .lparen .paramsStart
        let params ← commaSeparated .rparen param
        let _ ← expect .rparen .paramsEnd
        let returnType ← typeExpr?
        let body ← block statement .brace
        let span ← spanFrom s.here
        return { name, params, returnType, body, isAsync := async || names.contains "async",
                 modifiers := names, span }) (fun w => do
        functionWord
        let name ← expectIdentifier .functionName
        let _ ← expect .lparen .paramsStart
        let params ← commaSeparated .rparen param
        let _ ← expect .rparen .paramsEnd
        let returnType ← typeExpr?
        let body ← block statement .brace
        let span ← spanFrom (w.span s.here)
        return { name, params, returnType, body, isAsync := async || names.contains "async",
                 modifiers := names, span }) u := by
    intro async u B G
    apply renders_bind_open renders_functionWord
    intro _ u₁ _ _
    refine renders_expectIdentifier_bind fun hname => ?_
    refine renders_expect_bind rfl fun _ => ?_
    apply Renders.anyFront (G := .clear)
    apply renders_bind_solid
    · exact renders_commaSeparated (m := fun _ => []) fun _ _ => renders_param
    intro params u₂ _ _
    refine renders_expect_bind rfl fun hclose => ?_
    apply renders_bind_solid renders_typeExpr?
    intro returnType u₃ hu₃ _
    have hprevious := hu₃.previous_ne (State.previous_next_ne (by simp [hclose]))
    apply renders_bind (renders_block h)
    intro body u₄ hu₄ _
    refine renders_spanFrom_bind (hu₄.previous_ne hprevious) ?_
    refine renders_pure (a := Function.mk _ params returnType body _ names _)
      (fun place hplace => ?_) fun _ => trivial
    rw [functionBodies, TreePart.bodies_function] at hplace
    exact List.mem_append_left _ hplace
  unfold function
  apply renders_here_bind
  refine renders_eat_bind rfl ?_ ?_
  · exact fun _ => htail true
  · exact fun _ => htail false

/-- What follows the name of a method. -/
def afterMethodName (statement : Parse Stmt) (start : Span) (name : String) : Parse Stmt := do
  let body ← block statement .brace
  let span ← spanFrom start
  return .functionDecl span
    { name, params := [], returnType := none, body, isAsync := false, modifiers := [], span }

theorem renders_afterMethodName {start : Span} {name : String} (hs : s.previous ≠ none) :
    RendersFinal all stmtBodies B .any .solid
      (afterMethodName statement start name)
      (fun w => afterMethodName statement (w.span start) name) s := by
  unfold afterMethodName
  apply renders_bind (renders_block h)
  intro body u hu _
  refine renders_spanFrom_bind (hu.previous_ne hs) ?_
  refine renders_pure (a := Stmt.functionDecl _ ⟨name, [], none, body, false, [], _⟩)
    (fun place hplace => ?_) fun _ => trivial
  refine List.mem_append_left _ ?_
  simpa [TreePart.bodies_stmt, Stmt.bodies, Stmt.children] using hplace

omit h in
theorem method_eq (hkind : s.kind = .identifier) : method statement s =
    (advance >>= fun _ => afterMethodName statement s.here s.peek.lexeme) s := by
  unfold method expectIdentifier
  rw [here_bind, bind_assoc, expect_bind hkind]
  rfl

/-! ## Members of components -/

/-- The places of the bodies in the statements of a component. -/
abbrev memberBodies (members : Members) : List Span := stmtsBodies members.statements

omit h in
theorem render_statements (w : Rendering all) (members : Members) (stmt : Stmt) :
    { reread w members with statements := (reread w members).statements ++ [reread w stmt] } =
      reread w { members with statements := members.statements ++ [stmt] } :=
  congrArg (Members.mk · _) (Renderable.render_concat w members.statements stmt)

omit h in
theorem render_body (w : Rendering all) (members : Members) (items : List Markup) :
    { reread w members with body := (reread w members).body ++ reread w items } =
      reread w { members with body := members.body ++ items } :=
  congrArg (Members.mk _) (List.map_append).symm

omit h in
theorem member_of_render {members : Members} (hkind : s.kind = .keyword .renderKw) :
    member statement members s = (do
      let run ← renderSection
      return ({ members with body := members.body ++ run.items }, run.problem) :
        Parse (Members × Option Problem)) s := by
  unfold member
  rw [get_bind, hkind]

omit h in
theorem member_of_tag {members : Members} (hkind : s.kind = .tagOpen) :
    member statement members s = (do
      return ({ members with body := members.body ++ [.tag (← tag)] }, none) :
        Parse (Members × Option Problem)) s := by
  unfold member
  rw [get_bind, hkind]

omit h in
theorem member_of_method {members : Members} (hkind : s.kind = .identifier)
    (hsecond : s.secondKind = .lbrace) : member statement members s = (do
      let stmt ← method statement
      return ({ members with statements := members.statements ++ [stmt] }, none) :
        Parse (Members × Option Problem)) s := by
  unfold member
  rw [get_bind, hkind]
  exact congrFun (if_pos hsecond) s

omit h in
theorem member_of_statement {members : Members} (hrender : s.kind ≠ .keyword .renderKw)
    (htag : s.kind ≠ .tagOpen) (hmethod : s.kind = .identifier → s.secondKind ≠ .lbrace) :
    member statement members s = (do
      let stmt ← statement
      return ({ members with statements := members.statements ++ [stmt] }, none) :
        Parse (Members × Option Problem)) s := by
  unfold member
  rw [get_bind]
  generalize s.kind = kind at hrender htag hmethod
  cases kind with
  | tagOpen => exact absurd rfl htag
  | identifier => exact congrFun (if_neg (hmethod rfl)) s
  | keyword word =>
    cases word with
    | renderKw => exact absurd rfl hrender
    | _ => rfl
  | _ => rfl

omit h in
/-- A statement more has the bodies in it. -/
theorem renders_withStatement {members : Members} {stmt : Stmt} :
    RendersFinal all (fun read => memberBodies read.1) (stmtBodies stmt ++ memberBodies members)
      .unopened .clear
      (pure ({ members with statements := members.statements ++ [stmt] }, none) :
        Parse (Members × Option Problem))
      (fun w => pure ({ reread w members with
        statements := (reread w members).statements ++ [reread w stmt] }, none)) s := by
  simp only [render_statements]
  exact renders_pure
    (a := ((⟨members.statements ++ [stmt], members.body⟩ : Members), (none : Option Problem)))
    (fun place hplace => mem_stmtsBodies_concat hplace) fun _ => ⟨trivial, trivial⟩

omit h in
theorem renders_withMarkup {members : Members} (items : List Markup) {problem : Option Problem} :
    RendersFinal all (fun read => memberBodies read.1) ([] ++ memberBodies members) .unopened
      .clear
      (pure ({ members with body := members.body ++ items }, problem) :
        Parse (Members × Option Problem))
      (fun w => pure ({ reread w members with
        body := (reread w members).body ++ reread w items }, problem)) s := by
  simp only [render_body]
  exact renders_pure (a := ((⟨members.statements, members.body ++ items⟩ : Members), problem))
    (fun _ hplace => hplace) fun _ => ⟨trivial, trivial⟩

omit h in
theorem renders_renderMember {members : Members} (hkind : s.kind = .keyword .renderKw) :
    RendersFinal all (fun read => memberBodies read.1) (memberBodies members) .unopened G
      (member statement members) (fun w => member statement (reread w members)) s := by
  have hrender : RendersFinal all (fun read => memberBodies read.1)
      (memberBodies members) .unopened .solid (do
        let run ← renderSection
        return ({ members with body := members.body ++ run.items }, run.problem) :
          Parse (Members × Option Problem))
      (fun w => do
        let run ← renderSection
        return ({ reread w members with body := (reread w members).body ++ run.items },
          run.problem)) s := by
    refine renders_bind_of .clear (renders_renderSection (by simp [hkind])).follow ?_ ?_
      (fun _ _ hG hF => Follow.holds_clear _ hG hF) fun _ _ hG hG' => Front.holds_append _ hG hG'
    · intro run u c v _ hrun _ hc
      cases hrun
      exact hc.2
    · exact fun run u _ _ => renders_withMarkup run.items
  refine (hrender.of_eq (member_of_render hkind) fun w taken ahead t _ hsolid _ hsees => ?_).front
  exact member_of_render ((hsees.kind (Follow.solid.holds_solid hsolid ahead)).trans hkind)

omit h in
theorem renders_tagMember {members : Members} (hkind : s.kind = .tagOpen) :
    RendersFinal all (fun read => memberBodies read.1) (memberBodies members) .unopened G
      (member statement members) (fun w => member statement (reread w members)) s := by
  have htag : RendersFinal all (fun read => memberBodies read.1)
      (memberBodies members) .unopened .solid (do
        return ({ members with body := members.body ++ [.tag (← tag)] }, none) :
          Parse (Members × Option Problem))
      (fun w => do
        return ({ reread w members with body := (reread w members).body ++ [.tag (← tag)] },
          none)) s := by
    apply renders_bind renders_tag.follow
    intro t u _ _
    exact renders_withMarkup [.tag t]
  refine (htag.of_eq (member_of_tag hkind) fun w taken ahead t _ hsolid _ hsees => ?_).front
  exact member_of_tag ((hsees.kind (Follow.solid.holds_solid hsolid ahead)).trans hkind)

theorem renders_methodMember {members : Members} (hkind : s.kind = .identifier)
    (hsecond : s.secondKind = .lbrace) :
    RendersFinal all (fun read => memberBodies read.1) (memberBodies members) .unopened G
      (member statement members) (fun w => member statement (reread w members)) s := by
  have hname : s.kind ≠ .eof := by simp [hkind]
  have hmethod : ∀ {members : Members} {s : State}, s.kind = .identifier →
      s.secondKind = .lbrace → member statement members s = (do
        let _ ← advance
        let stmt ← afterMethodName statement s.here s.peek.lexeme
        return ({ members with statements := members.statements ++ [stmt] }, none) :
          Parse (Members × Option Problem)) s := by
    intro members s hname hbrace
    rw [member_of_method hname hbrace, bind_congr_eq (method_eq hname), bind_assoc]
  unfold member
  refine renders_get_advance_bind
    (do
      let stmt ← afterMethodName statement s.here s.peek.lexeme
      return ({ members with statements := members.statements ++ [stmt] }, none))
    (fun w => do
      let stmt ← afterMethodName statement (w.span s.here) s.peek.lexeme
      return ({ reread w members with statements := (reread w members).statements ++ [stmt] },
        none)) hname (hmethod hkind hsecond) ?_ ?_
  · intro w t hpeek hsecond'
    have hlexeme : t.peek.lexeme = s.peek.lexeme := by rw [hpeek]
    have hhere : t.here = w.span s.here := by rw [State.here, hpeek, State.here]
    rw [← hlexeme, ← hhere]
    exact hmethod ((congrArg Token.kind hpeek).trans hkind) (hsecond'.trans hsecond)
  · apply renders_bind (renders_afterMethodName h (State.previous_next_ne hname)).follow
    exact fun stmt u _ _ => renders_withStatement

theorem renders_member {members : Members} (hs : s.previous ≠ none) :
    RendersFinal all (fun read => memberBodies read.1) (memberBodies members)
      .unopened G (member statement members) (fun w => member statement (reread w members)) s := by
  by_cases hkind : s.kind = .keyword .renderKw
  · exact renders_renderMember hkind
  by_cases hkind' : s.kind = .tagOpen
  · exact renders_tagMember hkind'
  by_cases hkind'' : s.kind = .identifier ∧ s.secondKind = .lbrace
  · exact renders_methodMember h hkind''.1 hkind''.2
  have hmethod : s.kind = .identifier → s.secondKind ≠ .lbrace :=
    fun hname hsecond => hkind'' ⟨hname, hsecond⟩
  have hstatement : RendersFinal all (fun read => memberBodies read.1)
      (memberBodies members) .unopened G (do
        let stmt ← statement
        return ({ members with statements := members.statements ++ [stmt] }, none) :
          Parse (Members × Option Problem))
      (fun w => do
        let stmt ← statement
        return ({ reread w members with statements := (reread w members).statements ++ [stmt] },
          none)) s := by
    apply renders_bind (h.renders hs)
    exact fun stmt u _ _ => renders_withStatement
  refine hstatement.of_eq (member_of_statement hkind hkind' hmethod) ?_
  intro w taken ahead t hw _ _ hsees
  refine member_of_statement ?_ ?_ ?_
  · exact fun hrender => hkind ((hsees.kind_iff rfl).1 hrender)
  · exact fun htag => hkind' ((hsees.kind_iff rfl).1 htag)
  · exact fun hname => hsees.secondKind_ne hw (by simp [hname]) rfl
      (hmethod ((hsees.kind_iff rfl).1 hname))

theorem renders_recoveringMember {members : Members} (hs : s.previous ≠ none) :
    RendersFinal all memberBodies (memberBodies members) .unopened G
      (recoveringMember statement members)
      (fun w => recoveringMember statement (reread w members)) s := by
  have hspoils : ∀ {members : Members} {problem : Problem} (u : State), Spoils all (do
      let placeholder ← recover problem
      return { members with statements := members.statements ++ [placeholder] } :
        Parse Members) u := by
    intro members problem u
    exact reports_recover.spoils_bind fun _ v => ⟨.refl v, trivial⟩
  unfold recoveringMember
  apply renders_attempt_bind (renders_member h hs)
  · rintro ⟨read, problem⟩ u c v hrun hsilent _
    refine ⟨trivial, ?_⟩
    cases problem with
    | none => rfl
    | some problem =>
      obtain ⟨_, _, hread, hrun'⟩ := run_bind_ok.1 hrun
      cases hread
      obtain ⟨placeholder, v', hrecover, hpure⟩ := run_bind_ok.1 hrun'
      cases hpure
      have hreported := not_silent_recover problem u
      rw [hrecover] at hreported
      exact absurd hsilent hreported
  · rintro ⟨read, problem⟩ u _ _
    cases problem with
    | none =>
      exact renders_pure (a := read)
        (fun _ hplace => List.mem_append_left _ hplace) fun _ => trivial
    | some problem => exact (hspoils u).renders
  · exact fun problem u _ => hspoils u

theorem renders_memberStep {members : Members} (hs : s.previous ≠ none) :
    RendersFinal all (Turn.bodies memberBodies memberBodies)
      (memberBodies members) .solid .clear (memberStep statement members)
      (fun w => memberStep statement (reread w members)) s := by
  have hsame : ∀ (w : Rendering all) (taken ahead : List (Taken all)) t, w.Final →
      Clear taken → Solid ahead → w.Sees (taken ++ ahead) s t →
      (t.kind = .rbrace || t.atEnd : Bool) = (s.kind = .rbrace || s.atEnd : Bool) := by
    intro w taken ahead t hw hclear hsolid hsees
    rw [hsees.kind (Follow.solid.holds_clear hclear hsolid), hsees.atEnd_eq hw]
  unfold memberStep
  by_cases hend : (s.kind = .rbrace || s.atEnd : Bool) = true
  · refine renders_get_bind (q := fun w => pure (.done (reread w members))) ?_ ?_
    · rw [if_pos hend]
      exact renders_done (fun _ => trivial) fun _ hplace => hplace
    · intro w taken ahead t hw hclear hsolid hsees
      rw [if_pos ((hsame w taken ahead t hw hclear hsolid hsees).trans hend)]
  · refine renders_get_bind (q := fun w => do
      if ← eat .semicolon then return .again (reread w members)
      else
        let members ← recoveringMember statement (reread w members)
        ensureProgress s.rest.length
        return .again members) ?_ ?_
    · rw [if_neg hend]
      refine renders_eat_bind_solid rfl ?_ ?_
      · intro _
        simp only [if_true]
        exact (renders_again (fun _ => trivial) fun _ hplace => hplace).anyFront
      · intro _
        simp only [Bool.false_eq_true, if_false]
        apply renders_bind (renders_recoveringMember h hs).solid
        intro read u _ _
        apply renders_bind (renders_ensureProgress _).follow
        intro _ v _ _
        exact renders_again (fun _ => trivial) fun _ hplace =>
          List.mem_append_right _ (List.mem_append_left _ hplace)
    · intro w taken ahead t hw hclear hsolid hsees
      have hend' : ¬ (t.kind = .rbrace || t.atEnd : Bool) = true := by
        rw [hsame w taken ahead t hw hclear hsolid hsees]
        exact hend
      rw [if_neg hend', hsees.length_eq hw]

theorem renders_component {names : List String} (hkind : s.kind ≠ .eof) :
    RendersFinal all componentBodies B .any G (component statement names)
      (fun _ => component statement names) s := by
  unfold component
  refine renders_advance_bind hkind ?_
  refine renders_expectIdentifier_bind fun _ => ?_
  refine renders_expect_bind rfl fun hbrace => ?_
  have hprevious := State.previous_next_ne (s := s.next.next) (by simp [hbrace])
  apply Renders.anyFront (G := .clear)
  apply renders_bind_solid
  · exact renders_iterate (k := memberBodies) _
      (fun members u hu _ => renders_memberStep h (hu.previous_ne hprevious))
      (fun _ => trivial) (List.forall_mem_nil _)
  intro members u _ _
  refine renders_expect_bind rfl fun hclose => ?_
  refine renders_spanFrom_bind (State.previous_next_ne (by simp [hclose])) ?_
  have hcomponent : ∀ (w : Rendering all) (span : Span), Component.mk s.next.peek.lexeme names
      (reread w members).statements (reread w members).body (w.span span) =
        reread w (Component.mk s.next.peek.lexeme names members.statements members.body span) := by
    intro w span
    show _ = Remap.component _ _ _
    rw [Remap.component, Remap.stmts_eq_map, Remap.markups_eq_map]
    rfl
  simp only [hcomponent]
  refine renders_pure (fun place hplace => ?_) fun _ => trivial
  rw [componentBodies, TreePart.bodies_component] at hplace
  exact List.mem_append_left _ hplace

/-! ## Exports -/

theorem renders_declaration :
    RendersFinal all (Sum.elim functionBodies componentBodies) B .any G
      (declaration statement) (fun _ => declaration statement) s := by
  unfold declaration
  apply renders_bind_solid renders_modifiers
  intro names s' _ _
  simp only [Renderable.render_strings]
  apply renders_kind_bind
  split
  case h_1 hkind =>
    refine renders_map (renders_component h (by simp [hkind])) (fun _ _ => rfl) ?_
      (fun _ _ => trivial) fun a _ => AllWhole.whole a
    exact fun _ _ hplace => List.mem_append_left _ hplace
  case h_2 | h_3 | h_4 =>
    refine renders_map (renders_function h) (fun _ _ => rfl) ?_ (fun _ _ => trivial)
      fun a _ => AllWhole.whole a
    exact fun _ _ hplace => List.mem_append_left _ hplace
  case h_5 => exact renders_unexpected

omit h in
theorem Rendering.Sees.startsDeclaration_eq {w : Rendering all} {ahead : List (Taken all)}
    {t : State}
    (h : w.Sees ahead s t) : startsDeclaration t.kind = startsDeclaration s.kind :=
  h.apply_eq rfl rfl fun kind hends => by
    cases kind <;> simp_all [endsOperand, startsDeclaration]

theorem renders_exportItem (hs : s.previous ≠ none) :
    RendersFinal all (fun item => item.part.bodies) B .unopened G
      (exportItem statement) (fun _ => exportItem statement) s := by
  unfold exportItem
  refine renders_kind_bind_of ?_ fun w taken ahead t _ _ _ hsees => by
    rw [hsees.startsDeclaration_eq]
  by_cases hstarts : startsDeclaration s.kind = true
  · simp only [if_pos hstarts]
    apply renders_bind (renders_declaration h).follow
    intro declared u _ _
    cases declared with
    | inl f =>
      exact renders_pure (a := ExportItem.function f)
        (fun _ hplace => List.mem_append_left _ hplace) fun _ => trivial
    | inr c =>
      exact renders_pure (a := ExportItem.component c)
        (fun _ hplace => List.mem_append_left _ hplace) fun _ => trivial
  · simp only [if_neg hstarts]
    exact renders_map (f := ExportItem.statement) (h.renders hs) (fun _ _ => rfl)
      (fun _ _ hplace => List.mem_append_left _ hplace)
      (fun _ _ => trivial) fun a _ => AllWhole.whole a

theorem renders_exportDecl (hkind : s.kind ≠ .eof) :
    RendersFinal all (fun item => (TreePart.exportDecl item).bodies) B
      .unopened G (exportDecl statement) (fun _ => exportDecl statement) s := by
  have hnext := State.previous_next_ne hkind
  unfold exportDecl
  refine renders_advance_bind hkind ?_
  have htail : ∀ (isDefault : Bool) {u : State} {G : Front}, u.previous ≠ none →
      RendersFinal all (fun item => (TreePart.exportDecl item).bodies) B
        .unopened G (do
          let item ← exportItem statement
          return ⟨isDefault, item, ← spanFrom s.peek.span⟩)
        (fun w => do
          let item ← exportItem statement
          return ⟨isDefault, item, ← spanFrom (w.span s.peek.span)⟩) u := by
    intro isDefault u G hu
    apply renders_bind (renders_exportItem h hu)
    intro item v hv _
    refine renders_spanFrom_bind (hv.previous_ne hu) ?_
    refine renders_pure (a := Export.mk isDefault item _) (fun place hplace => ?_) fun _ => trivial
    rw [TreePart.bodies_exportDecl] at hplace
    exact List.mem_append_left _ hplace
  refine renders_eat_bind rfl ?_ ?_
  · exact fun hdefault => htail true (State.previous_next_ne (by simp [hdefault]))
  · exact fun _ => htail false hnext

end Statement

end ComponentLang.Grammar
