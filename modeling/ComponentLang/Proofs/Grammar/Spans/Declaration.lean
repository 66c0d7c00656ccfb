import ComponentLang.Grammar.Declaration
import ComponentLang.Proofs.Grammar.Spans.Expression

/-!
# The places of blocks and declarations

The statements of a block come one after the other, and a placeholder among them is empty and at the
token at which its problem was found. The bracket behind them is at or behind the last of them, so
the block goes around them all.
-/
namespace ComponentLang.Grammar

open Parse ComponentLang.TreePart

variable {source : Source} {lo hi : Nat} {s t u : State}

/-! ## Declarations from their parts -/

theorem State.Advances.stmt {stmt : Stmt} (h : s.Advances source t)
    (heq : stmt.span = t.spanFrom s.here)
    (hannotations : ∀ a ∈ (TreePart.stmt stmt).annotations, a.On source)
    (hchildren : ∀ child ∈ stmt.children, Lies source s.here.start t.reach child) :
    s.Brings source t (.stmt stmt) :=
  h.brings (congrArg some heq) (List.forall_mem_nil _) hannotations (List.forall_mem_nil _)
    hchildren

theorem State.Advances.block {b : Block} (h : s.Advances source t)
    (heq : b.span = t.spanFrom s.here)
    (hstatements : Row source s.here.start t.reach (b.statements.map .stmt)) :
    s.Brings source t (.block b) :=
  h.brings (congrArg some heq) (List.forall_mem_nil _) (List.forall_mem_nil _)
    (List.forall_mem_singleton.2 hstatements.ordered) hstatements.lies

theorem State.Advances.function {f : Function} (h : s.Advances source t)
    (heq : f.span = t.spanFrom s.here) (hparams : ∀ p ∈ f.params, p.span.On source)
    (hannotations : ∀ a ∈ f.annotations, a.On source)
    (hbody : Lies source s.here.start t.reach (.block f.body)) :
    s.Brings source t (.function f) :=
  h.brings (congrArg some heq) hparams hannotations (List.forall_mem_nil _)
    (List.forall_mem_singleton.2 hbody)

theorem State.Advances.component {c : Component} (h : s.Advances source t)
    (heq : c.span = t.spanFrom s.here)
    (hstatements : Row source s.here.start t.reach (c.statements.map .stmt))
    (hbody : Row source s.here.start t.reach (c.body.map .markup)) :
    s.Brings source t (.component c) :=
  h.brings (congrArg some heq) (List.forall_mem_nil _) (List.forall_mem_nil _)
    (List.forall_mem_cons.2 ⟨hstatements.ordered, List.forall_mem_singleton.2 hbody.ordered⟩)
    (List.forall_mem_append.2 ⟨hstatements.lies, hbody.lies⟩)

theorem State.Advances.importDecl {item : Import} (h : s.Advances source t)
    (heq : item.span = t.spanFrom s.here) : s.Brings source t (.importDecl item) :=
  h.brings (congrArg some heq) (List.forall_mem_nil _) (List.forall_mem_nil _)
    (List.forall_mem_nil _) (List.forall_mem_nil _)

theorem State.Advances.exportDecl {item : Export} (h : s.Advances source t)
    (heq : item.span = t.spanFrom s.here)
    (hitem : Lies source s.here.start t.reach item.item.part) :
    s.Brings source t (.exportDecl item) :=
  h.brings (congrArg some heq) (List.forall_mem_nil _) (List.forall_mem_nil _)
    (List.forall_mem_nil _) (List.forall_mem_singleton.2 hitem)

/-! ## Blocks -/

/-- What is read up to a token is covered when that token has been taken. -/
theorem State.Aligned.here_le_reach_next (h : s.Aligned source) (hkind : s.kind ≠ .eof) :
    s.here.start ≤ s.next.reach :=
  h.here_on.start_le.trans (State.reach_next hkind).ge

section Bodies

variable {statement : Parse Stmt} (hstatement : Places source .stmt statement)

include hstatement

theorem spans_blockStep {close : TokenKind} {stmts : List Stmt} (hlo : lo ≤ t.here.start)
    (h : Row source lo t.here.start (stmts.map .stmt)) :
    Spans source (TurnEnds (fun stmts u => Row source lo u.here.start (stmts.map .stmt))
      fun stmts u => Row source lo u.here.start (stmts.map .stmt))
      (blockStep statement close stmts) t := by
  unfold blockStep
  apply spans_get_bind
  split
  · exact spans_pure fun _ => h
  · apply spans_eat_if
    · exact fun _ hnext => spans_pure fun _ => h.mono (Nat.le_refl _) hnext.here_le
    · intro _
      apply spans_bind (spans_recovering hstatement)
      intro stmt u htu hstmt
      apply spans_bind spans_ensureProgress
      intro _ v huv _
      exact spans_pure fun _ =>
        (h.concat hstmt hlo (Nat.le_refl _) htu.here_le).mono (Nat.le_refl _) huv.here_le

theorem places_block {bracket : Bracket} : Places source .block (block statement bracket) := by
  intro s
  apply spans_of_aligned
  intro hs
  unfold block
  apply spans_here_bind
  apply spans_eat_if
  · intro hopen hnext
    apply spans_bind (spans_iterate
      (J := fun stmts t => Row source s.here.start t.here.start (stmts.map .stmt))
      (Q := fun stmts t => Row source s.here.start t.here.start (stmts.map .stmt))
      (fun stmts t hst h => spans_blockStep hstatement (hnext.trans hst).here_le h) row_nil)
    intro stmts t hst hstmts
    apply spans_expect_bind
    intro hclose htnext
    apply spans_spanFrom_bind
    have hend := hst.aligned.here_le_reach_next (hclose ▸ closing_ne_eof bracket)
    have hall := (hs.advances (hopen ▸ opening_ne_eof bracket)).then (hst.trans htnext)
    exact spans_pure fun _ => hall.block rfl (hstmts.mono (Nat.le_refl _) hend)
  · exact fun _ => spans_unexpected

theorem places_body : Places source .block (body statement) := by
  intro s
  unfold body
  apply spans_kind_bind
  split
  · exact places_block hstatement s
  · exact places_block hstatement s
  · exact spans_unexpected

end Bodies

/-! ## Markup of components -/

theorem spans_markupItem (hkind : s.kind ≠ .eof) :
    Spans source (fun item t => s.Brings source t (.markup item)) markupItem s := by
  apply spans_of_aligned
  intro hs
  unfold markupItem
  apply spans_peek_bind
  split
  · exact spans_map (places_tag s) fun tag t _ htag => ⟨htag.taken, lies_markup_tag htag.lies⟩
  · apply spans_advance_bind
    intro hnext
    apply spans_bind (places_expression s.next)
    intro value t _ hvalue
    apply spans_expect_bind
    intro _ htnext
    have hvalue := (hvalue.of_advances (hs.advances hkind)).of_passes htnext
    exact spans_pure fun _ => ⟨hvalue.taken, lies_markup_expr hvalue.lies⟩
  · apply spans_advance_bind
    intro _
    have htaken := (State.reach_next hkind).ge
    exact spans_pure fun _ => ⟨htaken, lies_markup_text hs.here_on (Nat.le_refl _) htaken⟩

/-- The markup read so far is in its place, and so is the problem at which it ended. -/
structure MarkupRun.Placed (source : Source) (lo : Nat) (run : MarkupRun) (t : State) : Prop where
  items : Row source lo t.reach (run.items.map .markup)
  problem : ∀ e ∈ run.problem, Fault source e t

theorem spans_markupRun (hlo : lo ≤ s.here.start) :
    Spans source (MarkupRun.Placed source lo) markupRun s := by
  unfold markupRun
  refine spans_iterate (J := fun items t => Row source lo t.reach (items.map .markup))
    (fun items t hst hitems => ?_) row_nil
  unfold markupStep
  apply spans_kind_bind
  split
  next hstarts =>
    apply spans_attempt_bind (spans_markupItem (State.kind_ne_eof_of hstarts rfl))
    · intro item u htu hitem
      exact spans_pure fun _ =>
        hitems.concat hitem.lies (hlo.trans hst.here_le) hst.aligned.reach_le htu.reach_le
    · intro e u htu he
      refine spans_pure fun _ => ⟨hitems.mono (Nat.le_refl _) htu.reach_le, ?_⟩
      rintro _ ⟨⟩
      exact he
  next => exact spans_pure fun _ => ⟨hitems, nofun⟩

theorem spans_renderSection (hlo : lo ≤ s.here.start) :
    Spans source (MarkupRun.Placed source lo) renderSection s := by
  unfold renderSection
  apply spans_advance_bind
  intro hnext
  apply spans_eat_if
  · exact fun _ hnext' => spans_markupRun (hlo.trans (hnext.trans hnext').here_le)
  · intro _
    apply spans_eat_if
    · intro _ hnext'
      apply spans_bind (spans_markupRun (hlo.trans (hnext.trans hnext').here_le))
      intro run t _ hrun
      split
      · exact spans_pure fun _ => hrun
      next hnone =>
        have hproblem : run.problem = none := by simpa using hnone
        apply spans_attempt_bind spans_expect
        · intro _ u htu _
          refine spans_pure fun _ => ⟨hrun.items.mono (Nat.le_refl _) htu.reach_le, ?_⟩
          rw [hproblem]
          exact nofun
        · intro e u htu he
          refine spans_pure fun _ => ⟨hrun.items.mono (Nat.le_refl _) htu.reach_le, ?_⟩
          rintro _ ⟨⟩
          exact he
    · exact fun _ => spans_unexpected

/-! ## Imports and parameters -/

theorem spans_importedNames : Spans source (fun _ _ => True) importedNames s := by
  unfold importedNames
  have hnames : Spans source (fun names _ => ∀ name ∈ names, True)
      (commaSeparated .rbrace (expectIdentifier .importedName)) s := by
    apply spans_commaSeparated
    · exact fun _ _ _ _ _ => trivial
    · intro t _
      rw [← bind_pure (expectIdentifier .importedName)]
      exact spans_expectIdentifier_bind fun _ _ => spans_pure fun _ => trivial
  apply spans_bind hnames
  intro names t _ _
  apply spans_expect_bind
  intro _ _
  exact spans_pure fun _ => trivial

theorem spans_importDecl (hkind : s.kind ≠ .eof) :
    Spans source (fun item t => s.Brings source t (.importDecl item)) importDecl s := by
  apply spans_of_aligned
  intro hs
  have hsource : ∀ (names : List String) (default : Option String) {t : State},
      s.next.Passes source t → Spans source (fun item u => s.Brings source u (.importDecl item)) (do
        if ← eat (.keyword .fromKw) then
          let source ← expect .string .modulePath
          return ⟨names, default, source.lexeme, ← spanFrom s.here⟩
        else unexpected .fromWord) t := by
    intro names default t hst
    apply spans_eat_if
    · intro _ htnext
      apply spans_expect_bind
      intro _ htnext'
      apply spans_spanFrom_bind
      have hall := (hs.advances hkind).then ((hst.trans htnext).trans htnext')
      exact spans_pure fun _ => hall.importDecl rfl
    · exact fun _ => spans_unexpected
  unfold importDecl
  apply spans_advance_bind
  intro hnext
  apply spans_eat_if
  · intro _ hnext'
    apply spans_bind spans_importedNames
    intro names t hst _
    exact hsource names none (hnext'.trans hst)
  · intro _
    apply spans_expectIdentifier_bind
    intro _ hnext'
    exact hsource [] _ hnext'

theorem spans_param : Spans source
    (fun p _ => p.span.On source ∧ ∀ a ∈ p.typeExpr, a.On source) param s := by
  apply spans_of_aligned
  intro hs
  unfold param
  apply spans_here_bind
  apply spans_expectIdentifier_bind
  intro _ _
  apply spans_bind spans_typeExpr?
  intro typeExpr t _ htypeExpr
  apply spans_spanFrom_bind
  exact spans_pure fun ht => ⟨ht.spanFrom_on hs.here_on, htypeExpr⟩

/-! ## Functions -/

theorem spans_functionWord : Spans source (fun _ t => s.here.stop ≤ t.reach) functionWord s := by
  unfold functionWord
  apply spans_eat_if
  · exact fun hkind _ => spans_pure fun _ => (State.reach_next (by simp [hkind])).ge
  · intro _
    apply spans_eat_if
    · exact fun hkind _ => spans_pure fun _ => (State.reach_next (by simp [hkind])).ge
    · exact fun _ => spans_unexpected

/-- The type expressions of a function are those of its parameters and that of its result. -/
theorem on_annotations {f : Function} (hparams : ∀ p ∈ f.params, ∀ a ∈ p.typeExpr, a.On source)
    (hresult : ∀ a ∈ f.returnType, a.On source) : ∀ a ∈ f.annotations, a.On source := by
  refine List.forall_mem_append.2 ⟨fun a ha => ?_, fun a ha => hresult a (Option.mem_toList.1 ha)⟩
  obtain ⟨p, hp, hpa⟩ := List.mem_filterMap.1 ha
  exact hparams p hp a hpa

/-- After some modifiers the next token is the same, or one was taken. -/
theorem spans_modifiers :
    Spans source (fun _ t => t.here = s.here ∨ s.here.stop ≤ t.reach) modifiers s := by
  unfold modifiers
  refine spans_iterate (J := fun _ t => t.here = s.here ∨ s.here.stop ≤ t.reach)
    (fun names t _ h => ?_) (.inl rfl)
  unfold modifierStep
  apply spans_kind_bind
  split
  next hkind =>
    apply spans_advance_bind
    intro hnext
    refine spans_pure fun _ => .inr ?_
    rcases h with h | h
    · rw [← h, State.reach_next (by simp [hkind])]
    · exact h.trans hnext.reach_le
  next => exact spans_pure fun _ => h

/-- A part behind modifiers is brought from the first of them on. -/
theorem State.Brings.of_modifiers {part : TreePart} (h : t.Brings source u part)
    (hs : s.Aligned source) (hst : s.Passes source t)
    (htaken : t.here = s.here ∨ s.here.stop ≤ t.reach) :
    s.Brings source u part := by
  rcases htaken with heq | htaken
  · exact ⟨heq ▸ h.taken, heq ▸ h.lies⟩
  · exact h.of_advances ⟨hst, hs, htaken⟩

section Bodies

variable {statement : Parse Stmt} (hstatement : Places source .stmt statement)

include hstatement

theorem places_function {modifiers : List String} :
    Places source .function (function statement modifiers) := by
  intro s
  apply spans_of_aligned
  intro hs
  have hrest : ∀ (async : Bool) {t : State}, s.Advances source t →
      Spans source (fun f u => s.Brings source u (.function f)) (do
        let name ← expectIdentifier .functionName
        let _ ← expect .lparen .paramsStart
        let params ← commaSeparated .rparen param
        let _ ← expect .rparen .paramsEnd
        let returnType ← typeExpr?
        let body ← block statement .brace
        let span ← spanFrom s.here
        return { name, params, returnType, body, isAsync := async || modifiers.contains "async",
                 modifiers, span }) t := by
    intro async t hst
    apply spans_expectIdentifier_bind
    intro _ h₁
    apply spans_expect_bind
    intro _ h₂
    have hparams : Spans source
        (fun ps _ => ∀ p ∈ ps, p.span.On source ∧ ∀ a ∈ p.typeExpr, a.On source)
        (commaSeparated .rparen param) t.next.next := by
      apply spans_commaSeparated
      · exact fun _ _ _ _ h => h
      · exact fun _ _ => spans_param
    apply spans_bind hparams
    intro params u h₃ hparams
    apply spans_expect_bind
    intro _ h₄
    apply spans_bind spans_typeExpr?
    intro returnType v h₅ hresult
    have hsv := ((((hst.then h₁).then h₂).then h₃).then h₄).then h₅
    apply spans_bind (places_block hstatement v)
    intro body w hvw hbody
    apply spans_spanFrom_bind
    refine spans_pure fun _ => (hsv.then hvw).function rfl (fun p hp => (hparams p hp).1) ?_ ?_
    · exact on_annotations (fun p hp => (hparams p hp).2) hresult
    · exact hbody.lies.mono hsv.here_le (Nat.le_refl _)
  unfold function
  apply spans_here_bind
  apply spans_eat_bind
  · intro hasync _
    apply spans_bind spans_functionWord
    intro _ t hst _
    exact hrest true ((hs.advances (by simp [hasync])).then hst)
  · intro _
    apply spans_bind spans_functionWord
    intro _ t hst htaken
    exact hrest false ⟨hst, hs, htaken⟩

theorem places_method : Places source .stmt (method statement) := by
  intro s
  apply spans_of_aligned
  intro hs
  unfold method
  apply spans_here_bind
  apply spans_expectIdentifier_bind
  intro hkind hnext
  apply spans_bind (places_block hstatement s.next)
  intro body t hst hbody
  apply spans_spanFrom_bind
  have hall := (hs.advances (by simp [hkind])).then hst
  have hfunction : s.Brings source t
      (.function ⟨s.peek.lexeme, [], none, body, false, [], t.spanFrom s.here⟩) :=
    hall.function rfl (List.forall_mem_nil _) (List.forall_mem_nil _)
      (hbody.lies.mono hnext.here_le (Nat.le_refl _))
  exact spans_pure fun _ =>
    hall.stmt rfl (List.forall_mem_nil _) (List.forall_mem_singleton.2 hfunction.lies)

end Bodies

/-! ## Components -/

/-- The parts that have been read of a component are in their places. -/
structure Members.Placed (source : Source) (lo : Nat) (members : Members) (t : State) : Prop where
  statements : Row source lo t.here.start (members.statements.map .stmt)
  body : Row source lo t.reach (members.body.map .markup)

namespace Members.Placed

variable {members : Members}

theorem mono (h : members.Placed source lo t) (htu : t.Passes source u) :
    members.Placed source lo u :=
  ⟨h.statements.mono (Nat.le_refl _) htu.here_le, h.body.mono (Nat.le_refl _) htu.reach_le⟩

/-- A statement that is no further than the token that is next. -/
theorem concat {stmt : Stmt} (h : members.Placed source lo t) (hlo : lo ≤ t.here.start)
    (htu : t.Passes source u) (hstmt : Lies source t.here.start u.here.start (.stmt stmt)) :
    Placed source lo { members with statements := members.statements ++ [stmt] } u :=
  ⟨h.statements.concat hstmt hlo (Nat.le_refl _) htu.here_le, (h.mono htu).body⟩

/-- More markup, which begins where the next token does or behind that. -/
theorem append {items : List Markup} (h : members.Placed source lo t) (hlo : lo ≤ t.here.start)
    (ht : t.Aligned source) (htu : t.Passes source u)
    (hitems : Row source t.here.start u.reach (items.map .markup)) :
    Placed source lo { members with body := members.body ++ items } u := by
  refine ⟨(h.mono htu).statements, ?_⟩
  show Row source lo u.reach ((members.body ++ items).map .markup)
  rw [List.map_append]
  exact h.body.append hitems hlo ht.reach_le htu.reach_le

end Members.Placed

section Bodies

variable {statement : Parse Stmt} (hstatement : Places source .stmt statement)

include hstatement

theorem spans_member {members : Members} (hlo : lo ≤ t.here.start)
    (h : members.Placed source lo t) :
    Spans source (fun read u => read.1.Placed source lo u ∧ ∀ e ∈ read.2, Fault source e u)
      (member statement members) t := by
  apply spans_of_aligned
  intro ht
  have hadd : ∀ (stmt : Stmt) (u : State), t.Passes source u → t.Brings source u (.stmt stmt) →
      Spans source (fun read v => read.1.Placed source lo v ∧ ∀ e ∈ read.2, Fault source e v)
        (return ({ members with statements := members.statements ++ [stmt] }, none)) u := by
    intro stmt u htu hstmt
    have hplaced := h.concat hlo htu (hstmt.lies.mono (Nat.le_refl _) htu.aligned.reach_le)
    exact spans_pure fun _ => ⟨hplaced, nofun⟩
  unfold member
  apply spans_get_bind
  split
  · apply spans_bind (spans_renderSection (Nat.le_refl _))
    intro run u htu hrun
    exact spans_pure fun _ => ⟨h.append hlo ht htu hrun.items, hrun.problem⟩
  · apply spans_bind (places_tag t)
    intro tag u htu htag
    have hrow : Row source t.here.start u.reach ([Markup.tag tag].map .markup) :=
      ⟨List.forall_mem_singleton.2 (lies_markup_tag htag.lies), List.pairwise_singleton _ _⟩
    exact spans_pure fun _ => ⟨h.append hlo ht htu hrow, nofun⟩
  · split
    · exact spans_bind (places_method hstatement t) hadd
    · exact spans_bind (hstatement t) hadd
  · exact spans_bind (hstatement t) hadd

theorem spans_recoveringMember {members : Members} (hlo : lo ≤ t.here.start)
    (h : members.Placed source lo t) :
    Spans source (Members.Placed source lo) (recoveringMember statement members) t := by
  have hplaceholder : ∀ {members : Members} {problem : Problem} {u : State}, t.Passes source u →
      members.Placed source lo u → Fault source problem u →
      Spans source (Members.Placed source lo) (do
        let placeholder ← recover problem
        return { members with statements := members.statements ++ [placeholder] }) u := by
    intro members problem u htu h he
    apply spans_bind (spans_recover he)
    intro placeholder v huv hplaceholder
    exact spans_pure fun _ => h.concat (hlo.trans htu.here_le) huv hplaceholder
  unfold recoveringMember
  apply spans_attempt_bind (spans_member hstatement hlo h)
  · rintro ⟨members, problem⟩ u htu ⟨hmembers, hproblem⟩
    cases problem with
    | none => exact spans_pure fun _ => hmembers
    | some problem => exact hplaceholder htu hmembers (hproblem problem rfl)
  · exact fun problem u htu he => hplaceholder htu (h.mono htu) he

theorem spans_memberStep {members : Members} (hlo : lo ≤ t.here.start)
    (h : members.Placed source lo t) :
    Spans source (TurnEnds (Members.Placed source lo) (Members.Placed source lo))
      (memberStep statement members) t := by
  unfold memberStep
  apply spans_get_bind
  split
  · exact spans_pure fun _ => h
  · apply spans_eat_if
    · exact fun _ hnext => spans_pure fun _ => h.mono hnext
    · intro _
      apply spans_bind (spans_recoveringMember hstatement hlo h)
      intro members u _ hmembers
      apply spans_bind spans_ensureProgress
      exact fun _ v huv _ => spans_pure fun _ => hmembers.mono huv

theorem spans_component {modifiers : List String} (hkind : s.kind ≠ .eof) :
    Spans source (fun c t => s.Brings source t (.component c))
      (component statement modifiers) s := by
  apply spans_of_aligned
  intro hs
  unfold component
  apply spans_advance_bind
  intro h₁
  apply spans_expectIdentifier_bind
  intro _ h₂
  apply spans_expect_bind
  intro _ h₃
  have hhead := (h₁.trans h₂).trans h₃
  apply spans_bind (spans_iterate (J := Members.Placed source s.here.start)
    (Q := Members.Placed source s.here.start)
    (fun members t hst h => spans_memberStep hstatement (hhead.trans hst).here_le h)
    (⟨row_nil, row_nil⟩ : Members.Placed source s.here.start ⟨[], []⟩ _))
  intro members t hst hmembers
  apply spans_expect_bind
  intro hclose htnext
  apply spans_spanFrom_bind
  have hend := hst.aligned.here_le_reach_next (by simp [hclose])
  have hall := (hs.advances hkind).then (((h₂.trans h₃).trans hst).trans htnext)
  exact spans_pure fun _ => hall.component rfl (hmembers.statements.mono (Nat.le_refl _) hend)
    (hmembers.body.mono (Nat.le_refl _) htnext.reach_le)

/-! ## Declarations that may be exported -/

theorem places_declaration :
    Places source (Sum.elim .function .component) (declaration statement) := by
  intro s
  apply spans_of_aligned
  intro hs
  unfold declaration
  apply spans_bind spans_modifiers
  intro modifiers t hst htaken
  apply spans_kind_bind
  split
  case h_1 hkind =>
    exact spans_map (spans_component hstatement (by simp [hkind])) fun c u _ hc =>
      hc.of_modifiers hs hst htaken
  case h_2 | h_3 | h_4 =>
    exact spans_map (places_function hstatement t) fun f u _ hf => hf.of_modifiers hs hst htaken
  case h_5 => exact spans_unexpected

theorem places_exportItem : Places source ExportItem.part (exportItem statement) := by
  intro s
  unfold exportItem
  apply spans_kind_bind
  split
  · apply spans_bind (places_declaration hstatement s)
    intro declared t _ hdeclared
    cases declared with
    | inl function => exact spans_pure fun _ => hdeclared
    | inr component => exact spans_pure fun _ => hdeclared
  · exact spans_map (hstatement s) fun stmt t _ hstmt => hstmt

theorem spans_exportDecl (hkind : s.kind ≠ .eof) :
    Spans source (fun item t => s.Brings source t (.exportDecl item)) (exportDecl statement) s := by
  apply spans_of_aligned
  intro hs
  have hitem : ∀ (isDefault : Bool) {t : State}, s.next.Passes source t →
      Spans source (fun item u => s.Brings source u (.exportDecl item)) (do
        let item ← exportItem statement
        return ⟨isDefault, item, ← spanFrom s.here⟩) t := by
    intro isDefault t hst
    apply spans_bind (places_exportItem hstatement t)
    intro item u htu hitem
    apply spans_spanFrom_bind
    have hall := (hs.advances hkind).then (hst.trans htu)
    exact spans_pure fun _ =>
      hall.exportDecl rfl (hitem.lies.mono (hs.next.trans hst).here_le (Nat.le_refl _))
  unfold exportDecl
  apply spans_advance_bind
  intro hnext
  apply spans_eat_bind
  · exact fun _ hnext' => hitem true hnext'
  · exact fun _ => hitem false hnext.aligned.passes

end Bodies

end ComponentLang.Grammar
