import ComponentLang.Grammar.Statement
import ComponentLang.Proofs.Grammar.Spans.Declaration

/-!
# The places of statements

A statement goes from its first token to the token taken last, so it goes around all that was read
for it. The clauses of a loop that counts have the place of its variable, and its bounds, which
stand in the clauses, are behind that.
-/
namespace ComponentLang.Grammar

open Parse ComponentLang.TreePart

variable {source : Source} {lo hi : Nat} {s t u : State}

/-! ## Simple statements -/

theorem spans_stmtFrom {build : Span → Stmt} (hst : s.Advances source t)
    (hspan : ∀ span, (build span).span = span)
    (hannotations : ∀ span, ∀ a ∈ (TreePart.stmt (build span)).annotations, a.On source)
    (hchildren : ∀ span, ∀ child ∈ (build span).children, Lies source s.here.start t.reach child) :
    Spans source (fun stmt u => s.Brings source u (.stmt stmt)) (stmtFrom s.here build) t :=
  spans_spanFrom_bind (spans_pure fun _ => hst.stmt (hspan _) (hannotations _) (hchildren _))

/-- A statement without type expressions. -/
theorem spans_plainStmt {build : Span → Stmt} (hst : s.Advances source t)
    (hplain : ∀ span, (build span).span = span ∧ (TreePart.stmt (build span)).annotations = [])
    (hchildren : ∀ span, ∀ child ∈ (build span).children, Lies source s.here.start t.reach child) :
    Spans source (fun stmt u => s.Brings source u (.stmt stmt)) (stmtFrom s.here build) t := by
  refine spans_stmtFrom hst (fun span => (hplain span).1) (fun span => ?_) hchildren
  rw [(hplain span).2]
  exact List.forall_mem_nil _

/-- A target that cannot be assigned is behind everything that was reported before it was read. -/
theorem fault_target {target : Expr} (hst : s.Advances source t) (hdrops : s.Drops t)
    (htarget : Lies source s.here.start t.reach (.expr target)) :
    Fault source (.ofSpan .invalidTarget target.span) t := by
  have hon : target.span.On source := htarget.on rfl nofun
  obtain ⟨hlo, hhi⟩ := htarget.within target.span rfl
  constructor
  · intro d hd
    rw [hdrops.diagnostics] at hd
    have hplace : (Problem.ofSpan .invalidTarget target.span).place =
        source.place target.span.start := congrArg toLex (Prod.ext hon.placed.1 hon.placed.2)
    rw [hplace]
    exact hst.begins.reported_le_of hlo hon.start_le_length d hd
  · exact ⟨_, hon.start_le.trans (hhi.trans hst.aligned.reach_le), hon.placed⟩
  · exact fun hcause => absurd rfl hcause

theorem places_simpleStmt : Places source .stmt simpleStmt := by
  intro s
  apply spans_of_aligned
  intro hs
  unfold simpleStmt
  apply spans_here_bind
  apply spans_bind (spans_drops (places_expression s) skims_expression)
  rintro target t hst ⟨htarget, hdrops⟩
  have hadvances := htarget.advances hs hst
  apply spans_kind_bind
  split
  · exact spans_plainStmt hadvances (fun _ => ⟨rfl, rfl⟩)
      fun _ => List.forall_mem_singleton.2 htarget.lies
  · split
    · apply spans_advance_bind
      intro hnext
      apply spans_bind (places_expression t.next)
      intro value u htu hvalue
      refine spans_plainStmt (hadvances.then (hnext.trans htu)) (fun _ => ⟨rfl, rfl⟩) fun _ => ?_
      exact List.forall_mem_cons.2 ⟨htarget.lies.mono (Nat.le_refl _) (hnext.trans htu).reach_le,
        List.forall_mem_singleton.2 (hvalue.lies.mono (hst.trans hnext).here_le (Nat.le_refl _))⟩
    · exact spans_throw fun _ => fault_target hadvances hdrops htarget.lies

theorem spans_variableStmt (hkind : s.kind ≠ .eof) :
    Spans source (fun stmt t => s.Brings source t (.stmt stmt)) variableStmt s := by
  apply spans_of_aligned
  intro hs
  unfold variableStmt
  apply spans_advance_bind
  intro _
  apply spans_expectIdentifier_bind
  intro _ h₁
  apply spans_bind spans_typeExpr?
  intro typeExpr t h₂ htypeExpr
  have hst := ((hs.advances hkind).then h₁).then h₂
  refine spans_eat_cases_bind (P := fun o u => ∀ e ∈ o, Lies source s.here.start u.reach (.expr e))
    (fun _ htnext => ?_) (fun _ => spans_none) fun init u htu hinit => ?_
  · exact spans_some (places_expression t.next) (hst.then htnext).here_le
  · refine spans_stmtFrom (hst.then htu) (fun _ => rfl) (fun _ a ha => ?_) fun _ => ?_
    · exact htypeExpr a (Option.mem_toList.1 ha)
    · simpa [Stmt.children] using hinit

theorem spans_returnStmt (hkind : s.kind ≠ .eof) :
    Spans source (fun stmt t => s.Brings source t (.stmt stmt)) returnStmt s := by
  apply spans_of_aligned
  intro hs
  have hfirst := hs.advances hkind
  unfold returnStmt
  apply spans_advance_bind
  intro hnext
  apply spans_kind_bind
  refine spans_cases_bind (P := fun o t => ∀ e ∈ o, Lies source s.here.start t.reach (.expr e))
    (fun _ => ?_) (fun _ => spans_none) fun value t hst hvalue => ?_
  · exact spans_some (places_expression s.next) hnext.here_le
  · exact spans_plainStmt (hfirst.then hst) (fun _ => ⟨rfl, rfl⟩)
      fun _ => by simpa [Stmt.children] using hvalue

theorem spans_throwStmt (hkind : s.kind ≠ .eof) :
    Spans source (fun stmt t => s.Brings source t (.stmt stmt)) throwStmt s := by
  apply spans_of_aligned
  intro hs
  unfold throwStmt
  apply spans_advance_bind
  intro hnext
  apply spans_bind (places_expression s.next)
  intro value t hst hvalue
  refine spans_plainStmt ((hs.advances hkind).then hst) (fun _ => ⟨rfl, rfl⟩) fun _ => ?_
  exact List.forall_mem_singleton.2 (hvalue.lies.mono hnext.here_le (Nat.le_refl _))

/-! ## Loops that count -/

section Counting

variable {place : Span} {name : String}

/-- A name that is not written is at the place of something that is. -/
theorem lies_name (hplace : place.On source) (id : Nat) :
    Lies source place.start place.stop (.expr (.identifier ⟨id, place⟩ name)) :=
  lies_expr hplace (Nat.le_refl _) (Nat.le_refl _)
    (List.forall_mem_singleton.2 (lies_identifier hplace (Nat.le_refl _) (Nat.le_refl _)))

theorem lies_number {text : String} (hplace : place.On source) (id : Nat) :
    Lies source place.start place.stop (.expr (.literal ⟨id, place⟩ (.number text .int))) :=
  lies_expr hplace (Nat.le_refl _) (Nat.le_refl _) (List.forall_mem_nil _)

theorem spans_impliedNumber_bind {α : Type} {Q : α → State → Prop} {text : String}
    {f : Expr → Parse α} (h : ∀ id t, s.Passes source t → t.reach = s.reach →
      Spans source Q (f (.literal ⟨id, place⟩ (.number text .int))) t) :
    Spans source Q (impliedNumber text place >>= f) s := by
  unfold impliedNumber
  rw [bind_assoc]
  exact spans_node_bind h

theorem spans_loopBounds (hplace : place.On source) (hlo : lo ≤ place.start)
    (hhi : place.stop ≤ s.reach) (hle : lo ≤ s.here.start) :
    Spans source (fun bounds t => Lies source lo t.reach (.expr bounds.1) ∧
      Lies source lo t.reach (.expr bounds.2)) (loopBounds place) s := by
  unfold loopBounds
  apply spans_bind (places_expression s)
  intro first t hst hfirst
  have hfirst := hfirst.lies.mono hle (Nat.le_refl _)
  apply spans_eat_if
  · intro _ htnext
    apply spans_bind (places_expression t.next)
    intro last u htu hlast
    apply spans_expect_bind
    intro _ hunext
    refine spans_pure fun _ => ⟨hfirst.mono (Nat.le_refl _) ?_, hlast.lies.mono ?_ hunext.reach_le⟩
    · exact ((htnext.trans htu).trans hunext).reach_le
    · exact hle.trans (hst.trans htnext).here_le
  · intro _
    apply spans_impliedNumber_bind
    intro id u htu hreach
    apply spans_expect_bind
    intro _ hunext
    refine spans_pure fun _ => ⟨(lies_number hplace id).mono hlo ?_, hfirst.mono (Nat.le_refl _) ?_⟩
    · exact hhi.trans ((hst.trans htu).trans hunext).reach_le
    · exact (htu.trans hunext).reach_le

/-- What is in the clauses of a loop that counts need not stand at their place. -/
theorem sited_clauses {span : Span} {first last : Expr} {body : Block} {i j k l : Nat}
    (hplace : place.On source) (hfirst : Lies source lo hi (.expr first))
    (hlast : Lies source lo hi (.expr last)) :
    ∀ clause ∈ (Stmt.forLoop span (some (.variableDecl place ⟨.letVar, name, none, some first⟩))
      (some (.binary ⟨j, place⟩ (.identifier ⟨i, place⟩ name) .lt last))
      (some (.assignment place (.identifier ⟨k, place⟩ name) .add
        (.literal ⟨l, place⟩ (.number "1" .int)))) body).clauses,
      clause.Everywhere (Sited source) := by
  refine List.forall_mem_cons.2 ⟨?_, List.forall_mem_cons.2 ⟨?_, List.forall_mem_singleton.2 ?_⟩⟩
  · exact IsPlain.everywhere_sited ⟨rfl, rfl, rfl⟩ rfl hplace
      (List.forall_mem_singleton.2 ⟨_, _, hfirst⟩)
  · exact IsPlain.everywhere_sited ⟨rfl, rfl, rfl⟩ rfl hplace
      (List.forall_mem_cons.2 ⟨⟨_, _, lies_name hplace i⟩,
        List.forall_mem_singleton.2 ⟨_, _, hlast⟩⟩)
  · exact IsPlain.everywhere_sited ⟨rfl, rfl, rfl⟩ rfl hplace
      (List.forall_mem_cons.2 ⟨⟨_, _, lies_name hplace k⟩,
        List.forall_mem_singleton.2 ⟨_, _, lies_number hplace l⟩⟩)

/-- What is in the clauses of a loop that counts stands in the loop. -/
theorem State.Advances.countingLoop {first last : Expr} {body : Block} {i j k l : Nat}
    (h : s.Advances source t) (hplace : place.On source) (hlo : s.here.start ≤ place.start)
    (hhi : place.stop ≤ t.reach) (hfirst : Lies source s.here.start t.reach (.expr first))
    (hlast : Lies source s.here.start t.reach (.expr last))
    (hbody : Lies source s.here.start t.reach (.block body)) :
    s.Brings source t (.stmt (.forLoop (t.spanFrom s.here)
      (some (.variableDecl place ⟨.letVar, name, none, some first⟩))
      (some (.binary ⟨j, place⟩ (.identifier ⟨i, place⟩ name) .lt last))
      (some (.assignment place (.identifier ⟨k, place⟩ name) .add
        (.literal ⟨l, place⟩ (.number "1" .int)))) body)) := by
  refine ⟨h.taken, everywhere_sited rfl h.spanFrom_on (List.forall_mem_nil _)
    (List.forall_mem_nil _) (List.forall_mem_nil _) ?_ ?_, ?_, ?_⟩
  · rw [TreePart.children, Stmt.children_forLoop]
    exact List.forall_mem_append.2 ⟨fun clause hclause => .inr ⟨_, place, rfl, .mk, hclause⟩,
      List.forall_mem_singleton.2 (.inl hbody.nests)⟩
  · rw [TreePart.children, Stmt.children_forLoop]
    exact List.forall_mem_append.2 ⟨sited_clauses hplace hfirst hlast,
      List.forall_mem_singleton.2 hbody.sited⟩
  · rintro _ ⟨⟩
    have hcovers : ∀ inner : Span, s.here.start ≤ inner.start ∧ inner.stop ≤ t.reach →
        (t.spanFrom s.here).Covers inner := by
      rintro inner ⟨hstart, hstop⟩
      refine ⟨?_, ?_⟩
      · rwa [State.start_spanFrom]
      · rwa [h.stop_spanFrom]
    have hclause : ∀ {part : TreePart}, part.span? = some place →
        ∀ inner ∈ part.span?, (t.spanFrom s.here).Covers inner := by
      intro part heq inner hinner
      obtain rfl := Option.some.inj (heq.symm.trans hinner)
      exact hcovers place ⟨hlo, hhi⟩
    exact List.forall_mem_cons.2 ⟨hclause rfl, List.forall_mem_cons.2 ⟨hclause rfl,
      List.forall_mem_cons.2 ⟨hclause rfl, List.forall_mem_singleton.2 fun inner hinner =>
        hcovers inner (hbody.within inner hinner)⟩⟩⟩
  · rintro _ ⟨⟩
    exact ⟨(State.start_spanFrom t s.here).ge, h.stop_spanFrom.le⟩

theorem spans_countingLoop {bounds : Expr × Expr} {body : Block} (hst : s.Advances source t)
    (hplace : place.On source) (hlo : s.here.start ≤ place.start) (hhi : place.stop ≤ t.reach)
    (hfirst : Lies source s.here.start t.reach (.expr bounds.1))
    (hlast : Lies source s.here.start t.reach (.expr bounds.2))
    (hbody : Lies source s.here.start t.reach (.block body)) :
    Spans source (fun stmt u => s.Brings source u (.stmt stmt))
      (countingLoop s.here place name bounds body) t := by
  unfold countingLoop
  apply spans_node_bind
  intro i u₁ h₁ _
  apply spans_node_bind
  intro j u₂ h₂ _
  apply spans_node_bind
  intro k u₃ h₃ _
  apply spans_impliedNumber_bind
  intro l u h₄ _
  apply spans_spanFrom_bind
  have hlater := ((h₁.trans h₂).trans h₃).trans h₄
  have hle := hlater.reach_le
  exact spans_pure fun _ => (hst.then hlater).countingLoop hplace hlo (hhi.trans hle)
    (hfirst.mono (Nat.le_refl _) hle) (hlast.mono (Nat.le_refl _) hle)
    (hbody.mono (Nat.le_refl _) hle)

end Counting

/-! ## Compound statements -/

theorem spans_loopInit (hlo : lo ≤ s.here.start) :
    Spans source (fun init t => ∀ stmt ∈ init, Lies source lo t.reach (.stmt stmt)) loopInit s := by
  unfold loopInit
  apply spans_kind_bind
  split
  · exact spans_none
  · split
    next hstarts =>
      exact spans_some (spans_variableStmt (State.kind_ne_eof_of hstarts rfl)) hlo
    next => exact spans_some (places_simpleStmt s) hlo

section Compound

variable {statement : Parse Stmt} (hstatement : Places source .stmt statement)

include hstatement

theorem spans_whileStmt (hkind : s.kind ≠ .eof) :
    Spans source (fun stmt t => s.Brings source t (.stmt stmt)) (whileStmt statement) s := by
  apply spans_of_aligned
  intro hs
  have hfirst := hs.advances hkind
  unfold whileStmt
  apply spans_advance_bind
  intro hnext
  apply spans_bind (places_headExpression s.next)
  intro test t hst htest
  apply spans_bind (places_body hstatement t)
  intro body u htu hbody
  refine spans_plainStmt (hfirst.then (hst.trans htu)) (fun _ => ⟨rfl, rfl⟩) fun _ => ?_
  exact List.forall_mem_cons.2 ⟨htest.lies.mono hnext.here_le htu.reach_le,
    List.forall_mem_singleton.2 (hbody.lies.mono (hnext.trans hst).here_le (Nat.le_refl _))⟩

theorem spans_clauseLoop (hst : s.Advances source t) :
    Spans source (fun stmt u => s.Brings source u (.stmt stmt))
      (clauseLoop statement s.here) t := by
  unfold clauseLoop
  apply spans_expect_bind
  intro _ h
  have h₁ := hst.then h
  apply spans_bind (spans_loopInit h₁.here_le)
  intro init u₁ h hinit
  have h₂ := h₁.then h
  apply spans_expect_bind
  intro _ h'
  have h₃ := h₂.then h'
  apply spans_kind_bind
  refine spans_cases_bind (P := fun o v => ∀ e ∈ o, Lies source s.here.start v.reach (.expr e))
    (fun _ => spans_none) (fun _ => spans_some (places_expression _) h₃.here_le) ?_
  intro test u₂ h htest
  have h₄ := h₃.then h
  have hinit : ∀ stmt ∈ init, Lies source s.here.start u₂.reach (.stmt stmt) :=
    fun stmt hstmt => (hinit stmt hstmt).mono (Nat.le_refl _) (h'.trans h).reach_le
  apply spans_expect_bind
  intro _ h'
  have h₅ := h₄.then h'
  apply spans_kind_bind
  refine spans_cases_bind (P := fun o v => ∀ e ∈ o, Lies source s.here.start v.reach (.stmt e))
    (fun _ => spans_none) (fun _ => spans_some (places_simpleStmt _) h₅.here_le) ?_
  intro update u₃ h hupdate
  have hearlier := (h'.trans h).reach_le
  apply spans_expect_bind
  intro _ h'
  have h₆ := (h₅.then h).then h'
  apply spans_bind (places_body hstatement u₃.next)
  intro body v huv hbody
  refine spans_plainStmt (h₆.then huv) (fun _ => ⟨rfl, rfl⟩) fun _ => ?_
  have hend := (h'.trans huv).reach_le
  simp only [Stmt.children, List.forall_mem_append, List.forall_mem_map, Option.mem_toList]
  refine ⟨fun stmt hstmt => ?_, fun e he => ?_, fun stmt hstmt => ?_, ?_⟩
  · exact (hinit stmt hstmt).mono (Nat.le_refl _) (hearlier.trans hend)
  · exact (htest e he).mono (Nat.le_refl _) (hearlier.trans hend)
  · exact (hupdate stmt hstmt).mono (Nat.le_refl _) hend
  · exact List.forall_mem_singleton.2 (hbody.lies.mono h₆.here_le (Nat.le_refl _))

theorem spans_forStmt (hkind : s.kind ≠ .eof) :
    Spans source (fun stmt t => s.Brings source t (.stmt stmt)) (forStmt statement) s := by
  apply spans_of_aligned
  intro hs
  have hfirst := hs.advances hkind
  unfold forStmt
  apply spans_advance_bind
  intro hnext
  apply spans_kind_bind
  split
  · exact spans_clauseLoop hstatement hfirst
  · apply spans_here_bind
    apply spans_expectIdentifier_bind
    intro hname h₂
    have hplace : s.next.here.On source := hnext.aligned.here_on
    have hreach : s.next.here.stop ≤ s.next.next.reach :=
      (State.reach_next (by simp [hname])).ge
    apply spans_eat_if
    · intro _ h₃
      have hhead := (hnext.trans h₂).trans h₃
      apply spans_bind (places_headExpression _)
      intro iterable t hst hiterable
      apply spans_bind (places_body hstatement t)
      intro body u htu hbody
      refine spans_plainStmt (hfirst.then (((h₂.trans h₃).trans hst).trans htu))
        (fun _ => ⟨rfl, rfl⟩) fun _ => ?_
      exact List.forall_mem_cons.2 ⟨hiterable.lies.mono hhead.here_le htu.reach_le,
        List.forall_mem_singleton.2 (hbody.lies.mono (hhead.trans hst).here_le (Nat.le_refl _))⟩
    · intro _
      apply spans_eat_if
      · intro _ h₃
        have hhead := (hnext.trans h₂).trans h₃
        apply spans_bind (spans_loopBounds hplace hnext.here_le (hreach.trans h₃.reach_le)
          hhead.here_le)
        rintro bounds t hst ⟨hfirstBound, hlastBound⟩
        apply spans_bind (places_body hstatement t)
        intro body u htu hbody
        have hlater := (h₃.trans hst).trans htu
        exact spans_countingLoop (hfirst.then (h₂.trans hlater)) hplace hnext.here_le
          (hreach.trans hlater.reach_le) (hfirstBound.mono (Nat.le_refl _) htu.reach_le)
          (hlastBound.mono (Nat.le_refl _) htu.reach_le)
          (hbody.lies.mono (hhead.trans hst).here_le (Nat.le_refl _))
      · exact fun _ => spans_unexpected

/-! ### Failure and asynchrony -/

theorem spans_catchClause :
    Spans source (fun clause t => Lies source s.here.start t.reach (.block clause.body))
      (catchClause statement) s := by
  have hbody : ∀ {param : Option String} {t : State}, s.here.start ≤ t.here.start →
      Spans source (fun clause u => Lies source s.here.start u.reach (.block clause.body))
        (do return (⟨param, ← body statement⟩ : CatchClause)) t := by
    intro param t hle
    apply spans_bind (places_body hstatement t)
    exact fun b u _ hb => spans_pure fun _ => hb.lies.mono hle (Nat.le_refl _)
  unfold catchClause
  apply spans_eat_if
  · intro _ h₁
    apply spans_expectIdentifier_bind
    intro _ h₂
    apply spans_expect_bind
    intro _ h₃
    exact hbody ((h₁.trans h₂).trans h₃).here_le
  · exact fun _ => hbody (Nat.le_refl _)

omit hstatement in
/-- The parts of a statement that guards a block. -/
theorem lies_guarded {b : Block} {handler : Option CatchClause} {cleanup : Option Block}
    (hblock : Lies source lo hi (.block b))
    (hhandler : ∀ c ∈ handler, Lies source lo hi (.block c.body))
    (hcleanup : ∀ c ∈ cleanup, Lies source lo hi (.block c)) (span : Span) :
    ∀ child ∈ (Stmt.tryStmt span b handler cleanup).children, Lies source lo hi child := by
  simp only [Stmt.children, List.forall_mem_append, List.forall_mem_cons, List.forall_mem_map,
    Option.mem_toList]
  exact ⟨⟨hblock, hhandler⟩, hcleanup⟩

theorem spans_tryStmt (hkind : s.kind ≠ .eof) :
    Spans source (fun stmt t => s.Brings source t (.stmt stmt)) (tryStmt statement) s := by
  apply spans_of_aligned
  intro hs
  have hfirst := hs.advances hkind
  unfold tryStmt
  apply spans_advance_bind
  intro hnext
  apply spans_bind (places_body hstatement s.next)
  intro block t h₁ hblock
  have h₂ := hfirst.then h₁
  refine spans_eat_cases_bind
    (P := fun o u => ∀ c ∈ o, Lies source s.here.start u.reach (.block c.body))
    (fun _ h => spans_map (spans_catchClause hstatement) fun clause u _ hclause c hc => ?_)
    (fun _ => spans_pure fun _ => nofun) fun handler u htu hhandler => ?_
  · obtain rfl := Option.some.inj hc
    exact hclause.mono (h₂.then h).here_le (Nat.le_refl _)
  · have h₃ := h₂.then htu
    refine spans_eat_cases_bind
      (P := fun o v => ∀ c ∈ o, Lies source s.here.start v.reach (.block c))
      (fun _ h => spans_some (places_body hstatement u.next) (h₃.then h).here_le)
      (fun _ => spans_none) fun cleanup v huv hcleanup => ?_
    dsimp only
    split
    · exact spans_unexpected
    · exact spans_plainStmt (h₃.then huv) (fun _ => ⟨rfl, rfl⟩) (lies_guarded
        (hblock.lies.mono hnext.here_le (htu.trans huv).reach_le)
        (fun c hc => (hhandler c hc).mono (Nat.le_refl _) huv.reach_le) hcleanup)

omit hstatement in
theorem spans_asyncSegment {α : Type} {P : α → State → Prop} {word : Keyword} {content : Parse α}
    {expected : Expected} (hkeep : ∀ c t u, t.Passes source u → P c t → P c u)
    (hcontent : ∀ t, s.Passes source t → Spans source P content t) :
    Spans source (fun o t => ∀ c ∈ o, P c t) (asyncSegment word content expected) s := by
  unfold asyncSegment
  apply spans_get_bind
  split
  · apply spans_advance_bind
    intro h₁
    apply spans_advance_bind
    intro h₂
    apply spans_bind (hcontent _ (h₁.trans h₂))
    intro value t _ hvalue
    apply spans_expect_bind
    intro _ htnext
    refine spans_pure fun _ c hc => ?_
    obtain rfl := Option.some.inj hc
    exact hkeep _ t t.next htnext hvalue
  · exact spans_pure fun _ => nofun

theorem spans_asyncStmt (hkind : s.kind ≠ .eof) :
    Spans source (fun stmt t => s.Brings source t (.stmt stmt)) (asyncStmt statement) s := by
  apply spans_of_aligned
  intro hs
  have hfirst := hs.advances hkind
  have hkeep : ∀ {α : Type} {part : α → TreePart} (c : α) (t u : State), t.Passes source u →
      Lies source s.here.start t.reach (part c) → Lies source s.here.start u.reach (part c) :=
    fun _ _ _ htu hc => hc.mono (Nat.le_refl _) htu.reach_le
  unfold asyncStmt
  apply spans_advance_bind
  intro _
  apply spans_expect_bind
  intro _ h
  have h₁ := hfirst.then h
  apply spans_kind_bind
  split
  · apply spans_bind (places_block hstatement _)
    intro block t h hblock
    have h₂ := h₁.then h
    have hhandler : Spans source
        (fun o u => ∀ c ∈ o, Lies source s.here.start u.reach (.block (CatchClause.body c)))
        (asyncSegment .catchKw (catchClause statement) .asyncCatchEnd) t :=
      spans_asyncSegment hkeep fun u htu => spans_mono (spans_catchClause hstatement)
        fun c v _ hc => hc.mono (h₂.then htu).here_le (Nat.le_refl _)
    apply spans_bind hhandler
    intro handler u htu hhandler
    have h₃ := h₂.then htu
    have hcleanup : Spans source (fun o v => ∀ c ∈ o, Lies source s.here.start v.reach (.block c))
        (asyncSegment .finallyKw (body statement) .asyncFinallyEnd) u :=
      spans_asyncSegment hkeep fun v huv => spans_mono (places_body hstatement v)
        fun c w _ hc => hc.lies.mono (h₃.then huv).here_le (Nat.le_refl _)
    apply spans_bind hcleanup
    intro cleanup v huv hcleanup
    apply spans_expect_bind
    intro _ hvnext
    exact spans_plainStmt ((h₃.then huv).then hvnext) (fun _ => ⟨rfl, rfl⟩) (lies_guarded
      (hblock.lies.mono h₁.here_le ((htu.trans huv).trans hvnext).reach_le)
      (fun c hc => (hhandler c hc).mono (Nat.le_refl _) (huv.trans hvnext).reach_le)
      fun c hc => (hcleanup c hc).mono (Nat.le_refl _) hvnext.reach_le)
  · exact spans_unexpected

end Compound

/-! ## All statements -/

/-- Both rules bring their statement. A branch is read from its keyword on. -/
structure StmtRules.Place (source : Source) (rules : StmtRules) : Prop where
  statement : Places source .stmt rules.statement
  ifStmt (s : State) : s.kind ≠ .eof →
    Spans source (fun stmt t => s.Brings source t (.stmt stmt)) rules.ifStmt s

variable {rules : StmtRules}

/-- A block that is a statement has the place of the block. -/
theorem State.Brings.blockStmt {b : Block} (h : s.Brings source t (.block b)) :
    s.Brings source t (.stmt (.block b)) := by
  obtain ⟨hlo, hhi⟩ := h.lies.within b.span rfl
  exact ⟨h.taken, lies_of rfl (h.lies.on rfl nofun) hlo hhi (List.forall_mem_nil _)
    (List.forall_mem_nil _) (List.forall_mem_nil _)
    (List.forall_mem_singleton.2 (h.lies.tight rfl))⟩

theorem spans_ifRule (hrules : rules.Place source) (hkind : s.kind ≠ .eof) :
    Spans source (fun stmt t => s.Brings source t (.stmt stmt)) (ifRule rules) s := by
  apply spans_of_aligned
  intro hs
  have hfirst := hs.advances hkind
  unfold ifRule
  apply spans_advance_bind
  intro hnext
  apply spans_bind (places_headExpression s.next)
  intro test t h₁ htest
  apply spans_bind (places_body hrules.statement t)
  intro consequent u h₂ hconsequent
  have h₃ := hfirst.then (h₁.trans h₂)
  have hstmt : ∀ (alternate : Option Stmt) {v : State}, u.Passes source v →
      (∀ stmt ∈ alternate, Lies source s.here.start v.reach (.stmt stmt)) →
      Spans source (fun stmt w => s.Brings source w (.stmt stmt))
        (stmtFrom s.here (.ifElse · test consequent alternate)) v := by
    intro alternate v huv halternate
    refine spans_plainStmt (h₃.then huv) (fun _ => ⟨rfl, rfl⟩) fun _ => ?_
    simp only [Stmt.children, List.forall_mem_cons, List.forall_mem_map, Option.mem_toList]
    exact ⟨htest.lies.mono hnext.here_le (h₂.trans huv).reach_le,
      hconsequent.lies.mono (hnext.trans h₁).here_le huv.reach_le, halternate⟩
  apply spans_eat_if
  · intro _ hunext
    have h₄ := h₃.then hunext
    apply spans_kind_bind
    refine spans_cases_bind
      (P := fun o v => ∀ stmt ∈ o, Lies source s.here.start v.reach (.stmt stmt))
      (fun hif => spans_some (hrules.ifStmt _ (by simp [hif])) h₄.here_le)
      (fun _ => spans_map (places_body hrules.statement _) fun b v _ hb stmt hstmt => ?_)
      fun alternate v huv halternate => hstmt alternate (hunext.trans huv) halternate
    obtain rfl := Option.some.inj hstmt
    exact hb.blockStmt.lies.mono h₄.here_le (Nat.le_refl _)
  · exact fun _ => hstmt none h₃.aligned.passes (by simp)

theorem places_bareStatement (hrules : rules.Place source) :
    Places source .stmt (bareStatement rules) := by
  intro s
  apply spans_of_aligned
  intro hs
  unfold bareStatement
  apply spans_here_bind
  apply spans_kind_bind
  split
  case h_1 hkind | h_2 hkind | h_3 hkind => exact spans_variableStmt (by simp [hkind])
  case h_4 hkind => exact spans_ifRule hrules (by simp [hkind])
  case h_5 hkind => exact spans_whileStmt hrules.statement (by simp [hkind])
  case h_6 hkind => exact spans_forStmt hrules.statement (by simp [hkind])
  case h_7 hkind => exact spans_returnStmt (by simp [hkind])
  case h_8 hkind | h_9 hkind =>
    apply spans_advance_bind
    intro _
    exact spans_plainStmt (hs.advances (by simp [hkind])) (fun _ => ⟨rfl, rfl⟩)
      fun _ => List.forall_mem_nil _
  case h_10 hkind => exact spans_throwStmt (by simp [hkind])
  case h_11 hkind => exact spans_tryStmt hrules.statement (by simp [hkind])
  case h_12 hkind => exact spans_asyncStmt hrules.statement (by simp [hkind])
  case h_13 | h_14 | h_15 | h_16 =>
    apply spans_bind spans_modifiers
    intro modifiers t hst htaken
    apply spans_bind (places_function hrules.statement t)
    intro function u htu hfunction
    have hfunction := hfunction.of_modifiers hs hst htaken
    exact spans_plainStmt (hfunction.advances hs (hst.trans htu)) (fun _ => ⟨rfl, rfl⟩)
      fun _ => List.forall_mem_singleton.2 hfunction.lies
  case h_17 hkind =>
    apply spans_bind (spans_importDecl (by simp [hkind]))
    intro item t hst hitem
    exact spans_plainStmt (hitem.advances hs hst) (fun _ => ⟨rfl, rfl⟩)
      fun _ => List.forall_mem_singleton.2 hitem.lies
  case h_18 hkind =>
    apply spans_bind (spans_exportDecl hrules.statement (by simp [hkind]))
    intro item t hst hitem
    exact spans_plainStmt (hitem.advances hs hst) (fun _ => ⟨rfl, rfl⟩)
      fun _ => List.forall_mem_singleton.2 hitem.lies
  case h_19 => exact spans_map (places_block hrules.statement s) fun b t _ hb => hb.blockStmt
  case h_20 => exact places_simpleStmt s

theorem places_statementRule (hrules : rules.Place source) :
    Places source .stmt (statementRule rules) := by
  intro s
  unfold statementRule
  apply spans_bind (places_bareStatement hrules s)
  intro stmt t _ hstmt
  apply spans_eat_bind
  · exact fun _ hnext => spans_pure fun _ => hstmt.of_passes hnext
  · exact fun _ => spans_pure fun _ => hstmt

theorem place_stmtRules (depth : Nat) : (stmtRules depth).Place source := by
  induction depth with
  | zero => exact ⟨fun _ => spans_fail, fun _ _ => spans_fail⟩
  | succ depth ih => exact ⟨places_statementRule ih, fun _ => spans_ifRule ih⟩

theorem places_statement : Places source .stmt statement :=
  fun s => spans_of_eq ((place_stmtRules (s.rest.length + 1)).statement s) rfl

end ComponentLang.Grammar
