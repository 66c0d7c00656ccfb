import ComponentLang.Grammar.Program
import ComponentLang.Proofs.Grammar.Rendering.Declaration

/-!
# Statements and programs, read elsewhere

The bodies of statements may be in square brackets elsewhere. An expression that ends before such a
body is that of a head, and it ends there too.
-/
namespace ComponentLang.Grammar

open Parse
open Renderable (reread tame whole)

variable {all : List Token} {s : State} {B : List Span} {F : Follow} {G : Front}

instance : Renderable CatchClause where
  reread w := Remap.handler (· + w.offset) w.span

instance : AllWhole CatchClause := ⟨fun _ => trivial⟩

abbrev clauseBodies (clause : CatchClause) : List Span := bodyBodies clause.body

open ComponentLang.TreePart (branchBodies)

section Statement

variable {statement : Parse Stmt} (h : Restating all statement)

include h

/-! ## Loops -/

theorem renders_whileStmt (hkind : s.kind ≠ .eof) :
    RendersFinal all stmtBodies B .any G (whileStmt statement)
      (fun _ => whileStmt statement) s := by
  unfold whileStmt
  refine renders_advance_bind hkind ?_
  apply renders_bind_open renders_headExpression
  intro test u hu _
  apply renders_bind_any (renders_body h)
  intro body v hv _
  have hprevious := (hu.trans hv).previous_ne (State.previous_next_ne hkind)
  refine renders_stmtFrom hprevious (fun _ _ => rfl) fun span place hplace => ?_
  refine List.mem_append_left _ ?_
  simpa [TreePart.bodies_stmt, Stmt.bodies, Stmt.children] using hplace

theorem renders_clauseLoop {start : Span} :
    RendersFinal all stmtBodies B .any G (clauseLoop statement start)
      (fun w => clauseLoop statement (w.span start)) s := by
  unfold clauseLoop
  refine renders_expect_bind rfl fun hopen => ?_
  have hprevious := State.previous_next_ne (s := s) (by simp [hopen])
  apply Renders.anyFront (G := .clear)
  apply renders_bind_solid (renders_loopInit hprevious)
  intro init u₁ _ _
  refine renders_expect_bind rfl fun hsemicolon => ?_
  apply Renders.anyFront (G := .clear)
  refine renders_kind_ite_bind (m := fun _ => [])
    (fun _ => renders_pure (a := (none : Option Expr)) (List.forall_mem_nil _) fun _ => trivial)
    (fun _ => echoes_some renders_expression_unopened) ?_
  intro test u₂ _ _
  refine renders_expect_bind rfl fun hsemicolon' => ?_
  have hprevious' := State.previous_next_ne (s := u₂) (by simp [hsemicolon'])
  apply Renders.anyFront (G := .clear)
  refine renders_kind_ite_bind (fun _ => renders_none)
    (fun _ => renders_some (renders_simpleStmt hprevious')) ?_
  intro update u₃ _ _
  refine renders_expect_bind rfl fun hclose => ?_
  apply renders_bind_any (renders_body h)
  intro body u₄ hu₄ _
  refine renders_stmtFrom (hu₄.previous_ne (State.previous_next_ne (by simp [hclose]))) ?_ ?_
  · intro w span
    cases init <;> cases test <;> cases update <;> rfl
  · intro span place hplace
    simp only [stmtBodies, TreePart.bodies_forLoop, List.mem_cons, List.mem_append] at hplace ⊢
    tauto

theorem renders_forStmt (hkind : s.kind ≠ .eof) :
    RendersFinal all stmtBodies B .any G (forStmt statement)
      (fun _ => forStmt statement) s := by
  unfold forStmt
  refine renders_advance_bind hkind ?_
  apply renders_kind_bind
  by_cases hparen : s.next.kind = .lparen
  · simp only [if_pos hparen]
    exact renders_clauseLoop h
  simp only [if_neg hparen]
  apply renders_here_bind
  refine renders_of_fits fun hfits => ?_
  refine renders_expectIdentifier_bind fun hname => ?_
  have hspan : StopsIn all s.next.here := hfits.here (by simp [hname])
  refine renders_eat_if rfl ?_ ?_
  · intro hin
    apply renders_bind_open renders_headExpression
    intro iterable u hu _
    apply renders_bind_any (renders_body h)
    intro body v hv _
    have hprevious := (hu.trans hv).previous_ne (State.previous_next_ne (by simp [hin]))
    refine renders_stmtFrom hprevious (fun _ _ => rfl) fun span place hplace => ?_
    refine List.mem_append_left _ ?_
    simpa [TreePart.bodies_stmt, Stmt.bodies, Stmt.children] using hplace
  · intro _
    refine renders_eat_if rfl ?_ ?_
    · intro hopen
      apply renders_bind_open (renders_loopBounds hspan)
      intro bounds u hu _
      apply renders_bind_any (renders_body h)
      intro body v hv _
      have hprevious := (hu.trans hv).previous_ne (State.previous_next_ne (by simp [hopen]))
      exact (renders_countingLoop hprevious
        fun place hplace => List.mem_append_left _ hplace).anyFront
    · intro _
      exact renders_unexpected

/-! ## Failure and asynchrony -/

theorem renders_catchClause :
    RendersFinal all clauseBodies B .any .any (catchClause statement)
      (fun _ => catchClause statement) s := by
  have hrest : ∀ (param : Option String) {u : State},
      RendersFinal all clauseBodies B .any .any
        (do return (⟨param, ← body statement⟩ : CatchClause))
        (fun _ => do return (⟨param, ← body statement⟩ : CatchClause)) u := by
    intro param u
    apply renders_bind_any (renders_body h)
    intro b v _ _
    exact renders_pure (a := CatchClause.mk param b)
      (fun _ hplace => List.mem_append_left _ hplace) fun _ => trivial
  unfold catchClause
  refine renders_eat_if rfl ?_ ?_
  · intro _
    refine renders_expectIdentifier_bind fun _ => ?_
    refine renders_expect_bind rfl fun _ => ?_
    exact hrest _
  · intro _
    exact hrest none

theorem renders_tryStmt (hkind : s.kind ≠ .eof) :
    RendersFinal all stmtBodies B .any G (tryStmt statement)
      (fun _ => tryStmt statement) s := by
  unfold tryStmt
  refine renders_advance_bind hkind ?_
  apply renders_bind_any (renders_body h)
  intro block u hu _
  apply Renders.anyFront (G := .clear)
  refine renders_eat_ite_bind rfl (fun _ => renders_some (renders_catchClause h))
    (fun _ => renders_none) ?_
  intro handler u' hu' _
  refine renders_eat_ite_bind rfl (fun _ => renders_some (renders_body h))
    (fun _ => renders_none) ?_
  intro cleanup v hv _
  have hnone : ∀ w : Rendering all, ((reread w handler).isNone && (reread w cleanup).isNone : Bool)
      = (handler.isNone && cleanup.isNone : Bool) := by
    intro w
    cases handler <;> cases cleanup <;> rfl
  simp only [hnone]
  by_cases hbare : (handler.isNone && cleanup.isNone : Bool) = true
  · simp only [if_pos hbare]
    exact renders_unexpected
  · simp only [if_neg hbare]
    have hprevious := ((hu.trans hu').trans hv).previous_ne (State.previous_next_ne hkind)
    refine renders_stmtFrom hprevious ?_ ?_
    · intro w span
      cases handler <;> cases cleanup <;> rfl
    · intro span place hplace
      rw [stmtBodies, TreePart.mem_bodies_tryStmt] at hplace
      simp only [TreePart.guardBodies, List.mem_cons, List.mem_append] at hplace ⊢
      tauto

omit h in
theorem renders_asyncSegment {α : Type} [Renderable α] [AllWhole α] {m : α → List Span}
    {word : Keyword}
    {content : Parse α} {expected : Expected}
    (hcontent : ∀ {u : State}, RendersFinal all m B .any .any content
      (fun _ => content) u) :
    RendersFinal all (fun a => a.elim [] m) B .solid .clear
      (asyncSegment word content expected) (fun _ => asyncSegment word content expected) s := by
  unfold asyncSegment
  by_cases hopen : s.kind = .lbracket ∧ s.secondKind = .keyword word
  · have hkind : s.kind ≠ .eof := by simp [hopen.1]
    have hnext : s.next.kind = .keyword word := State.next_kind_of_second hkind hopen.2
    have hpair : ∀ {t : State}, t.kind = .lbracket → t.secondKind = .keyword word →
        (t.kind = .lbracket && t.secondKind = .keyword word : Bool) = true := by
      intro t hfirst hsecond
      simp [hfirst, hsecond]
    let inside : Parse (Option α) := do
      let _ ← advance
      let value ← content
      let _ ← expect .rbracket expected
      return some value
    refine renders_get_advance_bind inside (fun _ => inside) hkind ?_ ?_ ?_
    · rw [if_pos (hpair hopen.1 hopen.2)]
    · intro w t hpeek hsecond
      have hfirst : t.kind = .lbracket := (congrArg Token.kind hpeek).trans hopen.1
      rw [if_pos (hpair hfirst (hsecond.trans hopen.2))]
    · refine renders_advance_bind (by simp [hnext]) ?_
      apply renders_bind_any hcontent
      intro value u _ _
      refine renders_expect_bind rfl fun _ => ?_
      exact renders_pure (a := some value)
        (fun _ hplace => List.mem_append_left _ hplace) fun _ => trivial
  · have hnone : ∀ {t : State}, ¬ (t.kind = .lbracket ∧ t.secondKind = .keyword word) →
        ¬ (t.kind = .lbracket && t.secondKind = .keyword word : Bool) = true := by
      intro t hnot
      simpa using hnot
    refine renders_get_bind (q := fun _ => pure none) ?_ ?_
    · rw [if_neg (hnone hopen)]
      exact renders_none
    · intro w taken ahead t hw hclear hsolid hsees
      refine congrFun (if_neg (hnone fun ⟨hfirst, hsecond⟩ => ?_)) t
      have hfirst' : s.kind = .lbracket :=
        (hsees.kind (Follow.solid.holds_clear hclear hsolid)).symm.trans hfirst
      exact hsees.secondKind_ne hw (by simp [hfirst]) rfl
        (fun hsecond' => hopen ⟨hfirst', hsecond'⟩) hsecond

theorem renders_asyncStmt (hkind : s.kind ≠ .eof) :
    RendersFinal all stmtBodies B .any G (asyncStmt statement)
      (fun _ => asyncStmt statement) s := by
  unfold asyncStmt
  refine renders_advance_bind hkind ?_
  refine renders_expect_bind rfl fun _ => ?_
  apply renders_kind_bind
  by_cases hbracket : s.next.next.kind = .lbracket
  · simp only [if_pos hbracket]
    apply renders_bind_solid (renders_block h)
    intro block u₁ _ _
    apply renders_bind_solid (renders_asyncSegment (renders_catchClause h))
    intro handler u₂ _ _
    apply renders_bind_solid (renders_asyncSegment (renders_body h))
    intro cleanup u₃ _ _
    refine renders_expect_bind rfl fun hclose => ?_
    refine renders_stmtFrom (State.previous_next_ne (by simp [hclose])) ?_ ?_
    · intro w span
      cases handler <;> cases cleanup <;> rfl
    · intro span place hplace
      rw [stmtBodies, TreePart.mem_bodies_asyncBlock] at hplace
      simp only [TreePart.guardBodies, List.mem_append] at hplace ⊢
      tauto
  · simp only [if_neg hbracket]
    exact renders_unexpected

end Statement

/-! ## Branches -/

/-- The rules give elsewhere what they give here. -/
structure StmtRules.Restating (all : List Token) (rules : StmtRules) : Prop where
  statement : Grammar.Restating all rules.statement
  ifStmt {s : State} {B : List Span} {G : Front} (hkind : s.kind ≠ .eof) :
    RendersFinal all branchBodies B .any G rules.ifStmt
      (fun _ => rules.ifStmt) s

section Rules

variable {rules : StmtRules} (h : rules.Restating all)

include h

theorem renders_ifRule (hkind : s.kind ≠ .eof) :
    RendersFinal all branchBodies B .any G (ifRule rules)
      (fun _ => ifRule rules) s := by
  unfold ifRule
  refine renders_advance_bind hkind ?_
  apply renders_bind_open renders_headExpression
  intro test u hu _
  apply renders_bind_any (renders_body h.statement)
  intro consequent v hv _
  apply Renders.anyFront (G := .clear)
  have hprevious := (hu.trans hv).previous_ne (State.previous_next_ne hkind)
  have hend : ∀ (alternate : Option Stmt) {v' : State}, v.Proceeds v' →
      RendersFinal all branchBodies
        (alternate.elim [] branchBodies ++ (bodyBodies consequent ++ ([] ++ B))) .any .clear
        (stmtFrom s.peek.span (.ifElse · test consequent alternate))
        (fun w => stmtFrom (w.span s.peek.span) (.ifElse · (reread w test) (reread w consequent)
          (reread w alternate))) v' := by
    intro alternate v' hv'
    refine renders_stmtFrom (hv'.previous_ne hprevious) ?_ ?_
    · intro w span
      cases alternate <;> rfl
    · intro span place hplace
      have hplace' : place ∈ stmtBodies (.ifElse span test consequent alternate) := hplace
      simp only [stmtBodies, TreePart.mem_bodies_ifElse, List.mem_cons, List.mem_append]
        at hplace' ⊢
      tauto
  refine renders_eat_if rfl ?_ ?_
  · intro _
    have hnext := v.proceeds_next
    refine renders_kind_if rfl ?_ ?_
    · intro hif
      apply renders_bind_any (renders_some (h.ifStmt (by simp [hif])))
      exact fun alternate v' hv' _ => (hend alternate (hnext.trans hv')).anyFront
    · intro _
      apply renders_bind_any (renders_map (renders_body h.statement) (fun _ _ => rfl) ?_
        (fun _ _ => trivial) fun a _ => AllWhole.whole a)
      · exact fun alternate v' hv' _ => (hend alternate (hnext.trans hv')).anyFront
      · intro b place hplace
        rw [Option.elim, branchBodies, TreePart.bodies_stmt] at hplace
        refine List.mem_append_left _ ?_
        simpa [Stmt.block?, Stmt.bodies, Stmt.children] using hplace
  · intro _
    exact hend none (.refl v)

/-! ## All statements -/

theorem renders_bareStatement (hs : s.previous ≠ none) :
    RendersFinal all stmtBodies B .unopened G (bareStatement rules)
      (fun _ => bareStatement rules) s := by
  unfold bareStatement
  apply renders_here_bind
  apply renders_kind_bind
  split
  case h_1 hkind | h_2 hkind | h_3 hkind => exact renders_variableStmt (s.kind_ne_eof hkind rfl)
  case h_4 hkind =>
    exact ((renders_ifRule h (s.kind_ne_eof hkind rfl)).fewer
      fun a _ hplace => List.mem_append_right _ hplace).follow
  case h_5 hkind => exact (renders_whileStmt h.statement (s.kind_ne_eof hkind rfl)).follow
  case h_6 hkind => exact (renders_forStmt h.statement (s.kind_ne_eof hkind rfl)).follow
  case h_7 hkind => exact renders_returnStmt (s.kind_ne_eof hkind rfl)
  case h_8 hkind | h_9 hkind =>
    refine renders_advance_bind (s.kind_ne_eof hkind rfl) ?_
    refine renders_stmtFrom (State.previous_next_ne (s.kind_ne_eof hkind rfl)) (fun _ _ => rfl) ?_
    simp [TreePart.bodies_stmt, Stmt.bodies, Stmt.children]
  case h_10 hkind => exact renders_throwStmt (s.kind_ne_eof hkind rfl)
  case h_11 hkind => exact (renders_tryStmt h.statement (s.kind_ne_eof hkind rfl)).follow
  case h_12 hkind => exact (renders_asyncStmt h.statement (s.kind_ne_eof hkind rfl)).follow
  case h_13 | h_14 | h_15 | h_16 =>
    apply renders_bind_solid renders_modifiers
    intro names u hu _
    simp only [Renderable.render_strings]
    apply renders_bind (renders_function h.statement).follow
    intro f v hv _
    refine renders_stmtFrom ((hu.trans hv).previous_ne hs) (fun _ _ => rfl)
      fun span place hplace => ?_
    refine List.mem_append_left _ ?_
    rw [functionBodies]
    simpa [TreePart.bodies_stmt, Stmt.bodies, Stmt.children] using hplace
  case h_17 hkind =>
    apply renders_bind (renders_importDecl (s.kind_ne_eof hkind rfl)).follow
    intro item u hu _
    refine renders_stmtFrom (hu.previous_ne hs) (fun _ _ => rfl) fun span place hplace => ?_
    simp [TreePart.bodies_stmt, Stmt.bodies, Stmt.children] at hplace
  case h_18 hkind =>
    apply renders_bind (renders_exportDecl h.statement (s.kind_ne_eof hkind rfl))
    intro item u hu _
    refine renders_stmtFrom (hu.previous_ne hs) (fun _ _ => rfl) fun span place hplace => ?_
    refine List.mem_append_left _ ?_
    simpa [TreePart.bodies_stmt, Stmt.bodies, Stmt.children] using hplace
  case h_19 =>
    refine renders_map (renders_block h.statement).follow (fun _ _ => rfl)
      (fun b place hplace => ?_) (fun _ _ => trivial) fun a _ => AllWhole.whole a
    refine List.mem_append_left _ ?_
    rw [blockBodies]
    simpa [TreePart.bodies_stmt, Stmt.bodies, Stmt.children] using hplace
  case h_20 => exact renders_simpleStmt hs

theorem renders_statementRule (hs : s.previous ≠ none) :
    RendersFinal all stmtBodies B .unopened G (statementRule rules)
      (fun _ => statementRule rules) s := by
  unfold statementRule
  apply renders_bind (renders_bareStatement h hs)
  intro stmt u _ _
  have hend : ∀ {v : State} {G : Front} [G.Idle],
      RendersFinal all stmtBodies (stmtBodies stmt ++ B) .unopened G
        (pure stmt) (fun w => pure (reread w stmt)) v :=
    renders_pure (fun _ hplace => List.mem_append_left _ hplace) fun _ => trivial
  refine renders_eat_bind_of (by decide) (fun _ => hend) (fun _ => hend) ?_
  exact fun hne w taken ahead t hw _ _ hsees => hsees.kind_ne_of_final hw (by decide) (by decide) hne

end Rules

/-! ### Where no statement begins -/

/-- The reader does not give anything at `s`. -/
def Parse.Fails {α : Type} (p : Parse α) (s : State) : Prop := ∀ a u, p.run s ≠ (.ok a, u)

theorem fails_throw {α : Type} {e : Problem} : Fails (throw e : Parse α) s := fun _ _ => nofun

theorem fails_unexpected {α : Type} {expected : Expected} :
    Fails (unexpected expected : Parse α) s := fun _ _ => nofun

theorem fails_bind {α β : Type} {p : Parse α} (h : Fails p s) (f : α → Parse β) :
    Fails (p >>= f) s := by
  intro b u hrun
  obtain ⟨a, t, hp, -⟩ := run_bind_ok.1 hrun
  exact h a t hp

theorem Parse.Fails.of_eq {α : Type} {p q : Parse α} (h : Fails q s) (heq : p s = q s) :
    Fails p s := by
  intro a u hrun
  exact h a u (heq.symm.trans hrun)

section Shut

variable (hkind : s.kind = .rbrace ∨ s.kind = .rbracket)

include hkind

theorem fails_primary {rules : ExprRules} {tag : Parse Tag} : Fails (primary rules tag) s := by
  have hunexpected : primary rules tag s = (unexpected .expression : Parse Expr) s := by
    unfold primary
    rw [peek_bind]
    rcases hkind with h | h <;> rw [show s.peek.kind = _ from h]
  exact fails_unexpected.of_eq hunexpected

theorem fails_unaryRule {rules : ExprRules} {tag : Parse Tag} : Fails (unaryRule rules tag) s := by
  have hoperand : unaryRule rules tag s = operand rules tag s := by
    unfold unaryRule
    rw [peek_bind]
    rcases hkind with h | h <;> rw [show s.peek.kind = _ from h] <;> rfl
  exact Fails.of_eq (fails_bind (fails_primary hkind) _) hoperand

theorem fails_expression : Fails expression s := by
  have hunary : Fails (exprRules (s.rest.length + 1)).unary s :=
    Fails.of_eq (fails_unaryRule hkind) rfl
  have hbinary : Fails ((exprRules (s.rest.length + 1)).binary 1) s :=
    Fails.of_eq (fails_bind hunary _) rfl
  have hconditional : Fails (exprRules (s.rest.length + 1)).conditional s :=
    Fails.of_eq (fails_bind hbinary _) rfl
  exact Fails.of_eq hconditional rfl

/-- No statement begins with a bracket that closes. -/
theorem fails_statementRule {rules : StmtRules} : Fails (statementRule rules) s := by
  have hsimple : bareStatement rules s = simpleStmt s := by
    unfold bareStatement
    rw [here_bind, kind_bind]
    rcases hkind with h | h <;> rw [h]
  have hfails : Fails simpleStmt s := Fails.of_eq (fails_bind (fails_expression hkind) _) rfl
  exact fails_bind (hfails.of_eq hsimple) _

end Shut

/-! ### Statements at a depth -/

theorem restating_stmtRules (depth : Nat) : (stmtRules depth).Restating all := by
  induction depth with
  | zero =>
    refine ⟨⟨fun _ => renders_fail, fun _ => fails_throw⟩, fun _ => renders_fail⟩
  | succ depth ih =>
    exact ⟨⟨fun hs => renders_statementRule ih hs, fun hkind => fails_statementRule hkind⟩,
      fun hkind => renders_ifRule ih hkind⟩

/-- Statements give elsewhere what they give here: as many tokens are to come there, so that the
depth is the same. -/
theorem renders_statement (hs : s.previous ≠ none) :
    RendersFinal all stmtBodies B .unopened G statement (fun _ => statement) s := by
  have hdepth : ∀ t : State, statement t = (stmtRules (t.rest.length + 1)).statement t :=
    fun _ => rfl
  refine Renders.of_eq ((restating_stmtRules (s.rest.length + 1)).statement.renders hs)
    (hdepth s) ?_
  intro w taken ahead t hw _ _ hsees
  rw [hdepth t, hsees.length_eq hw]

theorem fails_statement (hkind : s.kind = .rbrace ∨ s.kind = .rbracket) : Fails statement s :=
  Fails.of_eq (fails_statementRule hkind) rfl

theorem restating_statement : Restating all statement :=
  ⟨renders_statement, fails_statement⟩

end ComponentLang.Grammar

/-! ## Programs, read elsewhere

Every item of a program begins with a token that is no bracket of a body. So a program gives
elsewhere what it gives here, when its first token is not the first of all. -/

namespace ComponentLang

namespace TreePart

/-- The places of the bodies in a program are those of the bodies in its items. -/
theorem bodies_program (p : Program) :
    (program p).bodies = p.exports.flatMap (fun item => (exportDecl item).bodies) ++
      (p.functions.flatMap (fun f => (function f).bodies) ++
        (p.components.flatMap (fun c => (component c).bodies) ++
          p.statements.flatMap fun s => (stmt s).bodies)) := by
  rw [bodies_eq]
  simp [children, ownBodies, List.flatMap_map]

end TreePart

namespace Grammar

open Parse
open Renderable (reread tame whole)

variable {all : List Token} {s : State} {B : List Span} {G : Front}

instance : Renderable Program where
  reread w := Program.remap (· + w.offset) w.span

instance : AllWhole Program := ⟨fun _ => trivial⟩

abbrev programBodies (p : Program) : List Span := (TreePart.program p).bodies

/-- A program with one more item. -/
theorem renders_more [G.Idle] {read : Program} {q : Rendering all → Parse Program}
    (hq : ∀ w, q w = pure (reread w read)) (hbodies : ∀ body ∈ programBodies read, body ∈ B) :
    RendersFinal all programBodies B .unopened G (pure read) q s := by
  obtain rfl : q = fun w => pure (reread w read) := funext hq
  exact renders_pure hbodies fun _ => trivial

theorem renders_item {p : Program} (hs : s.previous ≠ none) :
    RendersFinal all programBodies (programBodies p) .unopened G (item p)
      (fun w => item (reread w p)) s := by
  unfold item
  apply renders_kind_bind
  split
  case h_1 hkind =>
    apply renders_bind (renders_importDecl (s.kind_ne_eof hkind rfl)).follow
    intro decl u _ _
    refine renders_more (fun w => ?_) fun place h => ?_
    · simp [reread, Program.remap]
    · simpa [programBodies, TreePart.bodies_program] using h
  case h_2 hkind =>
    apply renders_bind (renders_exportDecl restating_statement (s.kind_ne_eof hkind rfl))
    intro decl u _ _
    refine renders_more (fun w => ?_) fun place h => ?_
    · simp [reread, Program.remap]
    · simp only [programBodies, TreePart.bodies_program, List.flatMap_append, List.mem_append,
        List.flatMap_singleton] at h ⊢
      tauto
  case h_3 =>
    split
    · apply renders_bind (renders_declaration restating_statement).follow
      intro declared u _ _
      cases declared with
      | inl f =>
        refine renders_more (fun w => ?_) fun place h => ?_
        · simp [reread, Program.remap]
        · simp only [programBodies, TreePart.bodies_program, List.flatMap_append, List.mem_append,
            List.flatMap_singleton, Sum.elim_inl] at h ⊢
          tauto
      | inr c =>
        refine renders_more (fun w => ?_) fun place h => ?_
        · simp [reread, Program.remap]
        · simp only [programBodies, TreePart.bodies_program, List.flatMap_append, List.mem_append,
            List.flatMap_singleton, Sum.elim_inr] at h ⊢
          tauto
    · apply renders_bind (renders_statement hs)
      intro stmt u _ _
      refine renders_more (fun w => ?_) fun place h => ?_
      · simp [reread, Program.remap]
      · simp only [programBodies, TreePart.bodies_program, List.flatMap_append, List.mem_append,
          List.flatMap_singleton] at h ⊢
        tauto

theorem renders_recoveringItem {p : Program} (hs : s.previous ≠ none) :
    RendersFinal all programBodies (programBodies p) .unopened G (recoveringItem p)
      (fun w => recoveringItem (reread w p)) s := by
  unfold recoveringItem
  apply renders_attempt_bind (renders_item hs)
  · exact fun _ _ _ _ _ _ _ => trivial
  · intro read u _ _
    exact renders_pure (a := read) (fun _ hplace => List.mem_append_left _ hplace) fun _ => trivial
  · intro problem u _
    refine reports_recover.spoils_bind fun placeholder v => ?_
    rw [ends_kind_bind]
    split
    · exact ⟨v.proceeds_next, trivial⟩
    · exact ⟨.refl v, trivial⟩

theorem renders_programStep {p : Program} (hs : s.previous ≠ none) :
    RendersFinal all (Turn.bodies programBodies programBodies) (programBodies p) .unopened .clear
      (programStep p) (fun w => programStep (reread w p)) s := by
  unfold programStep
  by_cases hend : s.atEnd = true
  · refine renders_get_bind (q := fun w => pure (.done (reread w p))) ?_ ?_
    · rw [if_pos hend]
      exact renders_done (fun _ => trivial) fun _ hplace => hplace
    · intro w taken ahead t hw _ _ hsees
      rw [if_pos ((hsees.atEnd_eq hw).trans hend)]
  · refine renders_get_bind (q := fun w => do
      if ← eat .semicolon then return .again (reread w p)
      else
        let p ← recoveringItem (reread w p)
        ensureProgress s.rest.length
        return .again p) ?_ ?_
    · rw [if_neg hend]
      refine renders_eat_bind_of (by decide) ?_ ?_ ?_
      · intro _
        simp only [if_true]
        exact (renders_again (fun _ => trivial) fun _ hplace => hplace).anyFront
      · intro _
        simp only [Bool.false_eq_true, if_false]
        apply renders_bind (renders_recoveringItem hs)
        intro read u _ _
        apply renders_bind (renders_ensureProgress _).follow
        intro _ v _ _
        exact renders_again (fun _ => trivial) fun _ hplace =>
          List.mem_append_right _ (List.mem_append_left _ hplace)
      · intro hne w taken ahead t hw _ _ hsees
        exact hsees.kind_ne_of_final hw (by decide) (by decide) hne
    · intro w taken ahead t hw _ _ hsees
      rw [if_neg (by rwa [hsees.atEnd_eq hw]), hsees.length_eq hw]

end Grammar

end ComponentLang
