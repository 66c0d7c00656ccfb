import ComponentLang.Proofs.Grammar.Abreast.Declaration

/-!
# Statements, abreast

A loop with three clauses is the only statement with a semicolon in it. It does not end with its
semicolons, so neither of them is the last token.
-/
namespace ComponentLang.Grammar

open Parse
open State (Abreast Open)

variable {word : String → Prop} {more : Beyond} {s t u v : State}

theorem keeps_countingLoop {start span : Span} {name : String} {bounds : Expr × Expr}
    {body : Block} : Keeps (countingLoop start span name bounds body) := by
  unfold countingLoop
  apply keeps_node_bind
  intro counter
  apply keeps_node_bind
  intro test
  apply keeps_node_bind
  intro target
  exact keeps_bind (keeps_of_builds builds_impliedNumber) fun _ => keeps_stmtFrom

theorem isNone_of_rel {α β : Type} {R : α → β → Prop} {o : Option α} {o' : Option β}
    (h : Option.Rel R o o') : o'.isNone = o.isNone := by
  cases h <;> rfl

section Compound

variable {statement statement' : Parse Stmt} (hstatement : Pursued word more statement statement')

include hstatement

/-! ## Branches and loops -/

theorem tracks_whileStmt (hst : Open word more s t) (hkind : s.kind ≠ .semicolon) :
    Tracks Silent (Open word more) (Agrees word .stmt) (whileStmt statement)
      (whileStmt statement') s t := by
  unfold whileStmt
  apply tracks_advance_bind hst hkind
  intro token htoken hnext
  rw [htoken.span]
  apply tracks_bind (mirrors_headExpression hnext)
  intro test test' s' t' htest hst'
  apply tracks_bind_silent (tracks_body hstatement hst') id fun _ => keeps_stmtFrom
  intro body body' u v hbody huv
  exact tracks_stmtFrom huv fun _ => agrees_whileLoop htest hbody

theorem tracks_clauseLoop {start : Span} (hst : Open word more s t) :
    Tracks Silent (Open word more) (Agrees word .stmt) (clauseLoop statement start)
      (clauseLoop statement' start) s t := by
  unfold clauseLoop
  apply tracks_expect_bind hst (by simp)
  intro _ _ _ hst₁
  apply tracks_bind (mirrors_loopInit hst₁)
  intro init init' s₂ t₂ hinit hst₂
  apply tracks_expect_semicolon_bind hst₂
  · apply starts_kind_bind
    split
    · exact starts_expect_bind (by simp) _
    · exact starts_bind (starts_map starts_expression _) _
  intro _ _ hst₃
  apply tracks_kind_bind hst₃
  apply tracks_ite_bind (Q := Option.Rel (Expr.Agrees word)) (C := Open word more)
    (tracks_pure hst₃ .none) (tracks_map (mirrors_expression hst₃) .some)
  intro test test' s₄ t₄ htest hst₄
  apply tracks_expect_semicolon_bind hst₄
  · apply starts_kind_bind
    split
    · exact starts_expect_bind (by simp) _
    · exact starts_bind (starts_map starts_simpleStmt _) _
  intro _ _ hst₅
  apply tracks_kind_bind hst₅
  apply tracks_ite_bind (Q := Option.Rel (Agrees word .stmt)) (C := Open word more)
    (tracks_pure hst₅ .none) (tracks_map (mirrors_simpleStmt hst₅) .some)
  intro update update' s₆ t₆ hupdate hst₆
  apply tracks_expect_bind hst₆ (by simp)
  intro _ _ _ hst₇
  apply tracks_bind_silent (tracks_body hstatement hst₇) id fun _ => keeps_stmtFrom
  intro body body' u v hbody huv
  exact tracks_stmtFrom huv fun _ => agrees_forLoop hinit htest hupdate hbody

theorem tracks_forStmt (hst : Open word more s t) (hkind : s.kind ≠ .semicolon) :
    Tracks Silent (Open word more) (Agrees word .stmt) (forStmt statement) (forStmt statement')
      s t := by
  unfold forStmt
  apply tracks_advance_bind hst hkind
  intro token htoken hnext
  rw [htoken.span]
  apply tracks_kind_bind hnext
  split
  · exact tracks_clauseLoop hstatement hnext
  · apply tracks_here_bind hnext
    apply tracks_expectIdentifier_bind hnext
    intro _ hnext'
    apply tracks_eat_if hnext' (by simp)
    · intro _ hst₁
      apply tracks_bind (mirrors_headExpression hst₁)
      intro iterable iterable' s₂ t₂ hiterable hst₂
      apply tracks_bind_silent (tracks_body hstatement hst₂) id fun _ => keeps_stmtFrom
      intro body body' u v hbody huv
      exact tracks_stmtFrom huv fun _ => agrees_forIn hiterable hbody
    · intro _
      apply tracks_eat_if hnext' (by simp)
      · intro _ hst₁
        apply tracks_bind (mirrors_loopBounds hst₁)
        intro bounds bounds' s₂ t₂ hbounds hst₂
        apply tracks_bind_silent (tracks_body hstatement hst₂) id
          fun _ => keeps_countingLoop
        intro body body' u v hbody huv
        exact tracks_countingLoop hbounds.1 hbounds.2 hbody huv
      · intro _
        exact tracks_unexpected

/-! ## Failure and asynchrony -/

theorem tracks_catchClause (hst : Open word more s t) :
    Tracks Silent (Open word more) (CatchClause.Agrees word) (catchClause statement)
      (catchClause statement') s t := by
  have hbody : ∀ {param : Option String} {s t : State}, Open word more s t →
      Tracks Silent (Open word more) (CatchClause.Agrees word)
        (do return ⟨param, ← body statement⟩) (do return ⟨param, ← body statement'⟩) s t := by
    intro param s t hst
    apply tracks_bind_silent (tracks_body hstatement hst) id fun _ => keeps_pure _
    intro body body' s' t' hbody hst'
    exact tracks_pure hst' ⟨rfl, hbody⟩
  unfold catchClause
  apply tracks_eat_if hst (by simp)
  · intro _ hnext
    apply tracks_expectIdentifier_bind hnext
    intro _ hnext'
    apply tracks_expect_bind hnext' (by simp)
    intro _ _ _ hnext''
    exact hbody hnext''
  · intro _
    exact hbody hst

theorem tracks_tryStmt (hst : Open word more s t) (hkind : s.kind ≠ .semicolon) :
    Tracks Silent (Open word more) (Agrees word .stmt) (tryStmt statement) (tryStmt statement')
      s t := by
  have hhandler := keeps_of_builds (builds_some (builds_catchClause hstatement.builds))
  have hcleanup := keeps_of_builds (builds_some (builds_body hstatement.builds))
  have hend : ∀ {start : Span} {block : Block} {handler : Option CatchClause}
      {cleanup : Option Block}, Keeps (if handler.isNone && cleanup.isNone then
        unexpected .handler else stmtFrom start (.tryStmt · block handler cleanup)) := by
    intro start block handler cleanup
    split
    · exact keeps_unexpected
    · exact keeps_stmtFrom
  have hends : ∀ {start : Span} {block : Block} {handler : Option CatchClause}, Keeps (do
      let cleanup ← if ← eat (.keyword .finallyKw) then some <$> body statement else pure none
      if handler.isNone && cleanup.isNone then unexpected .handler
      else stmtFrom start (.tryStmt · block handler cleanup)) := by
    intro start block handler
    apply keeps_eat_bind
    intro taken
    exact keeps_ite_bind hcleanup (keeps_pure none) fun _ => hend
  unfold tryStmt
  apply tracks_advance_bind hst hkind
  intro token htoken hnext
  rw [htoken.span]
  apply tracks_bind_silent (tracks_body hstatement hnext) id
  · intro block
    apply keeps_eat_bind
    intro taken
    exact keeps_ite_bind hhandler (keeps_pure none) fun _ => hends
  intro block block' s₁ t₁ hblock hst₁
  apply tracks_bind (mirrors_eat hst₁ (by simp))
  rintro caught _ s₂ t₂ rfl hst₂
  apply tracks_ite_bind_silent (Q := Option.Rel (CatchClause.Agrees word)) (C := Open word more)
    (tracks_some (tracks_catchClause hstatement hst₂)) (tracks_pure hst₂ .none) fun _ => hends
  intro handler handler' s₃ t₃ hagrees hst₃
  apply tracks_bind (mirrors_eat hst₃ (by simp))
  rintro finished _ s₄ t₄ rfl hst₄
  apply tracks_ite_bind_silent (Q := Option.Rel (Agrees word .block)) (C := Open word more)
    (tracks_some (tracks_body hstatement hst₄)) (tracks_pure hst₄ .none) fun _ => hend
  intro cleanup cleanup' u v hagrees' huv
  dsimp only
  rw [isNone_of_rel hagrees, isNone_of_rel hagrees']
  split
  · exact tracks_unexpected
  · exact tracks_stmtFrom huv fun _ => agrees_tryStmt hblock hagrees hagrees'

omit hstatement in
theorem tracks_asyncSegment {α : Type} {Q : α → α → Prop} {keyword : Keyword}
    {content content' : Parse α} {expected : Expected} (hst : Open word more s t)
    (hcontent : ∀ {s t}, Open word more s t →
      Tracks Silent (Open word more) Q content content' s t) :
    Tracks Silent (Open word more) (Option.Rel Q) (asyncSegment keyword content expected)
      (asyncSegment keyword content' expected) s t := by
  unfold asyncSegment
  apply tracks_get_bind
  rw [hst.bracketed]
  split
  next hbrackets =>
    rw [Bool.and_eq_true, decide_eq_true_iff, decide_eq_true_iff] at hbrackets
    obtain ⟨hbracket, hword⟩ := hbrackets
    have hsecond := State.next_kind_of_second (by simp [hbracket]) hword
    apply tracks_advance_bind hst (State.ne_of_kind hbracket (by simp))
    intro _ _ hnext
    apply tracks_advance_bind hnext (State.ne_of_kind hsecond (by simp))
    intro _ _ hnext'
    apply tracks_bind_silent (hcontent hnext') id
      fun _ => keeps_expect_bind fun _ => keeps_pure _
    intro value value' u v hvalue huv
    apply tracks_expect_bind huv (by simp)
    intro _ _ _ hlast
    exact tracks_pure hlast (.some hvalue)
  next => exact tracks_pure hst .none

theorem tracks_asyncStmt (hst : Open word more s t) (hkind : s.kind ≠ .semicolon) :
    Tracks Silent (Open word more) (Agrees word .stmt) (asyncStmt statement)
      (asyncStmt statement') s t := by
  have hhandler : Keeps (asyncSegment .catchKw (catchClause statement) .asyncCatchEnd) :=
    keeps_of_builds (builds_asyncSegment (builds_catchClause hstatement.builds))
  have hcleanup : Keeps (asyncSegment .finallyKw (body statement) .asyncFinallyEnd) :=
    keeps_of_builds (builds_asyncSegment (builds_body hstatement.builds))
  have hend : ∀ {start : Span} {build : Span → Stmt}, Keeps (do
      let _ ← expect .rbrace .asyncEnd
      stmtFrom start build) := keeps_expect_bind fun _ => keeps_stmtFrom
  unfold asyncStmt
  apply tracks_advance_bind hst hkind
  intro token htoken hnext
  rw [htoken.span]
  apply tracks_expect_bind hnext (by simp)
  intro _ _ _ hnext'
  apply tracks_kind_bind hnext'
  split
  · apply tracks_bind_silent (tracks_block hstatement hnext') id
      fun _ => keeps_bind hhandler fun _ => keeps_bind hcleanup fun _ => hend
    intro block block' s₁ t₁ hblock hst₁
    apply tracks_bind_silent
      (tracks_asyncSegment hst₁ fun hst' => tracks_catchClause hstatement hst') id
      fun _ => keeps_bind hcleanup fun _ => hend
    intro handler handler' s₂ t₂ hagrees hst₂
    apply tracks_bind_silent
      (tracks_asyncSegment hst₂ fun hst' => tracks_body hstatement hst') id fun _ => hend
    intro cleanup cleanup' s₃ t₃ hagrees' hst₃
    apply tracks_expect_bind hst₃ (by simp)
    intro _ _ _ huv
    exact tracks_stmtFrom huv fun _ => agrees_asyncBlock hblock hagrees hagrees'
  · exact tracks_unexpected

end Compound

/-! ## All statements -/

/-- The second rules follow the first. -/
structure StmtRules.Pursued (word : String → Prop) (more : Beyond) (rules rules' : StmtRules) :
    Prop where
  statement : Grammar.Pursued word more rules.statement rules'.statement
  ifStmt {s t : State} (hst : Open word more s t) (hkind : s.kind ≠ .semicolon) :
    Tracks Silent (Open word more) (Agrees word .stmt) rules.ifStmt rules'.ifStmt s t
  account : rules.Account

variable {rules rules' : StmtRules}

theorem tracks_ifRule (hrules : rules.Pursued word more rules') (hst : Open word more s t)
    (hkind : s.kind ≠ .semicolon) :
    Tracks Silent (Open word more) (Agrees word .stmt) (ifRule rules) (ifRule rules') s t := by
  have hstatement := hrules.statement
  have hblock : Keeps ((fun b => some (.block b)) <$> body rules.statement : Parse (Option Stmt)) :=
    keeps_map (keeps_of_builds (builds_body hstatement.builds))
  have helse : Keeps (some <$> rules.ifStmt) :=
    keeps_of_builds (builds_some hrules.account.ifStmt)
  unfold ifRule
  apply tracks_advance_bind hst hkind
  intro token htoken hnext
  rw [htoken.span]
  apply tracks_bind (mirrors_headExpression hnext)
  intro test test' s₁ t₁ htest hst₁
  apply tracks_bind_silent (tracks_body hstatement hst₁) id
  · intro consequent
    apply keeps_eat_if
    · apply keeps_kind_bind
      intro kind
      exact keeps_ite_bind helse hblock fun _ => keeps_stmtFrom
    · exact keeps_bind (keeps_pure none) fun _ => keeps_stmtFrom
  intro consequent consequent' s₂ t₂ hconsequent hst₂
  apply tracks_eat_if hst₂ (by simp)
  · intro _ hst₃
    apply tracks_kind_bind hst₃
    split
    next hif =>
      apply tracks_bind_silent
        (tracks_some (hrules.ifStmt hst₃ (State.ne_of_kind hif (by simp)))) id
        fun _ => keeps_stmtFrom
      intro alternate alternate' u v halternate huv
      exact tracks_stmtFrom huv fun _ => agrees_ifElse htest hconsequent halternate
    next =>
      apply tracks_bind_silent (Q := Option.Rel (Agrees word .stmt))
        (tracks_map (tracks_body hstatement hst₃) fun h => .some (agrees_block h)) id
        fun _ => keeps_stmtFrom
      intro alternate alternate' u v halternate huv
      exact tracks_stmtFrom huv fun _ => agrees_ifElse htest hconsequent halternate
  · intro _
    apply tracks_bind (Q := Option.Rel (Agrees word .stmt)) (tracks_pure hst₂ .none)
    intro alternate alternate' u v halternate huv
    exact tracks_stmtFrom huv fun _ => agrees_ifElse htest hconsequent halternate

/-- Only an export may end with a semicolon of its own. -/
theorem Parse.Tracks.severed {p p' : Parse Stmt}
    (h : Tracks Silent (Open word more) (Agrees word .stmt) p p' s t) :
    Tracks (Finished more s) (Severed word more) (Agrees word .stmt) p p'
      s t :=
  h.mono And.left (fun _ h => h.severed) id

theorem tracks_bareStatement (hrules : rules.Pursued word more rules') (hst : Open word more s t) :
    Tracks (Finished more s) (Severed word more) (Agrees word .stmt)
      (bareStatement rules) (bareStatement rules') s t := by
  have hstatement := hrules.statement
  have hne : ∀ {kind : TokenKind}, s.kind = kind → kind ≠ .semicolon → s.kind ≠ .semicolon :=
    fun h hne => h ▸ hne
  unfold bareStatement
  apply tracks_here_bind hst
  apply tracks_kind_bind hst
  split
  case h_1 h | h_2 h | h_3 h => exact (mirrors_variableStmt hst (hne h (by simp))).sure.severed
  case h_4 h => exact (tracks_ifRule hrules hst (hne h (by simp))).severed
  case h_5 h => exact (tracks_whileStmt hstatement hst (hne h (by simp))).severed
  case h_6 h => exact (tracks_forStmt hstatement hst (hne h (by simp))).severed
  case h_7 h => exact (mirrors_returnStmt hst (hne h (by simp))).sure.severed
  case h_8 h | h_9 h =>
    refine Tracks.severed ?_
    apply tracks_advance_bind hst (hne h (by simp))
    intro _ _ hnext
    exact tracks_stmtFrom hnext fun _ => agrees_refl _ _
  case h_10 h => exact (mirrors_throwStmt hst (hne h (by simp))).sure.severed
  case h_11 h => exact (tracks_tryStmt hstatement hst (hne h (by simp))).severed
  case h_12 h => exact (tracks_asyncStmt hstatement hst (hne h (by simp))).severed
  case h_13 | h_14 | h_15 | h_16 =>
    refine Tracks.severed ?_
    apply tracks_bind (mirrors_modifiers hst)
    rintro modifiers _ s' t' rfl hst'
    apply tracks_bind_silent (tracks_function hstatement hst') id fun _ => keeps_stmtFrom
    intro function function' u v hfunction huv
    exact tracks_stmtFrom huv fun _ => agrees_functionDecl hfunction
  case h_17 h =>
    refine Tracks.severed ?_
    apply tracks_bind (mirrors_importDecl hst (hne h (by simp)))
    rintro item _ s' t' rfl hst'
    exact tracks_stmtFrom hst' fun _ => agrees_refl _ _
  case h_18 h =>
    have hexport : ∀ {span : Span} {item : Export},
        ((Stmt.exportDecl span item).isExport && s.kind = .keyword .exportKw) = true := by
      simp [Stmt.isExport, h]
    apply tracks_bind_if (tracks_exportDecl hstatement hst (hne h (by simp)))
    · intro item s' stmt u hrun hend
      cases hrun
      exact ⟨hend.1, fun _ => hend.2 hexport⟩
    · intro item item' s' t' hitem hst' stmt u hrun hend
      cases hrun
      refine ⟨.exportDecl (t'.spanFrom s.here) item', t', rfl, ?_, ⟨hst', hend.2 hexport⟩, rfl⟩
      rw [hst'.spanFrom]
      exact agrees_exportDecl hitem
  case h_19 =>
    refine Tracks.severed ?_
    exact tracks_map (tracks_block hstatement hst) agrees_block
  case h_20 => exact (mirrors_simpleStmt hst).sure.severed

theorem tracks_statementRule (hrules : rules.Pursued word more rules') (hst : Open word more s t) :
    Tracks (Finished more s) (Abreast word more) (Agrees word .stmt)
      (statementRule rules) (statementRule rules') s t := by
  unfold statementRule
  apply tracks_bind_if (tracks_bareStatement hrules hst)
  · intro stmt s' c u hrun hend
    obtain ⟨taken, w, heat, hpure⟩ := run_bind_ok.1 hrun
    cases hpure
    refine parted_of_eat ?_
    rw [heat]
    exact hend
  · intro stmt stmt' s' t' hstmt hst'
    apply tracks_bind (tracks_eat_semicolon hst')
    rintro taken _ u v - huv
    exact tracks_pure huv hstmt

theorem pursued_stmtRules {depth depth' : Nat} (hle : depth ≤ depth') :
    (stmtRules depth).Pursued word more (stmtRules depth') := by
  induction depth generalizing depth' with
  | zero =>
      have haccount := account_stmtRules 0
      exact ⟨⟨fun _ => tracks_fail, haccount.statement⟩, fun _ _ => tracks_fail, haccount⟩
  | succ depth ih =>
      obtain ⟨depth', rfl⟩ : ∃ n, depth' = n + 1 := ⟨depth' - 1, by omega⟩
      have hrules : (stmtRules depth).Pursued word more (stmtRules depth') := ih (by omega)
      have haccount := account_stmtRules (depth + 1)
      constructor
      · exact ⟨fun hst => (tracks_statementRule hrules hst).of_eq rfl rfl, haccount.statement⟩
      · exact fun hst hkind => (tracks_ifRule hrules hst hkind).of_eq rfl rfl
      · exact haccount

/-- A statement is read alike when words have other texts and when there is more behind it. -/
theorem pursued_statement : Pursued word more statement statement where
  tracks hst := ((pursued_stmtRules hst.length_le).statement.tracks hst).of_eq rfl rfl
  builds := builds_statement

end ComponentLang.Grammar
