import ComponentLang.Grammar.Program
import ComponentLang.Proofs.Grammar.Statement

/-!
# Reading a program comes to an end

Whatever tokens a program is read from, all of them are read, no reader goes back, and no two turns
of statement loops begin at one token. The tokens therefore bound the turns, and the turns bound
the problems.
-/
namespace ComponentLang.Grammar

open Parse

variable {n : Nat} {s : State}

/-! ## Items -/

theorem skims_item {program : Program} : Skims (State.Moves n 0) (item program) s := by
  have hstatement : SkimsBelow (State.Moves n 0) (s.rest.length + 1) statement :=
    fun _ _ => skims_statement
  unfold item
  simp only [takes_kind_bind]
  split
  · apply takes_bind skims_importDecl
    intro import_ t _ _
    simp
  · have hle := State.length_rest_next s
    apply takes_bind (skims_exportDecl hstatement (by omega))
    intro export_ t _ _
    simp
  · split
    · apply takes_bind (skims_declaration hstatement (Nat.le_succ _))
      intro declared t _ _
      cases declared with
      | inl function => simp
      | inr component => simp
    · apply takes_bind skims_statement
      intro stmt t _ _
      simp

theorem gives_recoveringItem {program : Program} :
    Gives (fun _ t => s.Attempts n t) (recoveringItem program) s := by
  unfold recoveringItem
  apply ends_attempt_bind (skims_item (n := n))
  · intro program t ⟨hst, _⟩
    exact ⟨t, hst, (Travel.refl (R := State.Drops) t).settles⟩
  · intro problem t ⟨hst, hcause⟩
    rw [ends_bind]
    apply (gives_recover_attempts hst hcause).mono
    intro placeholder u hattempts
    rw [ends_kind_bind]
    split
    · rw [ends_advance_bind]
      exact hattempts.drops (Travel.next u)
    · exact hattempts

theorem gives_programStep {program : Program} :
    Gives (fun turn t => s.Moves n 1 t ∧ match turn with
      | .again _ => t.rest.length < s.rest.length
      | .done _ => t.rest = []) (programStep program) s := by
  unfold Gives programStep
  rw [ends_get_bind]
  split
  next hend => exact ⟨Travel.refl s, State.atEnd_iff.1 hend⟩
  next hend =>
    have hpos := State.length_pos_of_not_atEnd hend
    rw [ends_eat_bind]
    split
    next hkind =>
      have hless := State.length_next_lt (s := s) (by simp [hkind])
      exact ⟨Travel.next s, hless⟩
    next => exact gives_turn hpos gives_recoveringItem fun _ _ hmoves hless => ⟨hmoves, hless⟩

/-- A program is read to the end from whatever state. -/
theorem gives_program :
    Gives (fun _ t => s.Moves n 1 t ∧ t.rest = []) program s := by
  refine ends_iterate (I := s.Moves n 1) ?_ _ (Travel.refl s)
  intro program t hst
  apply (gives_programStep (n := n)).mono
  intro turn u ⟨htu, hturn⟩
  have hsu := hst.trans htu
  match turn, hturn with
  | .again program, hless => exact ⟨hsu, hless⟩
  | .done program, hend => exact ⟨hsu, hend⟩

/-! ## The readers -/

/-- The readers of the grammar; those that are read at a depth are taken at one that is enough. -/
inductive Rule : {α : Type} → Parse α → Prop
  | typeExpr : Rule typeExpr
  | typeAnnotation : Rule typeExpr?
  | expression : Rule expression
  | binary (least : Nat) : Rule (fun s => (rulesFor s).binary least s : Parse Expr)
  | unary : Rule (fun s => (rulesFor s).unary s : Parse Expr)
  | headExpression : Rule headExpression
  | tag : Rule tag
  | importDecl : Rule importDecl
  | modifiers : Rule modifiers
  | param : Rule param
  | function (modifiers : List String) : Rule (function statement modifiers)
  | method : Rule (method statement)
  | markupRun : Rule markupRun
  | renderSection : Rule renderSection
  | member (members : Members) : Rule (member statement members)
  | memberStep (members : Members) : Rule (memberStep statement members)
  | component (modifiers : List String) : Rule (component statement modifiers)
  | declaration : Rule (declaration statement)
  | exportDecl : Rule (exportDecl statement)
  | simpleStmt : Rule simpleStmt
  | variableStmt : Rule variableStmt
  | returnStmt : Rule returnStmt
  | throwStmt : Rule throwStmt
  | ifStmt : Rule (fun s => (stmtRules (s.rest.length + 1)).ifStmt s : Parse Stmt)
  | whileStmt : Rule (whileStmt statement)
  | forStmt : Rule (forStmt statement)
  | tryStmt : Rule (tryStmt statement)
  | asyncStmt : Rule (asyncStmt statement)
  | statement : Rule statement
  | synchronize : Rule synchronize
  | recover (problem : Problem) : Rule (recover problem)
  | recovering : Rule (recovering statement)
  | ensureProgress (before : Nat) : Rule (ensureProgress before)
  | blockStep (close : TokenKind) (stmts : List Stmt) : Rule (blockStep statement close stmts)
  | block (bracket : Bracket) : Rule (block statement bracket)
  | body : Rule (body statement)
  | item (program : Program) : Rule (item program)
  | recoveringItem (program : Program) : Rule (recoveringItem program)
  | programStep (program : Program) : Rule (programStep program)
  | program : Rule program

theorem follows_of_takes {α : Type} {p : Parse α} {k : Nat} {Q : α → State → Prop}
    (h : Takes (State.Moves 0 k) Q p s) : s.Follows (p.run s).2 := by
  unfold Takes Ends at h
  split at h
  next a t hrun =>
    rw [hrun]
    exact h.1.toFollows
  next e t hrun =>
    rw [hrun]
    exact h.1.toFollows

theorem follows_of_gives {α : Type} {p : Parse α} {good : α → State → Prop}
    (h : Gives good p s) (hgood : ∀ a t, good a t → s.Follows t) : s.Follows (p.run s).2 := by
  obtain ⟨a, -, ht⟩ := h.exists_ok
  exact hgood a _ ht

theorem follows_ensureProgress {before : Nat} :
    s.Follows ((ensureProgress before).run s).2 := by
  have hcount : s.Follows (s.count before) :=
    ⟨List.suffix_refl _, Nat.le_succ _, List.suffix_cons _ _, List.suffix_refl _⟩
  have hgives : Gives (fun _ t => (s.count before).Follows t) (ensureProgress before) s := by
    unfold Gives ensureProgress
    rw [ends_modify_bind, ends_get_bind]
    change Ends _ _ _ (s.count before)
    split
    · exact ⟨List.nil_suffix, Nat.le_refl _, List.suffix_refl _, List.suffix_cons _ _⟩
    · split
      · exact (Travel.next (R := State.Drops) _).follows
      · exact (Travel.refl (R := State.Drops) _).follows
  exact follows_of_gives hgives fun _ _ ht => hcount.trans ht

/-- No reader takes anything back, wherever it begins. -/
theorem Rule.follows {α : Type} {p : Parse α} (h : Rule p) (s : State) :
    s.Follows (p.run s).2 := by
  have hstatement : SkimsBelow (State.Moves 0 0) (s.rest.length + 1)
      ComponentLang.Grammar.statement := fun _ _ => skims_statement
  have hle := Nat.le_succ s.rest.length
  have hlt := Nat.lt_succ_self s.rest.length
  have hnext : s.next.rest.length < s.rest.length + 1 := by
    rw [State.length_rest_next]
    omega
  cases h with
  | typeExpr => exact follows_of_takes (k := 0) skims_typeExpr
  | typeAnnotation => exact follows_of_takes (k := 0) skims_typeExpr?
  | expression => exact follows_of_takes (k := 0) skims_expression
  | binary least =>
      have hbinary := (keep_exprRules (R := State.Moves 0 0) (s.rest.length + 1)).binary least s hlt
      exact follows_of_takes (k := 0) (hbinary.of_eq rfl)
  | unary =>
      have hunary := (keep_exprRules (R := State.Moves 0 0) (s.rest.length + 1)).unary s hlt
      exact follows_of_takes (k := 0) (hunary.of_eq rfl)
  | headExpression => exact follows_of_takes (k := 0) skims_headExpression
  | tag => exact follows_of_takes (k := 0) reads_tag
  | importDecl => exact follows_of_takes (k := 0) skims_importDecl
  | modifiers => exact follows_of_takes (k := 0) skims_modifiers
  | param => exact follows_of_takes (k := 0) skims_param
  | function _ => exact follows_of_takes (k := 0) (skims_function hstatement hle)
  | method => exact follows_of_takes (k := 0) (skims_method hstatement hle)
  | markupRun => exact follows_of_takes (k := 0) takes_markupRun
  | renderSection => exact follows_of_takes (k := 0) takes_renderSection
  | member _ => exact follows_of_takes (k := 0) (takes_member hstatement hlt)
  | memberStep _ => exact follows_of_takes (k := 1) (turns_memberStep hstatement hlt)
  | component _ => exact follows_of_takes (k := 0) (skims_component hstatement hle)
  | declaration => exact follows_of_takes (k := 0) (skims_declaration hstatement hle)
  | exportDecl => exact follows_of_takes (k := 0) (skims_exportDecl hstatement hnext)
  | simpleStmt => exact follows_of_takes (k := 0) skims_simpleStmt
  | variableStmt => exact follows_of_takes (k := 0) skims_variableStmt
  | returnStmt => exact follows_of_takes (k := 0) skims_returnStmt
  | throwStmt => exact follows_of_takes (k := 0) skims_throwStmt
  | ifStmt =>
      have hif := (keep_stmtRules (n := 0) (s.rest.length + 1)).ifStmt s hlt
      exact follows_of_takes (k := 0) (hif.of_eq rfl)
  | whileStmt => exact follows_of_takes (k := 0) (skims_whileStmt hstatement hle)
  | forStmt => exact follows_of_takes (k := 0) (skims_forStmt hstatement hle)
  | tryStmt => exact follows_of_takes (k := 0) (skims_tryStmt hstatement hle)
  | asyncStmt => exact follows_of_takes (k := 0) (skims_asyncStmt hstatement hle)
  | statement => exact follows_of_takes (k := 0) skims_statement
  | synchronize =>
      exact follows_of_gives gives_synchronize fun _ _ ht => ht.follows
  | recover problem =>
      have hreport : s.Follows (s.report problem) :=
        ⟨List.suffix_refl _, Nat.le_refl _, List.suffix_refl _, List.suffix_cons _ _⟩
      exact follows_of_gives gives_recover fun _ _ ht => hreport.trans ht.follows
  | recovering =>
      exact follows_of_gives (gives_recovering (n := 0) skims_statement) fun _ _ ht => ht.follows
  | ensureProgress _ => exact follows_ensureProgress
  | blockStep _ _ => exact follows_of_takes (k := 1) (turns_blockStep skims_statement)
  | block _ => exact follows_of_takes (k := 0) (skims_block (hstatement.mono hle))
  | body => exact follows_of_takes (k := 0) (skims_body (hstatement.mono hle))
  | item _ => exact follows_of_takes (k := 0) skims_item
  | recoveringItem _ =>
      exact follows_of_gives (gives_recoveringItem (n := 0)) fun _ _ ht => ht.follows
  | programStep _ =>
      exact follows_of_gives (gives_programStep (n := 0)) fun _ _ ⟨ht, _⟩ => ht.toFollows
  | program =>
      exact follows_of_gives (gives_program (n := 0)) fun _ _ ⟨ht, _⟩ => ht.toFollows

/-! ## A whole program -/

/-- Nothing is counted or reported at the start, and the limit is beyond the number of tokens. -/
theorem State.paced_start (tokens : List Token) :
    (State.start tokens).Paced (State.start tokens).rest.length where
  within := Nat.le_refl _
  limited := by
    have htaken : (State.start tokens).rest.length ≤
        (tokens.filter fun t => !t.kind.isError).length :=
      (List.takeWhile_prefix _).length_le
    apply Nat.le_trans htaken
    unfold State.start
    dsimp only
    split <;> omega
  counted := rfl
  distinct := List.nodup_nil
  behind := by simp [State.start]
  reported := Nat.le_refl _
  unlimited := by simp [State.start]

/-- The limit of turns is never reported. -/
theorem unlimited_parse (tokens : List Token) :
    ∀ d ∈ (parse tokens).diagnostics, d.message ≠ Cause.iterationLimit.message := by
  obtain ⟨-, -, hmoves, -⟩ :=
    (gives_program (n := (State.start tokens).rest.length) (s := .start tokens)).exists_ok
  intro d hd
  exact (hmoves.paced (State.paced_start tokens)).unlimited d (List.mem_reverse.1 hd)

/-- A program is read from every list of tokens, to the end. On the way no reader goes back, no two
turns of statement loops begin with the same number of tokens to come, and every turn begins before
the end. So there are no more turns than tokens that are read, and no more problems than turns; the
limit of turns is at least as high and is never reported. -/
theorem parse_progress (tokens : List Token) :
    let count :=
      ((tokens.filter fun t => !t.kind.isError).takeWhile fun t => t.kind != .eof).length
    let after := (program.run (.start tokens)).2
    ((∃ read, (program.run (.start tokens)).1 = .ok read) ∧ after.rest = []) ∧
    (∀ {α : Type} {p : Parse α}, Rule p → ∀ s : State, s.Follows (p.run s).2) ∧
    (after.turns.Nodup ∧ ∀ before ∈ after.turns, 0 < before ∧ before ≤ count) ∧
    (after.iterations = after.turns.length ∧ after.iterations ≤ count ∧
      count ≤ after.iterationLimit) ∧
    (∀ d ∈ (parse tokens).diagnostics, d.message ≠ Cause.iterationLimit.message) ∧
    (parse tokens).diagnostics.length ≤ count := by
  intro count after
  have hgives := gives_program (n := count) (s := .start tokens)
  obtain ⟨read, hok, hmoves, hend⟩ := hgives.exists_ok
  have hpaced : after.Paced count := hmoves.paced (State.paced_start tokens)
  have hturns := hpaced.length_turns_le
  have hdiagnostics : (parse tokens).diagnostics = after.diagnostics.reverse := rfl
  refine ⟨⟨⟨read, hok⟩, hend⟩, @fun _ _ h s => Rule.follows h s, ⟨hpaced.distinct, ?_⟩,
    ⟨hpaced.counted, ?_, hpaced.limited⟩, unlimited_parse tokens, ?_⟩
  · intro before hbefore
    have hbehind := hpaced.behind before hbefore
    omega
  · rw [hpaced.counted]
    exact hturns
  · rw [hdiagnostics, List.length_reverse]
    exact Nat.le_trans hpaced.reported hturns

/-- A block with a bracket that nothing opened, and more tokens after the end of the input. -/
def strayBracket : List Token :=
  [.ofKind .lbrace "\x7b" .zero, .ofKind .rparen ")" .zero, .ofKind .rbrace "\x7d" .zero,
    .ofKind .eof "" .zero, .ofKind .rbracket "]" .zero]

/-- The turn in the block begins with two tokens to come and is counted first; the turn of the
program began with three. -/
theorem parse_progress_strayBracket :
    Rule (block statement .brace) ∧
    (State.start strayBracket).Follows
      ((block statement .brace).run (.start strayBracket)).2 ∧
    (program.run (.start strayBracket)).2.turns = [3, 2] ∧
    (program.run (.start strayBracket)).2.turns.Nodup ∧
    (parse strayBracket).diagnostics.length ≤ 3 := by
  obtain ⟨-, hrules, ⟨hdistinct, -⟩, -, -, hlength⟩ := parse_progress strayBracket
  have hrule : Rule (block statement .brace) := .block .brace
  exact ⟨hrule, hrules hrule _, by decide, hdistinct, Nat.le_trans hlength (by decide)⟩

end ComponentLang.Grammar
