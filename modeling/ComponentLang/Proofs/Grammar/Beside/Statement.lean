import ComponentLang.Proofs.Grammar.Beside.Simple
import ComponentLang.Proofs.Grammar.Statement

/-!
# Statements, with other numbers

Tokens are read in the same way whatever was read before them. Numbers were given out and problems
reported; the numbers of new nodes are higher for it, and the new problems stand behind the old.
Turns of statement loops were counted too, so the two runs are as far from the limit as their own
accounts say, and neither comes to it.
-/
namespace ComponentLang.Grammar

open Parse

/-- The node with a number that is `k` higher. -/
def shift (k : Nat) (node : Node) : Node := { node with id := node.id + k }

variable {k n n' : Nat} {old : List Diagnostic} {s t u v : State}

namespace State

/-- The two states see the same tokens. In the second, `k` more numbers are given out, and the
problems `old` were reported before those of the first. -/
structure Shifted (k : Nat) (old : List Diagnostic) (s t : State) : Prop where
  rest : t.rest = s.rest
  stop : t.stop = s.stop
  previous : t.previous = s.previous
  inHead : t.inHead = s.inHead
  nextId : t.nextId = s.nextId + k
  diagnostics : t.diagnostics = s.diagnostics ++ old

/-- Moreover the turns of either state are in order. -/
structure Level (k : Nat) (old : List Diagnostic) (n n' : Nat) (s t : State) : Prop
    extends Shifted k old s t where
  paced : s.Paced n
  paced' : t.Paced n'

theorem Shifted.next (h : Shifted k old s t) : Shifted k old s.next t.next := by
  unfold State.next
  rw [h.rest]
  split
  · exact ⟨rfl, h.stop, rfl, h.inHead, h.nextId, h.diagnostics⟩
  · exact h

theorem Shifted.report (h : Shifted k old s t) (problem : Problem) :
    Shifted k old (s.report problem) (t.report problem) where
  rest := h.rest
  stop := h.stop
  previous := h.previous
  inHead := h.inHead
  nextId := h.nextId
  diagnostics := congrArg (problem.diagnostic :: ·) h.diagnostics

theorem Shifted.count (h : Shifted k old s t) (before : Nat) :
    Shifted k old (s.count before) (t.count before) :=
  ⟨h.rest, h.stop, h.previous, h.inHead, h.nextId, h.diagnostics⟩

instance : Pairing (Shifted k old) (shift k) where
  span _ := rfl
  rest := Shifted.rest
  stop := Shifted.stop
  previous := Shifted.previous
  inHead := Shifted.inHead
  next := Shifted.next
  headed _ h := ⟨h.rest, h.stop, h.previous, rfl, h.nextId, h.diagnostics⟩
  node span h := by rw [h.nextId, shift]
  numbered {s t} h := by
    have hnextId : t.nextId + 1 = s.nextId + 1 + k := by
      have := h.nextId
      omega
    exact ⟨h.rest, h.stop, h.previous, h.inHead, hnextId, h.diagnostics⟩

instance : Pairing (Level k old n n') (shift k) where
  span _ := rfl
  rest h := h.rest
  stop h := h.stop
  previous h := h.previous
  inHead h := h.inHead
  next {s t} h :=
    ⟨h.toShifted.next, (Travel.next (R := Drops) s).paced h.paced,
      (Travel.next (R := Drops) t).paced h.paced'⟩
  headed {s t} inHead h :=
    ⟨Pairing.headed inHead h.toShifted, (Travel.headed (R := Drops) s inHead).paced h.paced,
      (Travel.headed (R := Drops) t inHead).paced h.paced'⟩
  node span h := Pairing.node span h.toShifted
  numbered {s t} h :=
    ⟨Pairing.numbered h.toShifted, (Travel.numbered (R := Drops) s _).paced h.paced,
      (Travel.numbered (R := Drops) t _).paced h.paced'⟩

end State

open State (Shifted Level)

/-! ## Recovery -/

theorem beside_synchronize (hst : Shifted k old s t) :
    Beside (Shifted k old) id synchronize synchronize s t := by
  unfold synchronize
  apply beside_iterate (k := id) hst
  intro _ s' t' hst' _
  unfold synchronizeStep
  apply beside_get_bind
  rw [Pairing.kind hst', Pairing.atEnd hst']
  split
  · exact beside_done hst' ()
  · apply beside_advance_bind hst'
    intro hnext
    split
    · exact beside_done hnext ()
    · exact beside_again hnext ()

theorem beside_recover {problem : Problem} (hst : Shifted k old s t) :
    Beside (Shifted k old) (Relabel.stmt (shift k)) (recover problem) (recover problem) s t := by
  have hreport := hst.report problem
  have hrest : Beside (Shifted k old) (Relabel.stmt (shift k)) (do
      synchronize
      return .error ⟨s.here.start, s.here.start, problem.line, problem.column⟩ problem.message)
      (do
      synchronize
      return .error ⟨s.here.start, s.here.start, problem.line, problem.column⟩ problem.message)
      (s.report problem) (t.report problem) := by
    apply beside_bind (beside_synchronize hreport)
    intro _ s' t' hst' _
    exact beside_pure hst' (Stmt.error _ _)
  unfold recover
  apply beside_here_bind hst
  exact hrest

theorem beside_recovering {statement statement' : Parse Stmt}
    (h : Beside (Level k old n n') (Relabel.stmt (shift k)) statement statement' s t) :
    Beside (Shifted k old) (Relabel.stmt (shift k)) (recovering statement)
      (recovering statement') s t := by
  unfold recovering
  apply beside_attempt_bind h
  · intro stmt s' t' hst' _
    exact beside_pure hst'.toShifted stmt
  · intro problem s' t' hst' _
    exact beside_recover hst'.toShifted

/-! ## Counting a turn -/

/-- The state after the count of a turn that began with `before` tokens to come and did not come
to the limit. -/
def State.turned (before : Nat) (s : State) : State :=
  if s.rest.length = before && !s.atEnd then (s.count before).next else s.count before

theorem length_turned_le (before : Nat) (s : State) :
    (s.turned before).rest.length ≤ s.rest.length := by
  unfold State.turned
  split
  · rw [State.length_rest_next]
    exact Nat.sub_le _ _
  · exact Nat.le_refl _

theorem ensureProgress_apply (before : Nat) (u : State) :
    ensureProgress before u =
      (if (u.count before).iterations > (u.count before).iterationLimit && !(u.count before).atEnd
        then
          set { (u.count before).report (.ofSpan .iterationLimit (u.count before).here) with
            rest := [] }
        else if (u.count before).rest.length = before && !(u.count before).atEnd then
          set (u.count before).next
        else pure () : Parse Unit) (u.count before) := rfl

/-- Below the limit, and at the end, a turn is only counted. -/
theorem ensureProgress_of_within {before : Nat}
    (h : u.rest ≠ [] → u.iterations < u.iterationLimit) :
    ensureProgress before u = (pure () : Parse Unit) (u.turned before) := by
  have hwithin : ¬ ((u.count before).iterations > (u.count before).iterationLimit &&
      !(u.count before).atEnd) = true := by
    rw [Bool.and_eq_true, Bool.not_eq_true', Bool.eq_false_iff, decide_eq_true_iff]
    rintro ⟨hover, hend⟩
    rw [Ne, State.atEnd_iff] at hend
    have hless := h hend
    have hcount : u.iterations + 1 > u.iterationLimit := hover
    omega
  rw [ensureProgress_apply, if_neg hwithin]
  unfold State.turned
  show (if (u.rest.length = before && !u.atEnd : Bool) then _ else _ : Parse Unit) _ = _
  split <;> rfl

theorem ensureProgress_eq (h : s.Attempts n u) (hs : s.Paced n) (hpos : 0 < s.rest.length) :
    ensureProgress s.rest.length u = (pure () : Parse Unit) (u.turned s.rest.length) :=
  ensureProgress_of_within fun _ => h.count_le hs hpos

/-- After the count of a turn there are fewer tokens to come, and the account is in order. -/
theorem turned_moves (h : s.Attempts n u) (hs : s.Paced n) (hpos : 0 < s.rest.length) :
    s.Moves n 1 (u.turned s.rest.length) ∧
      (u.turned s.rest.length).rest.length < s.rest.length := by
  have hgives := gives_ensureProgress h hpos
  have hrun : (ensureProgress s.rest.length).run u = (.ok (), u.turned s.rest.length) :=
    ensureProgress_eq h hs hpos
  unfold Gives Ends at hgives
  rw [hrun] at hgives
  exact hgives

theorem paced_turned (h : s.Attempts n u) (hs : s.Paced n) (hpos : 0 < s.rest.length) :
    (u.turned s.rest.length).Paced n :=
  (turned_moves h hs hpos).1.paced hs

theorem State.Shifted.turned (h : Shifted k old u v) (before : Nat) :
    Shifted k old (u.turned before) (v.turned before) := by
  unfold State.turned
  rw [h.rest, Pairing.atEnd h]
  split
  · exact (h.count before).next
  · exact h.count before

/-- An item of a statement loop is read alike, and so is the count of its turn. -/
theorem beside_turn {α β γ δ : Type} {item : Parse α} {item' : Parse β} {m : α → β}
    {result : α → γ} {result' : β → δ} {m' : γ → δ} (hst : Level k old n n' s t)
    (hpos : 0 < s.rest.length) (hitem : Beside (Shifted k old) m item item' s t)
    (hgives : Gives (fun _ u => s.Attempts n u) item s)
    (hgives' : Gives (fun _ v => t.Attempts n' v) item' t)
    (hresult : ∀ a, result' (m a) = m' (result a)) :
    Beside (Level k old n n') m' (do
      let a ← item
      ensureProgress s.rest.length
      return result a) (do
      let b ← item'
      ensureProgress s.rest.length
      return result' b) s t := by
  have hlength : t.rest.length = s.rest.length := congrArg List.length hst.rest
  have hpos' : 0 < t.rest.length := by omega
  apply beside_bind_gives hitem hgives hgives'
  intro a u v huv hattempts hattempts' hle
  have hleft : (do
      ensureProgress s.rest.length
      return result a : Parse γ) u = (pure (result a) : Parse γ) (u.turned s.rest.length) :=
    bind_of_eq_pure (ensureProgress_eq hattempts hst.paced hpos) _
  have hright : (do
      ensureProgress s.rest.length
      return result' (m a) : Parse δ) v =
        (pure (m' (result a)) : Parse δ) (v.turned s.rest.length) := by
    rw [← hresult, ← hlength]
    exact bind_of_eq_pure (ensureProgress_eq hattempts' hst.paced' hpos') _
  have hlevel : Level k old n n' (u.turned s.rest.length) (v.turned s.rest.length) := by
    have hpaced' := paced_turned hattempts' hst.paced' hpos'
    rw [hlength] at hpaced'
    exact ⟨huv.turned _, paced_turned hattempts hst.paced hpos, hpaced'⟩
  have hends := Alike.ok (m := m') (result a) hlevel (length_turned_le s.rest.length u)
  unfold Beside run
  rw [hleft, hright]
  exact hends

/-! ## Blocks -/

/-- The readers of statements end alike from a pair of states, and keep either account, wherever
fewer than `m` tokens are to come. -/
structure Shifts (k : Nat) (old : List Diagnostic) (n n' m : Nat)
    (statement statement' : Parse Stmt) : Prop where
  beside {s t : State} (hst : Level k old n n' s t) (hm : s.rest.length < m) :
    Beside (Level k old n n') (Relabel.stmt (shift k)) statement statement' s t
  skims (n : Nat) : SkimsBelow (State.Moves n 0) m statement
  skims' (n : Nat) : SkimsBelow (State.Moves n 0) m statement'

section Bodies

variable {m : Nat} {statement statement' : Parse Stmt}
variable (hstatement : Shifts k old n n' m statement statement')

include hstatement

theorem beside_blockStep {close : TokenKind} {stmts : List Stmt} (hst : Level k old n n' s t)
    (hm : s.rest.length < m) :
    Beside (Level k old n n') (Turn.map (Relabel.stmts (shift k)) (Relabel.stmts (shift k)))
      (blockStep statement close stmts)
      (blockStep statement' close (Relabel.stmts (shift k) stmts)) s t := by
  have hlength : t.rest.length = s.rest.length := congrArg List.length hst.rest
  unfold blockStep
  apply beside_get_bind
  rw [Pairing.kind hst, Pairing.atEnd hst, hlength]
  split
  · exact beside_done hst stmts
  next hend =>
    have hpos : 0 < s.rest.length := by
      apply State.length_pos_of_not_atEnd
      intro hatEnd
      exact hend (by rw [hatEnd, Bool.or_true])
    apply beside_eat_if hst
    · intro _ hnext
      exact beside_again hnext stmts
    · intro _
      have hleft := hstatement.skims n s hm
      have hright := hstatement.skims' n' t (by omega)
      apply beside_turn hst hpos (beside_recovering (hstatement.beside hst hm))
        (gives_recovering hleft) (gives_recovering hright)
      intro stmt
      simp [Turn.map, Relabel.stmts_eq_map]

theorem beside_block {bracket : Bracket} (hst : Level k old n n' s t) (hm : s.rest.length ≤ m) :
    Beside (Level k old n n') (Relabel.block (shift k)) (block statement bracket)
      (block statement' bracket) s t := by
  unfold block
  apply beside_here_bind hst
  apply beside_eat_if hst
  · intro hkind hnext
    have hless : s.next.rest.length < s.rest.length := by
      apply State.length_next_lt
      rw [hkind]
      exact opening_ne_eof bracket
    refine beside_bind (beside_iterate (k := Relabel.stmts (shift k))
      (m := Relabel.stmts (shift k)) hnext ?_ []) ?_
    · intro stmts s' t' hst' hle
      exact beside_blockStep hstatement hst' (by omega)
    · intro statements s' t' hst' _
      apply beside_expect_bind hst'
      intro _ hnext'
      apply beside_spanFrom_bind hnext'
      exact beside_pure hnext' (Block.mk statements _)
  · intro _
    exact beside_unexpected hst _

theorem beside_body (hst : Level k old n n' s t) (hm : s.rest.length ≤ m) :
    Beside (Level k old n n') (Relabel.block (shift k)) (body statement) (body statement') s t := by
  unfold body
  apply beside_kind_bind hst
  split
  · exact beside_block hstatement hst hm
  · exact beside_block hstatement hst hm
  · exact beside_unexpected hst _

/-! ## Functions and components -/

theorem beside_function (modifiers : List String) (hst : Level k old n n' s t)
    (hm : s.rest.length ≤ m) :
    Beside (Level k old n n') (Relabel.function (shift k)) (function statement modifiers)
      (function statement' modifiers) s t := by
  unfold function
  apply beside_here_bind hst
  apply beside_bind (beside_eat hst)
  intro async s₁ t₁ hst₁ hle₁
  apply beside_bind (beside_functionWord hst₁)
  intro _ s₂ t₂ hst₂ hle₂
  apply beside_expectIdentifier_bind hst₂
  intro _ hst₃
  have hle₃ := State.length_rest_next s₂
  apply beside_expect_bind hst₃
  intro _ hst₄
  have hle₄ := State.length_rest_next s₂.next
  have hparams : Beside (Level k old n n') (List.map id) (commaSeparated .rparen param)
      (commaSeparated .rparen param) s₂.next.next t₂.next.next :=
    beside_commaSeparated hst₄ fun _ _ hst' _ => beside_param hst'
  apply beside_bind hparams
  intro params s₅ t₅ hst₅ hle₅
  apply beside_expect_bind hst₅
  intro _ hst₆
  have hle₆ := State.length_rest_next s₅
  apply beside_bind (beside_typeExpr? hst₆)
  intro returnType s₇ t₇ hst₇ hle₇
  apply beside_bind (beside_block hstatement hst₇ (by omega))
  intro body s₈ t₈ hst₈ _
  apply beside_spanFrom_bind hst₈
  rw [List.map_id]
  exact beside_pure hst₈ (Function.mk _ params returnType body _ modifiers _)

theorem beside_method (hst : Level k old n n' s t) (hm : s.rest.length ≤ m) :
    Beside (Level k old n n') (Relabel.stmt (shift k)) (method statement) (method statement')
      s t := by
  have hle := State.length_rest_next s
  unfold method
  apply beside_here_bind hst
  apply beside_expectIdentifier_bind hst
  intro _ hnext
  apply beside_bind (beside_block hstatement hnext (by omega))
  intro body s' t' hst' _
  apply beside_spanFrom_bind hst'
  exact beside_pure hst' (Stmt.functionDecl _ (Function.mk _ [] none body false [] _))

/-- The members of a component with other nodes. -/
def Members.relabel (ν : Node → Node) (members : Members) : Members :=
  ⟨Relabel.stmts ν members.statements, Relabel.markups ν members.body⟩

omit hstatement in
theorem relabel_statements (ν : Node → Node) (members : Members) (stmt : Stmt) :
    Members.mk ((members.relabel ν).statements ++ [Relabel.stmt ν stmt])
      (members.relabel ν).body =
      Members.relabel ν ⟨members.statements ++ [stmt], members.body⟩ := by
  simp [Members.relabel, Relabel.stmts_eq_map]

omit hstatement in
theorem relabel_body (ν : Node → Node) (members : Members) (items : List Markup) :
    Members.mk (members.relabel ν).statements
      ((members.relabel ν).body ++ Relabel.markups ν items) =
      Members.relabel ν ⟨members.statements, members.body ++ items⟩ := by
  simp [Members.relabel, Relabel.markups_eq_map]

theorem beside_member {members : Members} (hst : Level k old n n' s t)
    (hm : s.rest.length < m) :
    Beside (Level k old n n') (fun read => (read.1.relabel (shift k), read.2))
      (member statement members) (member statement' (members.relabel (shift k))) s t := by
  unfold member
  apply beside_get_bind
  rw [Pairing.kind hst]
  split
  · apply beside_bind (beside_renderSection hst)
    intro run s' t' hst' _
    have hbody := relabel_body (shift k) members run.items
    rw [MarkupRun.relabel, hbody]
    exact beside_pure hst' ({ members with body := members.body ++ run.items }, run.problem)
  · apply beside_bind (beside_tag hst)
    intro tag s' t' hst' _
    have hbody := relabel_body (shift k) members [Markup.tag tag]
    rw [Relabel.markups, Relabel.markup, Relabel.markups] at hbody
    rw [hbody]
    exact beside_pure hst' ({ members with body := members.body ++ [Markup.tag tag] }, none)
  next hname =>
    rw [Pairing.secondKind hst (by simp [hname])]
    apply beside_ite_bind (beside_method hstatement hst (Nat.le_of_lt hm))
      (hstatement.beside hst hm)
    intro stmt s' t' hst' _
    dsimp only
    rw [relabel_statements]
    exact beside_pure hst' (_, none)
  · apply beside_bind (hstatement.beside hst hm)
    intro stmt s' t' hst' _
    rw [relabel_statements]
    exact beside_pure hst' (_, none)

theorem beside_recoveringMember {members : Members} (hst : Level k old n n' s t)
    (hm : s.rest.length < m) :
    Beside (Shifted k old) (Members.relabel (shift k)) (recoveringMember statement members)
      (recoveringMember statement' (members.relabel (shift k))) s t := by
  have hplaceholder : ∀ {members : Members} {problem : Problem} {s t : State}, Shifted k old s t →
      Beside (Shifted k old) (Members.relabel (shift k)) (do
        let placeholder ← recover problem
        return { members with statements := members.statements ++ [placeholder] }) (do
        let placeholder ← recover problem
        return { members.relabel (shift k) with
          statements := (members.relabel (shift k)).statements ++ [placeholder] }) s t := by
    intro members problem s t hst
    apply beside_bind (beside_recover hst)
    intro placeholder s' t' hst' _
    rw [relabel_statements]
    exact beside_pure hst' _
  unfold recoveringMember
  apply beside_attempt_bind (beside_member hstatement hst hm)
  · rintro ⟨members, problem⟩ s' t' hst' _
    cases problem with
    | none => exact beside_pure hst'.toShifted members
    | some problem => exact hplaceholder hst'.toShifted
  · intro problem s' t' hst' _
    exact hplaceholder hst'.toShifted

theorem beside_memberStep {members : Members} (hst : Level k old n n' s t)
    (hm : s.rest.length < m) :
    Beside (Level k old n n') (Turn.map (Members.relabel (shift k)) (Members.relabel (shift k)))
      (memberStep statement members) (memberStep statement' (members.relabel (shift k))) s t := by
  have hlength : t.rest.length = s.rest.length := congrArg List.length hst.rest
  unfold memberStep
  apply beside_get_bind
  rw [Pairing.kind hst, Pairing.atEnd hst, hlength]
  split
  · exact beside_done hst members
  next hend =>
    have hpos : 0 < s.rest.length := by
      apply State.length_pos_of_not_atEnd
      intro hatEnd
      exact hend (by rw [hatEnd, Bool.or_true])
    apply beside_eat_if hst
    · intro _ hnext
      exact beside_again hnext members
    · intro _
      apply beside_turn hst hpos (beside_recoveringMember hstatement hst hm)
      · exact gives_recoveringMember (hstatement.skims n) hm
      · exact gives_recoveringMember (hstatement.skims' n') (by omega)
      exact fun _ => rfl

theorem beside_component (modifiers : List String) (hst : Level k old n n' s t)
    (hm : s.rest.length ≤ m) :
    Beside (Level k old n n') (Relabel.component (shift k)) (component statement modifiers)
      (component statement' modifiers) s t := by
  have hle := State.length_rest_next s
  have hle' := State.length_rest_next s.next
  unfold component
  apply beside_advance_bind hst
  intro hnext
  apply beside_expectIdentifier_bind hnext
  intro _ hnext'
  apply beside_expect_bind hnext'
  intro hkind hnext''
  have hless := State.length_next_lt (s := s.next.next) (by simp [hkind])
  refine beside_bind (beside_iterate (k := Members.relabel (shift k))
    (m := Members.relabel (shift k)) hnext'' ?_ ⟨[], []⟩) ?_
  · intro members s' t' hst' hle''
    exact beside_memberStep hstatement hst' (by omega)
  · intro members s' t' hst' _
    apply beside_expect_bind hst'
    intro _ hst''
    apply beside_spanFrom_bind hst''
    exact beside_pure hst'' (Component.mk _ modifiers members.statements members.body _)

/-- A function or a component with other nodes. -/
def relabelDeclared (ν : Node → Node) : Function ⊕ Component → Function ⊕ Component
  | .inl f => .inl (Relabel.function ν f)
  | .inr c => .inr (Relabel.component ν c)

theorem beside_declaration (hst : Level k old n n' s t) (hm : s.rest.length ≤ m) :
    Beside (Level k old n n') (relabelDeclared (shift k)) (declaration statement)
      (declaration statement') s t := by
  unfold declaration
  apply beside_bind (beside_modifiers hst)
  intro modifiers s' t' hst' hle
  apply beside_kind_bind hst'
  split
  · have hcomponent := beside_component hstatement modifiers hst' (by omega)
    exact beside_map hcomponent fun _ => rfl
  case h_2 | h_3 | h_4 =>
    have hfunction := beside_function hstatement modifiers hst' (by omega)
    exact beside_map hfunction fun _ => rfl
  · exact beside_unexpected hst' _

/-- What is exported, with other nodes. -/
def relabelItem (ν : Node → Node) : ExportItem → ExportItem
  | .function f => .function (Relabel.function ν f)
  | .component c => .component (Relabel.component ν c)
  | .statement s => .statement (Relabel.stmt ν s)

theorem beside_exportItem (hst : Level k old n n' s t) (hm : s.rest.length < m) :
    Beside (Level k old n n') (relabelItem (shift k)) (exportItem statement)
      (exportItem statement') s t := by
  unfold exportItem
  apply beside_kind_bind hst
  split
  · apply beside_bind (beside_declaration hstatement hst (by omega))
    intro declared s' t' hst' _
    cases declared with
    | inl function => exact beside_pure hst' (ExportItem.function function)
    | inr component => exact beside_pure hst' (ExportItem.component component)
  · exact beside_map (hstatement.beside hst hm) fun _ => rfl

theorem beside_exportDecl (hst : Level k old n n' s t) (hm : s.next.rest.length < m) :
    Beside (Level k old n n') (Relabel.exportDecl (shift k)) (exportDecl statement)
      (exportDecl statement') s t := by
  unfold exportDecl
  apply beside_advance_bind hst
  intro hnext
  apply beside_bind (beside_eat hnext)
  intro isDefault s₁ t₁ hst₁ hle₁
  apply beside_bind (beside_exportItem hstatement hst₁ (by omega))
  intro item s₂ t₂ hst₂ _
  apply beside_spanFrom_bind hst₂
  cases item <;> exact beside_pure hst₂ (Export.mk isDefault _ _)

/-! ## Branches and loops -/

theorem beside_whileStmt (hst : Level k old n n' s t) (hm : s.rest.length ≤ m) :
    Beside (Level k old n n') (Relabel.stmt (shift k)) (whileStmt statement)
      (whileStmt statement') s t := by
  have hle := State.length_rest_next s
  unfold whileStmt
  apply beside_advance_bind hst
  intro hnext
  apply beside_bind (beside_headExpression hnext)
  intro test s' t' hst' hle'
  apply beside_bind (beside_body hstatement hst' (by omega))
  intro body u v huv _
  exact beside_stmtFrom huv fun _ => rfl

theorem beside_clauseLoop {start : Span} (hst : Level k old n n' s t)
    (hm : s.rest.length ≤ m) :
    Beside (Level k old n n') (Relabel.stmt (shift k)) (clauseLoop statement start)
      (clauseLoop statement' start) s t := by
  have hle := State.length_rest_next s
  unfold clauseLoop
  apply beside_expect_bind hst
  intro _ hst₁
  apply beside_bind (beside_loopInit hst₁)
  intro init s₂ t₂ hst₂ hle₂
  have hle₂' := State.length_rest_next s₂
  apply beside_expect_bind hst₂
  intro _ hst₃
  apply beside_kind_bind hst₃
  refine beside_ite_bind (m := Relabel.expr? (shift k)) (beside_pure hst₃ none)
    (beside_map (beside_expression hst₃) fun _ => rfl) ?_
  intro test s₄ t₄ hst₄ hle₄
  have hle₄' := State.length_rest_next s₄
  apply beside_expect_bind hst₄
  intro _ hst₅
  apply beside_kind_bind hst₅
  refine beside_ite_bind (m := Relabel.stmt? (shift k)) (beside_pure hst₅ none)
    (beside_map (beside_simpleStmt hst₅) fun _ => rfl) ?_
  intro update s₆ t₆ hst₆ hle₆
  have hle₆' := State.length_rest_next s₆
  apply beside_expect_bind hst₆
  intro _ hst₇
  apply beside_bind (beside_body hstatement hst₇ (by omega))
  intro body s₈ t₈ hst₈ _
  exact beside_stmtFrom hst₈ fun _ => rfl

theorem beside_forStmt (hst : Level k old n n' s t) (hm : s.rest.length ≤ m) :
    Beside (Level k old n n') (Relabel.stmt (shift k)) (forStmt statement) (forStmt statement')
      s t := by
  have hle := State.length_rest_next s
  have hle' := State.length_rest_next s.next
  have hle'' := State.length_rest_next s.next.next
  unfold forStmt
  apply beside_advance_bind hst
  intro hnext
  apply beside_kind_bind hnext
  split
  · exact beside_clauseLoop hstatement hnext (by omega)
  · apply beside_here_bind hnext
    apply beside_expectIdentifier_bind hnext
    intro _ hnext'
    apply beside_eat_if hnext'
    · intro _ hnext''
      apply beside_bind (beside_headExpression hnext'')
      intro iterable s' t' hst' hle₁
      apply beside_bind (beside_body hstatement hst' (by omega))
      intro body u v huv _
      exact beside_stmtFrom huv fun _ => rfl
    · intro _
      apply beside_eat_if hnext'
      · intro _ hnext''
        apply beside_bind (beside_loopBounds hnext'')
        intro bounds s' t' hst' hle₁
        apply beside_bind (beside_body hstatement hst' (by omega))
        intro body u v huv _
        exact beside_countingLoop huv
      · intro _
        exact beside_unexpected hnext' _

/-! ## Failure and asynchrony -/

theorem beside_catchClause (hst : Level k old n n' s t) (hm : s.rest.length ≤ m) :
    Beside (Level k old n n') (Relabel.handler (shift k)) (catchClause statement)
      (catchClause statement') s t := by
  have hle := State.length_rest_next s
  have hle' := State.length_rest_next s.next
  have hle'' := State.length_rest_next s.next.next
  unfold catchClause
  apply beside_eat_if hst
  · intro _ hst₁
    apply beside_expectIdentifier_bind hst₁
    intro _ hst₂
    apply beside_expect_bind hst₂
    intro _ hst₃
    apply beside_bind (beside_body hstatement hst₃ (by omega))
    intro body s' t' hst' _
    exact beside_pure hst' (CatchClause.mk _ body)
  · intro _
    apply beside_bind (beside_body hstatement hst hm)
    intro body s' t' hst' _
    exact beside_pure hst' (CatchClause.mk none body)

theorem beside_tryStmt (hst : Level k old n n' s t) (hm : s.rest.length ≤ m) :
    Beside (Level k old n n') (Relabel.stmt (shift k)) (tryStmt statement) (tryStmt statement')
      s t := by
  have hle := State.length_rest_next s
  unfold tryStmt
  apply beside_advance_bind hst
  intro hnext
  apply beside_bind (beside_body hstatement hnext (by omega))
  intro block s₁ t₁ hst₁ hle₁
  have hle₁' := State.length_rest_next s₁
  apply beside_eat_ite_bind (m := Relabel.handler? (shift k)) hst₁
  · intro _ hnext₁
    exact beside_map (beside_catchClause hstatement hnext₁ (by omega)) fun _ => rfl
  · exact beside_pure hst₁ none
  · intro handler s₂ t₂ hst₂ hle₂
    have hle₂' := State.length_rest_next s₂
    apply beside_eat_ite_bind (m := Relabel.block? (shift k)) hst₂
    · intro _ hnext₂
      exact beside_map (beside_body hstatement hnext₂ (by omega)) fun _ => rfl
    · exact beside_pure hst₂ none
    · intro cleanup s₃ t₃ hst₃ _
      have hhandler : (Relabel.handler? (shift k) handler).isNone = handler.isNone := by
        cases handler <;> rfl
      have hcleanup : (Relabel.block? (shift k) cleanup).isNone = cleanup.isNone := by
        cases cleanup <;> rfl
      dsimp only
      rw [hhandler, hcleanup]
      split
      · exact beside_unexpected hst₃ _
      · exact beside_stmtFrom hst₃ fun _ => rfl

omit hstatement in
theorem beside_asyncSegment {α β : Type} {f : α → β} {content : Parse α} {content' : Parse β}
    {word : Keyword} {expected : Expected} (hst : Level k old n n' s t)
    (hcontent : ∀ {s' t'}, Level k old n n' s' t' → s'.rest.length ≤ s.rest.length →
      Beside (Level k old n n') f content content' s' t') :
    Beside (Level k old n n') (Option.map f) (asyncSegment word content expected)
      (asyncSegment word content' expected) s t := by
  have hle := State.length_rest_next s
  have hle' := State.length_rest_next s.next
  unfold asyncSegment
  apply beside_get_bind
  rw [Pairing.twoKinds hst .lbracket (.keyword word) nofun]
  split
  · apply beside_advance_bind hst
    intro hst₁
    apply beside_advance_bind hst₁
    intro hst₂
    apply beside_bind (hcontent hst₂ (by omega))
    intro value s' t' hst' _
    apply beside_expect_bind hst'
    intro _ hst''
    exact beside_pure hst'' (some value)
  · exact beside_pure hst none

theorem beside_asyncStmt (hst : Level k old n n' s t) (hm : s.rest.length ≤ m) :
    Beside (Level k old n n') (Relabel.stmt (shift k)) (asyncStmt statement)
      (asyncStmt statement') s t := by
  have hle := State.length_rest_next s
  have hle' := State.length_rest_next s.next
  unfold asyncStmt
  apply beside_advance_bind hst
  intro hst₁
  apply beside_expect_bind hst₁
  intro _ hst₂
  apply beside_kind_bind hst₂
  split
  · apply beside_bind (beside_block hstatement hst₂ (by omega))
    intro block s₃ t₃ hst₃ hle₃
    refine beside_bind (beside_asyncSegment hst₃ fun hst' hle' =>
      beside_catchClause hstatement hst' (by omega)) ?_
    intro handler s₄ t₄ hst₄ hle₄
    refine beside_bind (beside_asyncSegment hst₄ fun hst' hle' =>
      beside_body hstatement hst' (by omega)) ?_
    intro cleanup s₅ t₅ hst₅ _
    apply beside_expect_bind hst₅
    intro _ hst₆
    rw [← Relabel.handler?_eq_map, ← Relabel.block?_eq_map]
    exact beside_stmtFrom hst₆ fun _ => rfl
  · exact beside_unexpected hst₂ _

end Bodies

/-! ## All statements -/

section Rules

variable {m : Nat} {rules rules' : StmtRules}

/-- The rules end alike wherever fewer than `m` tokens are to come. -/
structure StmtRules.Shift (k : Nat) (old : List Diagnostic) (n n' m : Nat)
    (rules rules' : StmtRules) : Prop where
  statement : Shifts k old n n' m rules.statement rules'.statement
  ifStmt {s t : State} (hst : Level k old n n' s t) (hm : s.rest.length < m) :
    Beside (Level k old n n') (Relabel.stmt (shift k)) rules.ifStmt rules'.ifStmt s t

theorem beside_ifRule (hrules : rules.Shift k old n n' m rules') (hst : Level k old n n' s t)
    (hm : s.rest.length ≤ m) :
    Beside (Level k old n n') (Relabel.stmt (shift k)) (ifRule rules) (ifRule rules') s t := by
  have hle := State.length_rest_next s
  unfold ifRule
  apply beside_advance_bind hst
  intro hnext
  apply beside_bind (beside_headExpression hnext)
  intro test s₁ t₁ hst₁ hle₁
  apply beside_bind (beside_body hrules.statement hst₁ (by omega))
  intro consequent s₂ t₂ hst₂ hle₂
  apply beside_eat_if hst₂
  · intro helse hst₃
    have hless := State.length_next_lt (s := s₂) (by simp [helse])
    apply beside_kind_bind hst₃
    apply beside_ite_bind (m := Relabel.stmt? (shift k))
    · exact beside_map (hrules.ifStmt hst₃ (by omega)) fun _ => rfl
    · exact beside_map (beside_body hrules.statement hst₃ (by omega)) fun _ => rfl
    · intro alternate s₄ t₄ hst₄ _
      exact beside_stmtFrom hst₄ fun _ => rfl
  · intro _
    apply beside_bind (m := Relabel.stmt? (shift k)) (beside_pure hst₂ none)
    intro alternate s₃ t₃ hst₃ _
    exact beside_stmtFrom hst₃ fun _ => rfl

theorem beside_bareStatement (hrules : rules.Shift k old n n' m rules') (hst : Level k old n n' s t)
    (hm : s.rest.length ≤ m) :
    Beside (Level k old n n') (Relabel.stmt (shift k)) (bareStatement rules)
      (bareStatement rules') s t := by
  unfold bareStatement
  apply beside_here_bind hst
  apply beside_kind_bind hst
  split
  case h_1 | h_2 | h_3 => exact beside_variableStmt hst
  case h_4 => exact beside_ifRule hrules hst hm
  case h_5 => exact beside_whileStmt hrules.statement hst hm
  case h_6 => exact beside_forStmt hrules.statement hst hm
  case h_7 => exact beside_returnStmt hst
  case h_8 | h_9 =>
    apply beside_advance_bind hst
    intro hnext
    exact beside_stmtFrom hnext fun _ => rfl
  case h_10 => exact beside_throwStmt hst
  case h_11 => exact beside_tryStmt hrules.statement hst hm
  case h_12 => exact beside_asyncStmt hrules.statement hst hm
  case h_13 | h_14 | h_15 | h_16 =>
    apply beside_bind (beside_modifiers hst)
    intro modifiers s' t' hst' hle
    apply beside_bind (beside_function hrules.statement _ hst' (by omega))
    intro function u v huv _
    exact beside_stmtFrom huv fun _ => rfl
  case h_17 =>
    apply beside_bind (beside_importDecl hst)
    intro item s' t' hst' _
    exact beside_stmtFrom hst' fun _ => rfl
  case h_18 hkind =>
    have hless := State.length_next_lt (s := s) (by simp [hkind])
    apply beside_bind (beside_exportDecl hrules.statement hst (by omega))
    intro item s' t' hst' _
    exact beside_stmtFrom hst' fun _ => rfl
  case h_19 =>
    exact beside_map (beside_block hrules.statement hst hm) fun _ => rfl
  case h_20 => exact beside_simpleStmt hst

theorem beside_statementRule (hrules : rules.Shift k old n n' m rules') (hst : Level k old n n' s t)
    (hm : s.rest.length ≤ m) :
    Beside (Level k old n n') (Relabel.stmt (shift k)) (statementRule rules)
      (statementRule rules') s t := by
  unfold statementRule
  apply beside_bind (beside_bareStatement hrules hst hm)
  intro stmt s' t' hst' _
  apply beside_eat_bind hst'
  · intro _ hnext
    exact beside_pure hnext stmt
  · intro _
    exact beside_pure hst' stmt

theorem shift_stmtRules {depth depth' : Nat} (hm : m ≤ depth) (hm' : m ≤ depth') :
    (stmtRules depth).Shift k old n n' m (stmtRules depth') := by
  induction m generalizing depth depth' with
  | zero =>
      constructor
      · constructor
        · intro s t _ hlt
          exact absurd hlt (Nat.not_lt_zero _)
        · exact fun n s hlt => absurd hlt (Nat.not_lt_zero _)
        · exact fun n s hlt => absurd hlt (Nat.not_lt_zero _)
      · intro s t _ hlt
        exact absurd hlt (Nat.not_lt_zero _)
  | succ m ih =>
      obtain ⟨depth, rfl⟩ : ∃ d, depth = d + 1 := ⟨depth - 1, by omega⟩
      obtain ⟨depth', rfl⟩ : ∃ d, depth' = d + 1 := ⟨depth' - 1, by omega⟩
      have hrules : (stmtRules depth).Shift k old n n' m (stmtRules depth') :=
        ih (by omega) (by omega)
      constructor
      · constructor
        · intro s t hst hlt
          exact (beside_statementRule hrules hst (by omega)).of_eq rfl rfl
        · exact fun n s hlt => (keep_stmtRules (depth + 1)).statement s (by omega)
        · exact fun n s hlt => (keep_stmtRules (depth' + 1)).statement s (by omega)
      · intro s t hst hlt
        exact (beside_ifRule hrules hst (by omega)).of_eq rfl rfl

end Rules

theorem shifts_statement (m : Nat) : Shifts k old n n' m statement statement where
  beside {s t} hst _ := by
    have hrest : t.rest = s.rest := hst.rest
    have hrules : (stmtRules (s.rest.length + 1)).Shift k old n n' (s.rest.length + 1)
        (stmtRules (t.rest.length + 1)) :=
      shift_stmtRules (Nat.le_refl _) (Nat.le_of_eq (by rw [hrest]))
    have hstatement := hrules.statement.beside hst (Nat.lt_succ_self _)
    exact hstatement.of_eq rfl rfl
  skims _ _ _ := skims_statement
  skims' _ _ _ := skims_statement

end ComponentLang.Grammar
