import ComponentLang.Proofs.Grammar.Ahead
import ComponentLang.Proofs.Grammar.Beside.Program
import ComponentLang.Proofs.Grammar.Unbounded

/-!
# How a reader starts

Expressions, statements and items begin with a token. A reader of one of them fails at once, or it
takes the next token and forgets with it what was read last. At the end of the input it can only
fail.
-/
namespace ComponentLang.Grammar

open Parse

variable {α β : Type} {s : State} {p : Parse α}

/-! ## What was read last is forgotten -/

/-- What the reader does at `s` does not depend on the place of the token taken last. -/
def Forgets {α : Type} (p : Parse α) (s : State) : Prop :=
  ∀ previous, p { s with previous } = p s

section Forgets

variable {first : Token} {rest : List Token}

theorem forgets_bind (h : Forgets p s) (f : α → Parse β) : Forgets (p >>= f) s :=
  fun previous => bind_congr_eq (h previous) f

theorem forgets_kind_bind {f : TokenKind → Parse α} (h : Forgets (f s.kind) s) :
    Forgets (kind >>= f) s := h

theorem forgets_advance_bind (hrest : s.rest = first :: rest) (f : Token → Parse α) :
    Forgets (advance >>= f) s := by
  intro previous
  have hrest' : { s with previous }.rest = first :: rest := hrest
  rw [advance_bind, advance_bind, State.next_eq hrest, State.next_eq hrest']
  rfl

theorem forgets_eat_bind (hrest : s.rest = first :: rest) (kind : TokenKind) (f : Bool → Parse α)
    (hleft : s.kind ≠ kind → Forgets (f false) s) : Forgets (eat kind >>= f) s := by
  intro previous
  have hrest' : { s with previous }.rest = first :: rest := hrest
  have hkind : { s with previous }.kind = s.kind := rfl
  by_cases hfirst : s.kind = kind
  · rw [eat_bind_of_eq hfirst, eat_bind_of_eq (hkind.trans hfirst), State.next_eq hrest,
      State.next_eq hrest']
  · have hfirst' : { s with previous }.kind ≠ kind := by rwa [hkind]
    rw [eat_bind_of_ne hfirst, eat_bind_of_ne hfirst']
    exact hleft hfirst previous

end Forgets

/-! ## The first token -/

/-- At `s` the reader fails at once, with a problem that has nothing to do with what was read last;
or there is a next token, and what was read last makes no difference. -/
def Starts (p : Parse α) (s : State) : Prop :=
  (∃ e, ∀ previous, p.run { s with previous } = (.error e, { s with previous })) ∨
    (s.rest ≠ [] ∧ Forgets p s)

section Rules

theorem starts_fail {cause : Cause} : Starts (fail cause : Parse α) s :=
  .inl ⟨.ofSpan cause s.here, fun _ => rfl⟩

theorem starts_unexpected {expected : Expected} : Starts (unexpected expected : Parse α) s :=
  .inl ⟨.ofSpan (.unexpected expected s.found) s.here, fun _ => rfl⟩

theorem starts_peek_bind {f : Token → Parse α} (h : Starts (f s.peek) s) :
    Starts (peek >>= f) s := h

theorem starts_kind_bind {f : TokenKind → Parse α} (h : Starts (f s.kind) s) :
    Starts (kind >>= f) s := h

theorem starts_here_bind {f : Span → Parse α} (h : Starts (f s.here) s) :
    Starts (here >>= f) s := h

theorem starts_bind (hp : Starts p s) (f : α → Parse β) : Starts (p >>= f) s := by
  rcases hp with ⟨e, hp⟩ | ⟨hrest, hp⟩
  · refine .inl ⟨e, fun previous => ?_⟩
    rw [run_bind, hp]
  · exact .inr ⟨hrest, forgets_bind hp f⟩

theorem starts_map (hp : Starts p s) (f : α → β) : Starts (f <$> p) s := by
  rw [map_eq_pure_bind]
  exact starts_bind hp _

/-- A reader that is chosen by what comes next begins as the chosen one does. -/
theorem Starts.of_eq {q : Parse α} (h : Starts q s)
    (heq : ∀ previous, p { s with previous } = q { s with previous }) : Starts p s := by
  rcases h with ⟨e, hq⟩ | ⟨hrest, hq⟩
  · exact .inl ⟨e, fun previous => (heq previous).trans (hq previous)⟩
  · exact .inr ⟨hrest, fun previous => (heq previous).trans ((hq previous).trans (heq _).symm)⟩

theorem starts_advance_bind (hkind : s.kind ≠ .eof) (f : Token → Parse α) :
    Starts (advance >>= f) s := by
  have hpos := State.length_pos_of_kind hkind
  obtain ⟨first, rest, hrest⟩ := List.exists_cons_of_length_pos hpos
  exact .inr ⟨by simp [hrest], forgets_advance_bind hrest f⟩

theorem starts_eat_bind {kind : TokenKind} (hkind : kind ≠ .eof) {f : Bool → Parse α}
    (hleft : s.kind ≠ kind → Starts (f false) s) : Starts (eat kind >>= f) s := by
  by_cases h : s.kind = kind
  · have hpos := State.length_pos_of_kind (h ▸ hkind)
    obtain ⟨first, rest, hrest⟩ := List.exists_cons_of_length_pos hpos
    exact .inr ⟨by simp [hrest], forgets_eat_bind hrest kind f fun hne => absurd h hne⟩
  · refine (hleft h).of_eq fun previous => ?_
    have hne : State.kind { s with previous } ≠ kind := h
    exact eat_bind_of_ne hne f

theorem starts_expect_bind {kind : TokenKind} (hkind : kind ≠ .eof) {expected : Expected}
    (f : Token → Parse α) : Starts (expect kind expected >>= f) s := by
  apply starts_bind
  unfold expect
  by_cases h : s.kind = kind
  · have hadvance : Starts (advance >>= fun token => (pure token : Parse Token)) s :=
      starts_advance_bind (h ▸ hkind) _
    refine hadvance.of_eq fun previous => ?_
    show (if s.kind = kind then advance else unexpected expected : Parse Token) _ = _
    rw [if_pos h, bind_pure]
  · have hfails : Starts (unexpected expected : Parse Token) s := starts_unexpected
    refine hfails.of_eq fun previous => ?_
    show (if s.kind = kind then advance else unexpected expected : Parse Token) _ = _
    rw [if_neg h]

theorem starts_withHead {inHead : Bool} (h : Starts p { s with inHead }) :
    Starts (withHead inHead p) s := by
  have hrun : ∀ previous, withHead inHead p { s with previous } =
      ((p.run { s with inHead, previous }).1,
        { (p.run { s with inHead, previous }).2 with inHead := s.inHead }) := fun _ => rfl
  rcases h with ⟨e, hp⟩ | ⟨hrest, hp⟩
  · refine .inl ⟨e, fun previous => ?_⟩
    have hfails : p.run { s with inHead, previous } = (.error e, { s with inHead, previous }) :=
      hp previous
    exact (hrun previous).trans (by rw [hfails])
  · refine .inr ⟨hrest, fun previous => ?_⟩
    have hsame : p.run { s with inHead, previous } = p.run { s with inHead } := hp previous
    rw [hrun previous, hsame]
    rfl

end Rules

/-- At the end of the input the reader fails. -/
theorem Starts.fails {a : α} {t : State} (h : Starts p s) (hs : s.rest = []) :
    p.run s ≠ (.ok a, t) := by
  rcases h with ⟨e, hp⟩ | ⟨hrest, -⟩
  · have hrun : p.run s = (.error e, s) := hp s.previous
    rw [hrun]
    simp
  · exact absurd hs hrest

/-! ## Expressions -/

theorem starts_leaf {build : Node → Expr} (hkind : s.kind ≠ .eof) : Starts (leaf build) s :=
  starts_advance_bind hkind _

theorem starts_primary {rules : ExprRules} {tag : Parse Tag}
    (htag : ∀ inHead, Starts tag { s with inHead }) : Starts (primary rules tag) s := by
  have hkind : ∀ {kind : TokenKind}, s.peek.kind = kind → kind ≠ .eof → s.kind ≠ .eof :=
    fun h hne heof => hne (h.symm.trans heof)
  unfold primary
  apply starts_peek_bind
  split
  case h_1 h | h_2 h | h_3 h | h_4 h | h_5 h | h_6 h => exact starts_leaf (hkind h (by simp))
  case h_7 h | h_8 h => exact starts_advance_bind (hkind h (by simp)) _
  case h_9 h =>
    have hbrace : State.kind { s with inHead := false } ≠ .eof := hkind h (by simp)
    exact starts_withHead (starts_advance_bind hbrace _)
  case h_10 => exact starts_bind (starts_withHead (htag false)) _
  case h_11 => exact starts_unexpected

theorem starts_unaryRule {rules : ExprRules} {tag : Parse Tag}
    (htag : ∀ inHead, Starts tag { s with inHead }) : Starts (unaryRule rules tag) s := by
  unfold unaryRule
  apply starts_peek_bind
  split
  next op hop =>
    have hkind : s.kind ≠ .eof := by
      intro hkind
      rw [show s.peek.kind = .eof from hkind] at hop
      cases hop
    exact starts_advance_bind hkind _
  next =>
    split
    next hkind =>
      have hawait : s.kind = .keyword .awaitKw := hkind
      exact starts_advance_bind (by simp [hawait]) _
    next => exact starts_bind (starts_primary htag) _

theorem starts_tagRule {rules : ExprRules} : Starts (tagRule rules) s :=
  starts_expect_bind (by simp) _

theorem starts_exprRules (depth : Nat) : Starts (exprRules depth).conditional s := by
  cases depth with
  | zero => exact starts_fail
  | succ depth =>
      have htag : ∀ inHead, Starts (exprRules (depth + 1)).tag { s with inHead } :=
        fun _ => starts_tagRule.of_eq fun _ => rfl
      have hunary : Starts (exprRules (depth + 1)).unary s :=
        (starts_unaryRule htag).of_eq fun _ => rfl
      have hbinary : Starts ((exprRules (depth + 1)).binary 1) s :=
        (starts_bind hunary _).of_eq fun _ => rfl
      exact (starts_bind hbinary _).of_eq fun _ => rfl

theorem starts_expression : Starts expression s :=
  (starts_exprRules (s.rest.length + 1)).of_eq fun _ => rfl

/-! ## Statements -/

theorem starts_simpleStmt : Starts simpleStmt s := by
  unfold simpleStmt
  apply starts_here_bind
  exact starts_bind starts_expression _

theorem starts_functionWord : Starts functionWord s := by
  unfold functionWord
  apply starts_eat_bind (by simp)
  intro _
  apply starts_eat_bind (by simp)
  intro _
  exact starts_unexpected

theorem starts_function {statement : Parse Stmt} {modifiers : List String} :
    Starts (function statement modifiers) s := by
  unfold function
  apply starts_here_bind
  apply starts_eat_bind (by simp)
  intro _
  exact starts_bind starts_functionWord _

theorem modifiers_of_ne (hkind : s.kind ≠ .atModifier) :
    modifiers s = (pure [] : Parse (List String)) s := by
  have hadvances : Advances modifierStep := by
    apply advances_of_turns (R := State.Drops)
    intro names t
    unfold modifierStep
    simp only [takes_kind_bind]
    split
    next hmodifier =>
      have hless := State.length_next_lt (s := t) (by simp [hmodifier])
      apply takes_advance_bind
      simpa using hless
    next => simp
  have hstep : modifierStep [] s =
      (pure (.done []) : Parse (Turn (List String) (List String))) s := by
    unfold modifierStep
    rw [kind_bind, if_neg hkind]
  exact iterate_of_done hadvances hstep

/-- What stands after modifiers begins with a token, and so do the modifiers if there are any. -/
theorem starts_modifiers_bind {f : List String → Parse α}
    (h : s.kind ≠ .atModifier → Starts (f []) s) :
    Starts (modifiers >>= f) s := by
  by_cases hkind : s.kind = .atModifier
  · have hstep : Starts (modifierStep []) s := by
      unfold modifierStep
      apply starts_kind_bind
      rw [if_pos hkind]
      exact starts_advance_bind (by simp [hkind]) _
    have hloop : Starts (iterateFor modifierStep (s.rest.length + 1) []) s := by
      unfold iterateFor
      exact starts_bind hstep _
    have hmodifiers : Starts modifiers s := hloop.of_eq fun _ => rfl
    exact starts_bind hmodifiers f
  · refine (h hkind).of_eq fun previous => ?_
    have hne : State.kind { s with previous } ≠ .atModifier := hkind
    exact bind_of_eq_pure (modifiers_of_ne hne) f

theorem starts_declaration {statement : Parse Stmt} : Starts (declaration statement) s := by
  unfold declaration
  apply starts_modifiers_bind
  intro _
  apply starts_kind_bind
  split
  next hkind => exact starts_map (starts_advance_bind (by simp [hkind]) _) _
  next => exact starts_map starts_function _
  next => exact starts_map starts_function _
  next => exact starts_map starts_function _
  next => exact starts_unexpected

theorem starts_importDecl (hkind : s.kind ≠ .eof) : Starts importDecl s :=
  starts_advance_bind hkind _

theorem starts_exportDecl {statement : Parse Stmt} (hkind : s.kind ≠ .eof) :
    Starts (exportDecl statement) s :=
  starts_advance_bind hkind _

theorem starts_block {statement : Parse Stmt} {bracket : Bracket} :
    Starts (block statement bracket) s := by
  unfold block
  apply starts_here_bind
  apply starts_eat_bind (opening_ne_eof bracket)
  intro _
  exact starts_unexpected

theorem starts_bareStatement {rules : StmtRules} : Starts (bareStatement rules) s := by
  unfold bareStatement
  apply starts_here_bind
  apply starts_kind_bind
  split
  case h_1 h | h_2 h | h_3 h | h_4 h | h_5 h | h_6 h | h_7 h | h_8 h | h_9 h | h_10 h | h_11 h
      | h_12 h =>
    exact starts_advance_bind (by simp [h]) _
  case h_13 | h_14 | h_15 | h_16 =>
    apply starts_modifiers_bind
    intro _
    exact starts_bind starts_function _
  case h_17 h | h_18 h => exact starts_bind (starts_advance_bind (by simp [h]) _) _
  case h_19 => exact starts_map starts_block _
  case h_20 => exact starts_simpleStmt

theorem starts_statement : Starts statement s := by
  have hrule : Starts (statementRule (stmtRules s.rest.length)) s :=
    starts_bind starts_bareStatement _
  exact hrule.of_eq fun _ => rfl

theorem starts_item (program : Program) : Starts (item program) s := by
  unfold item
  apply starts_kind_bind
  split
  next h => exact starts_bind (starts_importDecl (by simp [h])) _
  next h => exact starts_bind (starts_exportDecl (by simp [h])) _
  next =>
    split
    · exact starts_bind starts_declaration _
    · exact starts_bind starts_statement _

/-! ## Turns of a program -/

theorem forgets_attempt_bind {f : Except Problem α → Parse β} (hp : Starts p s)
    (herror : ∀ e, Forgets (f (.error e)) s) : Forgets (attempt p >>= f) s := by
  have hattempt : ∀ previous, attempt p { s with previous } =
      (.ok (p.run { s with previous }).1, (p.run { s with previous }).2) := fun _ => rfl
  rcases hp with ⟨e, hp⟩ | ⟨-, hp⟩
  · have hfails : ∀ previous, (attempt p >>= f) { s with previous } =
        f (.error e) { s with previous } := by
      intro previous
      refine bind_of_eq_pure (a := .error e) ?_ f
      rw [hattempt, hp]
      rfl
    exact fun previous => (hfails previous).trans ((herror e previous).trans (hfails s.previous).symm)
  · refine forgets_bind (fun previous => ?_) f
    have hsame : p.run { s with previous } = p.run s := hp previous
    rw [hattempt, hsame]
    rfl

/-- A turn that has not come to the limit drops a token if it took none. -/
theorem forgets_ensureProgress_bind {f : Unit → Parse α} {first : Token} {rest : List Token}
    (hrest : s.rest = first :: rest) (hwithin : s.iterations < s.iterationLimit) :
    Forgets (ensureProgress s.rest.length >>= f) s := by
  have hturned : ∀ previous, ensureProgress s.rest.length { s with previous } =
      (pure () : Parse Unit) (s.count s.rest.length).next := by
    intro previous
    have hrest' : (State.count s.rest.length { s with previous }).rest = first :: rest := hrest
    have hrest'' : (s.count s.rest.length).rest = first :: rest := hrest
    have hprogress : ensureProgress s.rest.length { s with previous } =
        (pure () : Parse Unit) (State.turned s.rest.length { s with previous }) :=
      ensureProgress_of_within fun _ => hwithin
    have hnext : State.turned s.rest.length { s with previous } =
        (State.count s.rest.length { s with previous }).next :=
      if_pos (by simp [State.atEnd, hrest])
    rw [hprogress, hnext, State.next_eq hrest', State.next_eq hrest'']
    rfl
  exact forgets_bind (fun previous => (hturned previous).trans (hturned s.previous).symm) f

/-- Where damage ends nothing is dropped, and elsewhere the next token is. -/
theorem forgets_synchronize_bind {f : Unit → Parse α} {first : Token} {rest : List Token}
    (hrest : s.rest = first :: rest) (hf : Forgets (f ()) s) :
    Forgets (synchronize >>= f) s := by
  have hsynchronize : ∀ previous, synchronize { s with previous } =
      iterateFor synchronizeStep (s.rest.length + 1) () { s with previous } := fun _ => rfl
  by_cases hends : endsDamage s.kind = true
  · have hdone : ∀ previous, synchronizeStep () { s with previous } =
        (pure (.done ()) : Parse (Turn Unit Unit)) { s with previous } := by
      intro previous
      show (if (State.atEnd { s with previous } || endsDamage s.kind) = true then _ else _ :
        Parse (Turn Unit Unit)) _ = _
      rw [if_pos (by rw [hends, Bool.or_true])]
    have hleft : ∀ previous, (synchronize >>= f) { s with previous } = f () { s with previous } :=
      fun previous => bind_of_eq_pure
        ((hsynchronize previous).trans (bind_of_eq_pure (hdone previous) _)) f
    exact fun previous => (hleft previous).trans ((hf previous).trans (hleft s.previous).symm)
  · have hstep : Forgets (synchronizeStep ()) s := by
      have hgoes : ∀ previous, ¬ (State.atEnd { s with previous } || endsDamage s.kind) = true := by
        simp [State.atEnd, hrest, hends]
      intro previous
      show (if (State.atEnd { s with previous } || endsDamage s.kind) = true then _ else _ :
        Parse (Turn Unit Unit)) _ = (if (s.atEnd || endsDamage s.kind) = true then _ else _ :
        Parse (Turn Unit Unit)) s
      rw [if_neg (hgoes previous), if_neg (hgoes s.previous)]
      exact forgets_advance_bind hrest _ previous
    have hloop : Forgets (iterateFor synchronizeStep (s.rest.length + 1) ()) s :=
      forgets_bind hstep _
    exact forgets_bind (fun previous => (hsynchronize previous).trans (hloop previous)) f

theorem forgets_recover_bind {problem : Problem} {f : Stmt → Parse α} {first : Token}
    {rest : List Token} (hrest : s.rest = first :: rest)
    (hf : ∀ stmt, Forgets (f stmt) (s.report problem)) : Forgets (recover problem >>= f) s := by
  unfold recover
  simp only [bind_assoc, pure_bind]
  have hreport : (s.report problem).rest = first :: rest := hrest
  exact fun previous => forgets_synchronize_bind hreport (hf _) previous

/-- Where a program goes on nothing depends on what was read last. -/
theorem forgets_programStep {n : Nat} (program : Program) (hrest : s.rest ≠ [])
    (hpaced : s.Paced n) : Forgets (programStep program) s := by
  have hend : ∀ previous, ¬ State.atEnd { s with previous } = true := by
    intro previous
    rw [State.atEnd_iff]
    exact hrest
  obtain ⟨first, rest, hcons⟩ := List.exists_cons_of_ne_nil hrest
  have hwithin : s.iterations < s.iterationLimit := by
    have hattempts : s.Attempts n s :=
      ⟨s, Travel.refl s, (Travel.refl (R := State.Drops) s).settles⟩
    exact hattempts.count_le hpaced (List.length_pos_iff.2 hrest)
  have hitem : Forgets (do
      let program ← recoveringItem program
      ensureProgress s.rest.length
      return .again program : Parse (Turn Program Program)) s := by
    unfold recoveringItem
    rw [bind_assoc]
    apply forgets_attempt_bind (starts_item program)
    intro problem
    rw [bind_assoc]
    apply forgets_recover_bind hcons
    intro placeholder
    have hreport : (s.report problem).rest = first :: rest := hcons
    rw [bind_assoc]
    apply forgets_kind_bind
    split
    · rw [bind_assoc]
      exact forgets_advance_bind hreport _
    · exact forgets_ensureProgress_bind hreport hwithin
  have hstep : Forgets (do
      if ← eat .semicolon then return .again program
      else
        let program ← recoveringItem program
        ensureProgress s.rest.length
        return .again program : Parse (Turn Program Program)) s :=
    forgets_eat_bind hcons _ _ fun _ => hitem
  intro previous
  unfold programStep
  rw [get_bind, get_bind, if_neg (hend previous), if_neg (hend s.previous)]
  exact hstep previous

theorem forgets_iterate {n : Nat} (program : Program) (hrest : s.rest ≠ [])
    (hpaced : s.Paced n) : Forgets (iterate programStep program) s := by
  have hloop : Forgets (iterateFor programStep (s.rest.length + 1) program) s :=
    forgets_bind (forgets_programStep program hrest hpaced) _
  exact fun previous => hloop previous

end ComponentLang.Grammar
