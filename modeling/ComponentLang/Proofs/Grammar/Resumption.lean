import ComponentLang.Proofs.Grammar.Starts

/-!
# Reading goes on at the next declaration

Debris before a statement is read by turns of its own. They end where the keyword of the statement
stands, and from there on reading is as it would be without the debris, but for the numbers of the
nodes. What was read last before the keyword is forgotten once the keyword is taken.
-/
namespace ComponentLang.Grammar

open Parse
open State (Shifted Level)

variable {d : List Token} {n : Nat} {s t : State} {program : Program}

/-! ## Turns in debris -/

theorem State.Ahead.debris (h : s.Ahead d) (hlong : d.length < s.rest.length) :
    isDebris s.kind = true := by
  obtain ⟨b, hrest, hb⟩ := h
  cases b with
  | nil =>
      rw [hrest] at hlong
      exact absurd hlong (Nat.lt_irrefl _)
  | cons first b =>
      rw [State.kind_of_rest hrest]
      exact hb.kinds first List.mem_cons_self

section Debris

variable (hd : BeginsStatement d)

include hd

omit hd in
theorem leaves_stmtFrom {start : Span} {build : Span → Stmt} (hs : s.Ahead d) :
    Leaves d (stmtFrom start build) s := by
  unfold stmtFrom
  apply leaves_spanFrom_bind
  intro span
  exact leaves_pure hs _

theorem leaves_simpleStmt (hs : s.Ahead d) : Leaves d simpleStmt s := by
  unfold simpleStmt
  apply leaves_here_bind
  apply leaves_bind (leaves_expression hd hs)
  intro target t ht
  apply leaves_kind_bind
  split
  next => exact leaves_stmtFrom ht
  next op hop =>
    have hkind : ∀ word, t.kind ≠ .keyword word := by
      intro word hword
      rw [hword] at hop
      cases hop
    split
    · apply leaves_advance_bind hd ht hkind
      intro hnext
      apply leaves_bind (leaves_expression hd hnext)
      intro value u hu
      exact leaves_stmtFrom hu
    · exact leaves_throw ht _

omit hd in
theorem bareStatement_of_debris {rules : StmtRules} (hkind : isDebris s.kind = true) :
    bareStatement rules s = simpleStmt s := by
  unfold bareStatement
  rw [here_bind, kind_bind]
  generalize s.kind = kind at hkind
  cases kind <;> first | rfl | cases hkind

theorem leaves_statement (hs : s.Ahead d) (hkind : isDebris s.kind = true) :
    Leaves d statement s := by
  have hrule : Leaves d (statementRule (stmtRules s.rest.length)) s := by
    unfold statementRule
    apply leaves_bind ((leaves_simpleStmt hd hs).of_eq (bareStatement_of_debris hkind))
    intro stmt t ht
    apply leaves_eat_bind hd ht (by simp)
    · intro _ hnext
      exact leaves_pure hnext stmt
    · exact leaves_pure ht stmt
  exact hrule.of_eq rfl

theorem leaves_item (hs : s.Ahead d) (hkind : isDebris s.kind = true) :
    Leaves d (item program) s := by
  have hstatement : Leaves d (do
      return { program with statements := program.statements ++ [← statement] }) s := by
    apply leaves_bind (leaves_statement hd hs hkind)
    intro stmt t ht
    exact leaves_pure ht _
  apply hstatement.of_eq
  unfold item
  rw [kind_bind]
  generalize s.kind = kind at hkind
  cases kind <;> first | rfl | cases hkind

theorem leaves_synchronize (hs : s.Ahead d) : Leaves d synchronize s := by
  apply leaves_iterate hs
  intro _ t ht
  unfold synchronizeStep
  apply leaves_get_bind
  split
  next => exact leaves_pure ht _
  next hgoes =>
    have hkind : ∀ word, t.kind ≠ .keyword word := by
      intro word hword
      rcases ht.kind hd with hdebris | ⟨word', hword', hstarts⟩
      · rw [hword] at hdebris
        cases hdebris
      · have hends : endsDamage t.kind = true := by
          rw [hword']
          exact hstarts
        exact hgoes (by rw [hends, Bool.or_true])
    apply leaves_advance_bind hd ht hkind
    intro hnext
    split
    · exact leaves_pure hnext _
    · exact leaves_pure hnext _

theorem leaves_recover {problem : Problem} (hs : s.Ahead d) : Leaves d (recover problem) s := by
  unfold recover
  apply leaves_here_bind
  apply leaves_report_bind hs
  intro t ht
  apply leaves_bind (leaves_synchronize hd ht)
  intro _ u hu
  exact leaves_pure hu _

theorem leaves_recoveringItem (hs : s.Ahead d) (hkind : isDebris s.kind = true) :
    Leaves d (recoveringItem program) s := by
  unfold recoveringItem
  apply leaves_attempt_bind (leaves_item hd hs hkind)
  intro result t ht
  cases result with
  | ok program => exact leaves_pure ht program
  | error problem =>
      apply leaves_bind (leaves_recover hd ht)
      intro placeholder u hu
      apply leaves_kind_bind
      split
      next hclosing =>
        have hplain : ∀ word, u.kind ≠ .keyword word := by
          intro word hword
          rw [hword] at hclosing
          cases hclosing
        apply leaves_advance_bind hd hu hplain
        intro hnext
        exact leaves_pure hnext _
      next => exact leaves_pure hu _

/-- The count of a turn that began in debris drops no token but debris. -/
theorem stays_turned {u : State} (hsu : s.Stays d u) (hlong : d.length < s.rest.length) :
    s.Stays d (u.turned s.rest.length) := by
  have hcounted : s.Stays d (u.count s.rest.length) := ⟨hsu.ahead, hsu.inHead, hsu.stop⟩
  unfold State.turned
  split
  next hstays =>
    have hlength : u.rest.length = s.rest.length := by
      simp only [Bool.and_eq_true, decide_eq_true_eq] at hstays
      exact hstays.1
    have hdebris : isDebris u.kind = true := hsu.ahead.debris (by omega)
    have hplain : ∀ word, (u.count s.rest.length).kind ≠ .keyword word :=
      State.ne_keyword rfl hdebris
    exact hcounted.trans (State.stays_next hcounted.ahead hd hplain)
  next => exact hcounted

/-- A turn that begins in debris reads or drops some of it, and then there is another turn. -/
theorem programStep_of_debris (program : Program) (hs : s.Ahead d) (hlong : d.length < s.rest.length)
    (hpaced : s.Paced n) :
    ∃ program' t, (programStep program).run s = (.ok (.again program'), t) ∧ s.Stays d t ∧
      t.rest.length < s.rest.length ∧ t.Paced n := by
  have hkind := hs.debris hlong
  have hpos : 0 < s.rest.length := by omega
  have hend : ¬ s.atEnd = true := by
    intro hend
    rw [State.atEnd_iff.1 hend] at hpos
    exact Nat.lt_irrefl _ hpos
  have hstep : Gives (fun turn t => (∃ program', turn = .again program') ∧ s.Stays d t ∧
      t.rest.length < s.rest.length ∧ t.Paced n) (programStep program) s := by
    unfold Gives programStep
    rw [ends_get_bind, if_neg hend, ends_eat_bind]
    split
    next hsemicolon =>
      have hless := State.length_next_lt (s := s) (by simp [hsemicolon])
      have hplain : ∀ word, s.kind ≠ .keyword word := State.ne_keyword rfl hkind
      exact ⟨⟨program, rfl⟩, State.stays_next hs hd hplain, hless,
        (Travel.next (R := State.Drops) s).paced hpaced⟩
    next =>
      have hdebris : Leaves d (recoveringItem program) s := leaves_recoveringItem hd hs hkind
      have hitem := Ends.and hdebris (gives_recoveringItem (n := n))
      rw [if_neg Bool.false_ne_true, ends_bind]
      apply hitem.mono
      · intro program' u ⟨hsu, hattempts⟩
        have hcount := ensureProgress_eq hattempts hpaced hpos
        have hless := (turned_moves hattempts hpaced hpos).2
        have hturned : Gives (fun _ t => t = u.turned s.rest.length)
            (ensureProgress s.rest.length) u := by
          unfold Gives Ends run
          rw [hcount]
          rfl
        rw [ends_bind]
        apply hturned.mono
        rintro _ _ rfl
        exact ⟨⟨program', rfl⟩, stays_turned hd hsu hlong, hless,
          paced_turned hattempts hpaced hpos⟩
      · exact fun _ _ hbad => hbad.2
  obtain ⟨turn, hok, ⟨program', rfl⟩, hstays, hless, hpaced'⟩ := hstep.exists_ok
  exact ⟨program', _, Prod.ext hok rfl, hstays, hless, hpaced'⟩

end Debris

/-! ## Turns of a program -/

/-- Turns of the loop that reads a program lead from `program` at `s` to `program'` at `t`. -/
inductive Reaches : Program → State → Program → State → Prop
  | refl (program : Program) (s : State) : Reaches program s program s
  | turn {program program' program'' : Program} {s t u : State} :
      (programStep program).run s = (.ok (.again program'), t) →
      Reaches program' t program'' u → Reaches program s program'' u

theorem advances_programStep : Advances programStep := by
  intro program s
  apply Ends.mono (gives_programStep (n := 0))
  · intro turn t ⟨_, hturn⟩
    cases turn with
    | again program => exact hturn
    | done program => trivial
  · exact fun _ _ hbad => hbad.elim

theorem Reaches.iterate_eq {program' : Program} (h : Reaches program s program' t) :
    iterate programStep program s = iterate programStep program' t := by
  induction h with
  | refl => rfl
  | turn hturn _ ih => rw [iterate_of_next advances_programStep hturn, ih]

/-- The turns that begin in debris come to its end. -/
theorem reaches_ahead (program : Program) (hd : BeginsStatement d) (hs : s.Ahead d) (hpaced : s.Paced n) :
    ∃ program' t, Reaches program s program' t ∧ t.rest = d ∧ s.Stays d t ∧ t.Paced n := by
  induction hlength : s.rest.length using Nat.strongRecOn generalizing s program with
  | _ length ih =>
  subst hlength
  rcases Nat.lt_or_ge d.length s.rest.length with hlong | hshort
  · obtain ⟨program', t, hturn, hst, hless, hpaced'⟩ :=
      programStep_of_debris hd program hs hlong hpaced
    obtain ⟨program'', u, hreaches, hrest, htu, hu⟩ :=
      ih _ hless program' hst.ahead hpaced' rfl
    exact ⟨program'', u, .turn hturn hreaches, hrest, hst.trans htu, hu⟩
  · obtain ⟨b, hrest, hb⟩ := hs
    have hnil : b = [] := by
      rw [hrest, List.length_append] at hshort
      exact List.eq_nil_of_length_eq_zero (by omega)
    subst hnil
    exact ⟨program, s, .refl program s, hrest, ⟨⟨[], hrest, hb⟩, rfl, rfl⟩, hpaced⟩

/-! ## Debris before a declaration -/

theorem BeginsStatement.start (hd : BeginsStatement d) :
    BeginsStatement (State.start d).rest ∧ (State.start d).rest.head? = d.head? := by
  obtain ⟨first, rest, word, rfl, hfirst, hstarts⟩ := hd
  have hrest : (State.start (first :: rest)).rest =
      first :: ((rest.filter fun t => !t.kind.isError).takeWhile fun t => t.kind != .eof) := by
    simp [State.start, hfirst, TokenKind.isError]
  constructor
  · exact ⟨first, _, word, hrest, hfirst, hstarts⟩
  · rw [hrest]
    rfl

/-- Where the end of the input is depends on what follows the tokens to come and on their last. -/
theorem stop_start_congr {a d : List Token}
    (hleft : (a.filter fun t => !t.kind.isError).drop (State.start a).rest.length =
      (d.filter fun t => !t.kind.isError).drop (State.start d).rest.length)
    (hlast : (State.start a).rest.getLast? = (State.start d).rest.getLast?) :
    (State.start a).stop = (State.start d).stop := by
  simp only [State.start] at hleft hlast ⊢
  rw [hleft, hlast]

/-- Tokens without errors that do not hold the end of the input. -/
structure Plain (b : List Token) : Prop where
  sound : ∀ t ∈ b, t.kind.isError = false
  goesOn : ∀ t ∈ b, t.kind ≠ .eof

theorem Debris.plain {b : List Token} (hb : Debris b) : Plain b := by
  constructor
  all_goals
    intro t ht
    have hkind := hb.kinds t ht
    cases hk : t.kind <;> simp_all [isDebris, TokenKind.isError]

namespace Plain

variable {b : List Token}

theorem filter_append (hb : Plain b) (d : List Token) :
    (b ++ d).filter (fun t => !t.kind.isError) = b ++ d.filter fun t => !t.kind.isError := by
  rw [List.filter_append, List.filter_eq_self.2]
  intro t ht
  rw [hb.sound t ht]
  rfl

/-- All these tokens are to come, and then what is to come of those behind them. -/
theorem rest_append (hb : Plain b) (d : List Token) :
    (State.start (b ++ d)).rest = b ++ (State.start d).rest := by
  show ((b ++ d).filter _).takeWhile _ = _
  rw [hb.filter_append, List.takeWhile_append_of_pos]
  · rfl
  · intro t ht
    simpa using hb.goesOn t ht

/-- The end is where it is without them, if something is to come before it. -/
theorem stop_append (hb : Plain b) (hd : (State.start d).rest ≠ []) :
    (State.start (b ++ d)).stop = (State.start d).stop := by
  apply stop_start_congr
  · rw [hb.rest_append, hb.filter_append, List.length_append, List.drop_length_add_append]
  · rw [hb.rest_append, List.getLast?_append, List.getLast?_eq_some_getLast hd, Option.some_or]

end Plain

theorem Debris.ahead {b : List Token} (hb : Debris b) (d : List Token) :
    (State.start (b ++ d)).Ahead (State.start d).rest :=
  ⟨b, hb.plain.rest_append d, hb⟩

/-- Where reading comes to the declaration the state is that of its beginning, but for the place of
the last token, the numbers and problems given out and the turns counted. -/
theorem level_start {k : Nat} {old : List Diagnostic} (hrest : t.rest = (State.start d).rest)
    (hstop : t.stop = (State.start d).stop) (hinHead : t.inHead = false) (hk : t.nextId = k)
    (hold : t.diagnostics = old) (hpaced : t.Paced n) :
    Level k old (State.start d).rest.length n { State.start d with previous := t.previous } t := by
  have hstart := State.paced_start d
  have hpaced' : { State.start d with previous := t.previous }.Paced (State.start d).rest.length :=
    ⟨hstart.within, hstart.limited, hstart.counted, hstart.distinct, hstart.behind,
      hstart.reported, hstart.unlimited⟩
  refine ⟨⟨hrest, hstop, rfl, hinHead, ?_, ?_⟩, hpaced', hpaced⟩
  · rw [hk]
    exact (Nat.zero_add k).symm
  · exact hold

/-- If turns come to where `d` begins, what is read from there on is what is read of `d` alone, but
for the numbers of the nodes. -/
theorem parse_of_reaches {a : List Token} {before : Program}
    (hreaches : Reaches .empty (.start a) before t) (hrest : t.rest = (State.start d).rest)
    (hne : (State.start d).rest ≠ []) (hstop : t.stop = (State.start d).stop) (hinHead : t.inHead = false)
    (hpaced : t.Paced n) :
    (parse a).program = joined before t.nextId (parse d).program ∧
      (parse a).diagnostics = t.diagnostics.reverse ++ (parse d).diagnostics := by
  have hlevel := level_start hrest hstop hinHead rfl rfl hpaced
  have hloops := beside_iterate_programStep before .empty hlevel
  have halone : (iterate programStep .empty).run { State.start d with previous := t.previous } =
      Grammar.program.run (.start d) :=
    forgets_iterate .empty hne (State.paced_start d) t.previous
  have hwhole : (iterate programStep (joined before t.nextId .empty)).run t =
      Grammar.program.run (.start a) := by
    rw [joined_empty]
    exact hreaches.iterate_eq.symm
  obtain ⟨read, hok, -⟩ := (gives_program (n := 0) (s := .start d)).exists_ok
  unfold Beside at hloops
  rw [halone, hwhole] at hloops
  unfold parse
  generalize Grammar.program.run (.start d) = alone at hloops hok
  generalize Grammar.program.run (.start a) = whole at hloops
  cases hloops with
  | ok read hst _ =>
      refine ⟨rfl, ?_⟩
      show List.reverse _ = _
      rw [hst.diagnostics, List.reverse_append]
  | error problem _ _ => cases hok

/-- A program in which debris stands before a declaration is read by a turn that begins exactly at
the keyword of the declaration. All that is read from there on is what is read when the declaration
stands alone, but for the numbers of the nodes, and it comes behind what was read of the debris. -/
theorem reading_resumes {b d : List Token} (hb : Debris b) (hd : BeginsStatement d) :
    ∃ (before : Program) (k : Nat) (t : State),
      Reaches .empty (.start (b ++ d)) before t ∧
      (t.rest = (State.start d).rest ∧ t.rest.head? = d.head?) ∧
      (parse (b ++ d)).program = joined before k (parse d).program ∧
      (parse (b ++ d)).diagnostics = t.diagnostics.reverse ++ (parse d).diagnostics := by
  obtain ⟨before, t, hreaches, hrest, hstays, hpaced⟩ := reaches_ahead .empty
    hd.start.1 (hb.ahead d) (State.paced_start (b ++ d))
  have hne : (State.start d).rest ≠ [] := by
    obtain ⟨first, rest, word, hfirst, -⟩ := hd.start.1
    simp [hfirst]
  have hstop : t.stop = (State.start d).stop := hstays.stop.trans (hb.plain.stop_append hne)
  have hhead : t.rest.head? = d.head? := by rw [hrest, hd.start.2]
  exact ⟨before, t.nextId, t, hreaches, ⟨hrest, hhead⟩,
    parse_of_reaches hreaches hrest hne hstop hstays.inHead hpaced⟩

/-- A call that is not finished: `f(,`. -/
def unfinishedCall : List Token :=
  [.ofKind .identifier "f" .zero, .ofKind .lparen "(" .zero, .ofKind .comma "," .zero]

/-- A declaration with an error in it that was found before: `let x # = y`. -/
def damagedLet : List Token :=
  [.ofKind (.keyword .letKw) "let" .zero, .ofKind .identifier "x" .zero,
    .ofError (.unexpectedCharacter '#') "#" .zero, .ofKind .equals "=" .zero,
    .ofKind .identifier "y" .zero]

theorem reading_resumes_unfinishedCall :
    Debris unfinishedCall ∧ BeginsStatement damagedLet ∧
      ∃ (before : Program) (k : Nat) (t : State),
        Reaches .empty (.start (unfinishedCall ++ damagedLet)) before t ∧
        (t.rest = (State.start damagedLet).rest ∧ t.rest.head? = damagedLet.head?) ∧
        (parse (unfinishedCall ++ damagedLet)).program =
          joined before k (parse damagedLet).program ∧
        (parse (unfinishedCall ++ damagedLet)).diagnostics =
          t.diagnostics.reverse ++ (parse damagedLet).diagnostics := by
  have hb : Debris unfinishedCall := ⟨by decide, by decide⟩
  have hd : BeginsStatement damagedLet := ⟨_, _, .letKw, rfl, rfl, rfl⟩
  exact ⟨hb, hd, reading_resumes hb hd⟩

end ComponentLang.Grammar
