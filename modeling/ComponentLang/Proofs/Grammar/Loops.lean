import ComponentLang.Proofs.Grammar.Elsewhere
import ComponentLang.Proofs.Grammar.Abreast.Program
import ComponentLang.Proofs.Grammar.Ledger.Program
import ComponentLang.Proofs.Typing.Shifted.Program

/-!
# Counting loops

A counting loop `for i (from, to) body` is the loop `for (let i = from; i < (to); i += 1) body`, and
`for i (to) body` counts from zero. The two are read as trees of one shape, and one finds the same
problems and the same types in both.
-/
namespace ComponentLang.Grammar

open Parse

/-! ## Small expressions -/

section Small

variable {s t u : State} {e left right : Expr} {op : BinaryOp} {level : Nat}

theorem node_bind {α : Type} (span : Span) (f : Node → Parse α) :
    (node span >>= f) s = f ⟨s.nextId, span⟩ { s with nextId := s.nextId + 1 } := rfl

/-- An operand ends where no call, member or index of it begins. -/
theorem unaryExpr_of_primary (hsign : unaryOp? s.kind = none)
    (hawait : s.kind ≠ .keyword .awaitKw)
    (h : primary allRules tag s = (pure e : Parse Expr) t) (ht : startsSuffix t.kind = false) :
    unaryExpr s = (pure e : Parse Expr) t := by
  have hunary : unaryExpr s = operand allRules tag s := by
    rw [unaryExpr_eq, unaryRule, peek_bind]
    have hnone : unaryOp? s.peek.kind = none := hsign
    have hword : ¬ s.peek.kind = .keyword .awaitKw := hawait
    simp only [hnone, if_neg hword]
  rw [hunary, operand, bind_of_eq_pure h]
  exact iterate_of_done advances_suffix (suffix_of_none e ht)

theorem expression_of_binaryExpr (h : binaryExpr 1 s = (pure e : Parse Expr) t)
    (ht : t.kind ≠ .question) : expression s = (pure e : Parse Expr) t := by
  rw [expression_eq, conditionalRule, bind_of_eq_pure h, eat_bind_of_ne ht]
  rfl

/-- An operand alone is an expression. -/
theorem expression_of_unaryExpr (h : unaryExpr s = (pure e : Parse Expr) t)
    (hop : binaryOp? t.kind = none) (ht : t.kind ≠ .question) :
    expression s = (pure e : Parse Expr) t := by
  refine expression_of_binaryExpr ?_ ht
  rw [binaryExpr_climb, bind_of_eq_pure h]
  exact climb_of_below (below_of_none hop)

/-- Two operands with an operator between them. -/
theorem expression_of_binary (h : unaryExpr s = (pure left : Parse Expr) t)
    (hop : binaryOp? t.kind = some (op, level))
    (h' : unaryExpr t.next = (pure right : Parse Expr) u)
    (hnone : binaryOp? u.kind = none) (hu : u.kind ≠ .question) :
    expression s = (pure (.binary ⟨u.nextId, left.span.through right.span⟩ left op right) :
      Parse Expr) { u with nextId := u.nextId + 1 } := by
  refine expression_of_binaryExpr ?_ hu
  have hright : binaryExpr (rightLevel op level) t.next = (pure right : Parse Expr) u := by
    rw [binaryExpr_climb, bind_of_eq_pure h']
    exact climb_of_below (below_of_none hnone)
  rw [binaryExpr_climb, bind_of_eq_pure h, climb_of_le hop (level_pos hop), operation, bind_assoc,
    advance_bind, bind_assoc, bind_of_eq_pure hright, bind_assoc, node_bind, pure_bind]
  exact climb_of_below (below_of_none hnone)

theorem primary_identifier (h : s.kind = .identifier) : primary allRules tag s =
    (pure (.identifier ⟨s.nextId, s.here⟩ s.peek.lexeme) : Parse Expr)
      { s.next with nextId := s.nextId + 1 } := by
  have hkind : s.peek.kind = .identifier := h
  unfold primary
  rw [peek_bind]
  simp only [hkind]
  rw [leaf, advance_bind, node_bind, State.nextId_next]
  rfl

theorem primary_number {kind : NumberKind} (h : s.kind = .number kind) : primary allRules tag s =
    (pure (.literal ⟨s.nextId, s.here⟩ (.number s.peek.lexeme kind)) : Parse Expr)
      { s.next with nextId := s.nextId + 1 } := by
  have hkind : s.peek.kind = .number kind := h
  unfold primary
  rw [peek_bind]
  simp only [hkind]
  rw [leaf, advance_bind, node_bind, State.nextId_next]
  rfl

theorem primary_group (h : s.kind = .lparen) (hnext : s.next.inHead = false)
    (hexpression : expression s.next = (pure e : Parse Expr) t) (ht : t.kind = .rparen)
    (hinHead : t.inHead = false) :
    primary allRules tag s = (pure e : Parse Expr) t.next := by
  have hkind : s.peek.kind = .lparen := h
  unfold primary
  rw [peek_bind]
  simp only [hkind]
  rw [advance_bind]
  show (nested expression >>= _) s.next = _
  rw [bind_of_eq_pure (nested_of_eq_pure hexpression hnext hinHead), expect_bind ht]

/-- A name alone, before what cannot go on with it. -/
theorem unaryExpr_identifier {token : Token} {rest : List Token} (hs : s.Faces (token :: rest))
    (hkind : token.kind = .identifier) (hrest : startsSuffix (headKind rest) = false) :
    unaryExpr s = (pure (.identifier ⟨s.nextId, token.span⟩ token.lexeme) : Parse Expr)
      { s.next with nextId := s.nextId + 1 } := by
  have hhead : s.kind = .identifier := hs.kind_eq.trans hkind
  have hprimary := primary_identifier hhead
  rw [State.here, hs.peek_eq] at hprimary
  refine unaryExpr_of_primary (by rw [hhead]; rfl) (by simp [hhead]) hprimary ?_
  rwa [(hs.next.numbered _).kind_eq]

theorem expression_number {token : Token} {rest : List Token} {kind : NumberKind}
    (hs : s.Faces (token :: rest)) (hkind : token.kind = .number kind)
    (hrest : continuesExpression (headKind rest) = false) :
    expression s = (pure (.literal ⟨s.nextId, token.span⟩ (.number token.lexeme kind)) :
      Parse Expr) { s.next with nextId := s.nextId + 1 } := by
  obtain ⟨hsuffix, hop, hquestion⟩ := continuesExpression_eq_false.1 hrest
  have hhead : s.kind = .number kind := hs.kind_eq.trans hkind
  have hprimary := primary_number hhead
  rw [State.here, hs.peek_eq] at hprimary
  rw [← (hs.next.numbered (s.nextId + 1)).kind_eq] at hsuffix hop hquestion
  exact expression_of_unaryExpr
    (unaryExpr_of_primary (by rw [hhead]; rfl) (by simp [hhead]) hprimary hsuffix)
    hop hquestion

end Small

/-! ## Counting loops -/

/-- What a counting loop is made of: its variable, the tokens of its bounds, of which the first need
not be written, and those of its body. -/
structure CountingLoop where
  name : String
  first : Option (List Token)
  last : List Token
  body : List Token

/-- Where a loop stands: the places of the tokens of its own, and where its parts are moved to. -/
structure LoopLayout where
  place : Nat → Span
  first : Placement
  last : Placement
  body : Placement

namespace CountingLoop

/-- The first bound with the comma behind it, if it is written. -/
def shortFirst (l : LoopLayout) : Option (List Token) → List Token
  | none => []
  | some tokens => l.first.tokens tokens ++ [.ofKind .comma "," (l.place 3)]

/-- The loop as `for i (from, to) body` or `for i (to) body`. -/
def short (loop : CountingLoop) (l : LoopLayout) : List Token :=
  .ofKind (.keyword .forKw) "for" (l.place 0) :: .ofKind .identifier loop.name (l.place 1) ::
    .ofKind .lparen "(" (l.place 2) :: (shortFirst l loop.first ++ (l.last.tokens loop.last ++
      .ofKind .rparen ")" (l.place 4) :: l.body.tokens loop.body))

/-- The first bound, which is zero if it is not written. -/
def clauseFirst (l : LoopLayout) : Option (List Token) → List Token
  | none => [.ofKind (.number .int) "0" (l.place 5)]
  | some tokens => l.first.tokens tokens

/-- The loop as `for (let i = from; i < (to); i += 1) body`. -/
def clauses (loop : CountingLoop) (l : LoopLayout) : List Token :=
  .ofKind (.keyword .forKw) "for" (l.place 0) :: .ofKind .lparen "(" (l.place 1) ::
    .ofKind (.keyword .letKw) "let" (l.place 2) :: .ofKind .identifier loop.name (l.place 3) ::
    .ofKind .equals "=" (l.place 4) :: (clauseFirst l loop.first ++
    .ofKind .semicolon ";" (l.place 6) ::
    .ofKind .identifier loop.name (l.place 7) :: .ofKind .lt "<" (l.place 8) ::
    .ofKind .lparen "(" (l.place 9) :: (l.last.tokens loop.last ++
    .ofKind .rparen ")" (l.place 10) :: .ofKind .semicolon ";" (l.place 11) ::
    .ofKind .identifier loop.name (l.place 12) :: .ofKind .plusEquals "+=" (l.place 13) ::
    .ofKind (.number .int) "1" (l.place 14) :: .ofKind .rparen ")" (l.place 15) ::
    l.body.tokens loop.body))

/-- The parts of the loop are expressions and a body, in which there is no problem. -/
def Proper (loop : CountingLoop) : Prop :=
  (∀ first ∈ loop.first, ReadsThrough expression first) ∧ ReadsThrough expression loop.last ∧
    ReadsThrough (Grammar.body statement) loop.body

instance (loop : CountingLoop) : Decidable loop.Proper :=
  inferInstanceAs (Decidable (_ ∧ _))

/-- The parts are read by themselves as these. A bound that is not written is zero. -/
structure Reads (loop : CountingLoop) (first last : Expr) (b : Block) : Prop where
  first : match loop.first with
    | none => first = .literal ⟨0, .zero⟩ (.number "0" .int)
    | some tokens => ReadsAs expression tokens first
  last : ReadsAs expression loop.last last
  body : ReadsAs (Grammar.body statement) loop.body b

/-- The tree of a loop, but for numbers and places. -/
def tree (name : String) (first last : Expr) (b : Block) : Stmt :=
  .forLoop .zero (some (.variableDecl .zero ⟨.letVar, name, none, some first⟩))
    (some (.binary ⟨0, .zero⟩ (.identifier ⟨0, .zero⟩ name) .lt last))
    (some (.assignment .zero (.identifier ⟨0, .zero⟩ name) .add
      (.literal ⟨0, .zero⟩ (.number "1" .int)))) b

variable {loop : CountingLoop}

theorem Proper.exists_reads (h : loop.Proper) :
    ∃ first last b, loop.Reads first last b := by
  obtain ⟨hfirst, hlast, hbody⟩ := h
  obtain ⟨last, hlast⟩ := hlast.exists_readsAs
  obtain ⟨b, hbody⟩ := hbody.exists_readsAs
  obtain ⟨name, none | tokens, _, _⟩ := loop
  · exact ⟨_, last, b, rfl, hlast, hbody⟩
  · obtain ⟨first, hfirst⟩ := (hfirst tokens rfl).exists_readsAs
    exact ⟨first, last, b, hfirst, hlast, hbody⟩

end CountingLoop

/-! ## Reading the parts of a loop -/

section Parts

variable {α : Type} {s t : State} {e : Expr} {start span : Span} {name : String}

theorem expectIdentifier_bind {expected : Expected} (h : s.kind = .identifier)
    (f : String → Parse α) : (expectIdentifier expected >>= f) s = f s.peek.lexeme s.next := by
  rw [expectIdentifier, bind_assoc, expect_bind h, pure_bind]

theorem typeExpr?_bind_of_ne (h : s.kind ≠ .colon) (f : Option TypeExpr → Parse α) :
    (typeExpr? >>= f) s = f none s := by
  rw [typeExpr?, bind_assoc, eat_bind_of_ne h]
  rfl

theorem stmtFrom_eq (build : Span → Stmt) :
    stmtFrom start build s = (pure (build (s.spanFrom start)) : Parse Stmt) s := rfl

/-- A variable with a first value and no type. -/
theorem variableStmt_eq {word token equals : Token} {rest : List Token}
    (hs : s.Faces (word :: token :: equals :: rest)) (hname : token.kind = .identifier)
    (hequals : equals.kind = .equals)
    (h : expression s.next.next.next = (pure e : Parse Expr) t) :
    variableStmt s = (pure (.variableDecl (t.spanFrom word.span)
      ⟨variableKind word.kind, token.lexeme, none, some e⟩) : Parse Stmt) t := by
  have hkind : s.next.kind = .identifier := hs.next.kind_eq.trans hname
  have hkind' : s.next.next.kind = .equals := hs.next.next.kind_eq.trans hequals
  rw [variableStmt, advance_bind, expectIdentifier_bind hkind,
    typeExpr?_bind_of_ne (by rw [hkind']; nofun), eat_bind_of_eq hkind']
  simp only [if_true]
  rw [bind_map_left, bind_of_eq_pure h, stmtFrom_eq, hs.peek_eq, hs.next.peek_eq]

/-- An assignment to a name. -/
theorem simpleStmt_assignment {token sign : Token} {op : AssignOp} {rest : List Token}
    (hs : s.Faces (token :: sign :: rest)) (hname : token.kind = .identifier)
    (hsign : assignOp? sign.kind = some op) (hstop : continuesExpression sign.kind = false)
    (h : expression { s.next with nextId := s.nextId + 1 }.next = (pure e : Parse Expr) t) :
    simpleStmt s = (pure (.assignment (t.spanFrom token.span)
      (.identifier ⟨s.nextId, token.span⟩ token.lexeme) op e) : Parse Stmt) t := by
  obtain ⟨hsuffix, hop, hquestion⟩ := continuesExpression_eq_false.1 hstop
  have hunary := unaryExpr_identifier hs hname hsuffix
  have hkind : { s.next with nextId := s.nextId + 1 }.kind = sign.kind :=
    (hs.next.numbered _).kind_eq
  rw [← hkind] at hop hquestion hsign
  rw [simpleStmt, here_bind, bind_of_eq_pure (expression_of_unaryExpr hunary hop hquestion),
    kind_bind]
  have hassignable :
      (Expr.identifier ⟨s.nextId, token.span⟩ token.lexeme).isAssignable = true := rfl
  simp only [hsign, if_pos hassignable]
  rw [advance_bind, bind_of_eq_pure h, stmtFrom_eq, State.here, hs.peek_eq]

/-- A loop with all of its clauses, of which the first is a variable. -/
theorem clauseLoop_eq {statement : Parse Stmt} {t u v w : State} {init update : Stmt} {test : Expr}
    {b : Block} (hopen : s.kind = .lparen) (hword : s.next.kind = .keyword .letKw)
    (hinit : variableStmt s.next = (pure init : Parse Stmt) t) (ht : t.kind = .semicolon)
    (hnext : t.next.kind ≠ .semicolon)
    (htest : expression t.next = (pure test : Parse Expr) u) (hu : u.kind = .semicolon)
    (hnext' : u.next.kind ≠ .rparen)
    (hupdate : simpleStmt u.next = (pure update : Parse Stmt) v) (hv : v.kind = .rparen)
    (hbody : body statement v.next = (pure b : Parse Block) w) :
    clauseLoop statement start s = (pure (.forLoop (w.spanFrom start) (some init) (some test)
      (some update) b) : Parse Stmt) w := by
  have hfirst : loopInit s.next = (pure (some init) : Parse (Option Stmt)) t := by
    rw [loopInit, kind_bind, hword, if_neg (by nofun),
      if_pos (show startsVariable (.keyword .letKw) = true from rfl), map_eq_pure_bind,
      bind_of_eq_pure hinit]
  rw [clauseLoop, expect_bind hopen, bind_of_eq_pure hfirst, expect_bind ht, kind_bind,
    if_neg hnext, bind_map_left, bind_of_eq_pure htest, expect_bind hu, kind_bind, if_neg hnext',
    bind_map_left, bind_of_eq_pure hupdate, expect_bind hv, bind_of_eq_pure hbody, stmtFrom_eq]

end Parts

/-! ## Reading a loop -/

section Loops

open CountingLoop (tree)

variable {loop : CountingLoop} {l : LoopLayout} {first last e e' : Expr} {b b' : Block}
variable {limit depth : Nat} {s : State} {name : String}

/-- What differs between two loops is not their shape. -/
theorem shape_forLoop {span span₁ span₂ : Span} {n n₁ n₂ n₃ : Node}
    (hfirst : e.shape = first.shape) (hlast : e'.shape = last.shape) (hbody : b'.shape = b.shape) :
    (Stmt.forLoop span (some (.variableDecl span₁ ⟨.letVar, name, none, some e⟩))
      (some (.binary n (.identifier n₁ name) .lt e'))
      (some (.assignment span₂ (.identifier n₂ name) .add
        (.literal n₃ (.number "1" .int)))) b').shape =
      (tree name first last b).shape := by
  unfold Expr.shape at hfirst hlast
  unfold Block.shape at hbody
  simp only [Stmt.shape, tree, Remap.stmt, Remap.stmt?, Remap.variableDecl, Remap.expr?, Remap.expr,
    hfirst, hlast, hbody]
  rfl

theorem impliedNumber_bind {α : Type} (text : String) (span : Span) (f : Expr → Parse α) :
    (impliedNumber text span >>= f) s =
      f (.literal ⟨s.nextId, span⟩ (.number text .int)) { s with nextId := s.nextId + 1 } := rfl

/-- The bounds of the short form, up to the bracket behind them. -/
theorem CountingLoop.Reads.exists_loopBounds {tokens : List Token} (span : Span)
    (h : loop.Reads first last b)
    (hlimit : ∀ n ≤ (loop.short l).length, (n + 1) * 64 + 1024 ≤ limit)
    (hs : s.Awaits limit (CountingLoop.shortFirst l loop.first ++
      (l.last.tokens loop.last ++ .ofKind .rparen ")" (l.place 4) :: tokens))) :
    ∃ e e' t, loopBounds span s = (pure (e, e') : Parse (Expr × Expr)) t ∧
      e.shape = first.shape ∧ e'.shape = last.shape ∧ t.Awaits limit tokens := by
  obtain ⟨hfirst, hlast, -⟩ := h
  have hlength : loop.last.length ≤ (loop.short l).length := by
    simp only [CountingLoop.short, List.length_cons, List.length_append, Placement.length_tokens]
    omega
  obtain ⟨name, none | firstTokens, lastTokens, bodyTokens⟩ := loop
  · rw [CountingLoop.shortFirst, List.nil_append] at hs
    obtain ⟨e', t, hrun, hshape, ht⟩ := hlast.exists_expression (hlimit _ hlength) l.last hs rfl
    have hkind : t.kind = .rparen := ht.kind_eq
    have hkind' : { t with nextId := t.nextId + 1 }.kind = .rparen := hkind
    refine ⟨.literal ⟨t.nextId, span⟩ (.number "0" .int), e', _, ?_, ?_, hshape,
      (ht.numbered (t.nextId + 1)).next⟩
    · rw [loopBounds, bind_of_eq_pure hrun, eat_bind_of_ne (by rw [hkind]; nofun)]
      simp only [Bool.false_eq_true, if_false]
      rw [impliedNumber_bind, pure_bind, expect_bind hkind']
    · rw [show first = .literal ⟨0, .zero⟩ (.number "0" .int) from hfirst]
      rfl
  · have hlength' : firstTokens.length ≤ (CountingLoop.short
        ⟨name, some firstTokens, lastTokens, bodyTokens⟩ l).length := by
      simp only [CountingLoop.short, CountingLoop.shortFirst, List.length_cons, List.length_append,
        Placement.length_tokens]
      omega
    rw [CountingLoop.shortFirst, List.append_assoc, List.singleton_append] at hs
    have hread : ReadsAs expression firstTokens first := hfirst
    obtain ⟨e, t, hrun, hshape, ht⟩ :=
      hread.exists_expression (hlimit _ hlength') l.first hs rfl
    obtain ⟨e', u, hrun', hshape', hu⟩ :=
      hlast.exists_expression (hlimit _ hlength) l.last ht.next rfl
    have hcomma : t.kind = .comma := ht.kind_eq
    have hkind : u.kind = .rparen := hu.kind_eq
    refine ⟨e, e', _, ?_, hshape, hshape', hu.next⟩
    rw [loopBounds, bind_of_eq_pure hrun, eat_bind_of_eq hcomma]
    simp only [if_true]
    rw [bind_of_eq_pure hrun', pure_bind, expect_bind hkind]

theorem countingLoop_eq (start span : Span) (name : String) (bounds : Expr × Expr) (body : Block) :
    countingLoop start span name bounds body s =
      (pure (.forLoop (s.spanFrom start)
        (some (.variableDecl span ⟨.letVar, name, none, some bounds.1⟩))
        (some (.binary ⟨s.nextId + 1, span⟩ (.identifier ⟨s.nextId, span⟩ name) .lt bounds.2))
        (some (.assignment span (.identifier ⟨s.nextId + 2, span⟩ name) .add
          (.literal ⟨s.nextId + 3, span⟩ (.number "1" .int)))) body) : Parse Stmt)
      { s with nextId := s.nextId + 4 } := rfl

/-- The short form gives a loop of the shape. -/
theorem CountingLoop.Reads.exists_short (h : loop.Reads first last b)
    (hlimit : ∀ n ≤ (loop.short l).length, (n + 1) * 64 + 1024 ≤ limit)
    (hdepth : (loop.short l).length ≤ depth) (hs : s.Awaits limit (loop.short l)) :
    ∃ stmt t, forStmt (stmtRules depth).statement s = (pure stmt : Parse Stmt) t ∧
      stmt.shape = (tree loop.name first last b).shape ∧ t.rest = [] ∧ t.diagnostics = [] := by
  have hlength : loop.body.length ≤ (loop.short l).length := by
    simp only [CountingLoop.short, List.length_cons, List.length_append, Placement.length_tokens]
    omega
  have hname : s.next.kind = .identifier := hs.next.kind_eq
  have hopen : s.next.next.kind = .lparen := hs.next.next.kind_eq
  obtain ⟨e, e', t, hbounds, hfirst, hlast, ht⟩ :=
    h.exists_loopBounds s.next.here hlimit hs.next.next.next
  obtain ⟨b', u, hbody, hshape, hrest, hsilent⟩ :=
    h.body.exists_body (hlimit _ hlength) l.body ht (hlength.trans hdepth)
  have hform : forStmt (stmtRules depth).statement s =
      countingLoop s.peek.span s.next.here loop.name (e, e') b' u := by
    rw [forStmt, advance_bind, kind_bind, if_neg (by simp [hname]), here_bind,
      expectIdentifier_bind hname, eat_bind_of_ne (by simp [hopen]), if_neg Bool.false_ne_true,
      eat_bind_of_eq hopen, if_pos rfl, bind_of_eq_pure hbounds, bind_of_eq_pure hbody,
      hs.next.peek_eq]
    rfl
  exact ⟨_, _, hform.trans (countingLoop_eq _ _ _ _ _), shape_forLoop hfirst hlast hshape, hrest,
    hsilent⟩

/-- The first clause gives the first bound. -/
theorem CountingLoop.Reads.exists_clauseFirst {tokens : List Token}
    (h : loop.Reads first last b)
    (hlimit : ∀ n ≤ (loop.clauses l).length, (n + 1) * 64 + 1024 ≤ limit)
    (hs : s.Awaits limit (CountingLoop.clauseFirst l loop.first ++
      .ofKind .semicolon ";" (l.place 6) :: tokens)) :
    ∃ e t, expression s = (pure e : Parse Expr) t ∧ e.shape = first.shape ∧
      t.Awaits limit (.ofKind .semicolon ";" (l.place 6) :: tokens) := by
  obtain ⟨hfirst, -, -⟩ := h
  obtain ⟨name, none | firstTokens, lastTokens, bodyTokens⟩ := loop
  · rw [CountingLoop.clauseFirst, List.singleton_append] at hs
    refine ⟨_, _, expression_number hs.toFaces rfl rfl, ?_, hs.next.numbered _⟩
    rw [show first = .literal ⟨0, .zero⟩ (.number "0" .int) from hfirst]
    rfl
  · have hlength : firstTokens.length ≤ (CountingLoop.clauses
        ⟨name, some firstTokens, lastTokens, bodyTokens⟩ l).length := by
      simp only [CountingLoop.clauses, CountingLoop.clauseFirst, List.length_cons,
        List.length_append, Placement.length_tokens]
      omega
    have hread : ReadsAs expression firstTokens first := hfirst
    exact hread.exists_expression (hlimit _ hlength) l.first hs rfl

/-- The test of the clauses: the name before the last bound, which is in brackets. -/
theorem CountingLoop.Reads.exists_test {tokens : List Token} (h : loop.Reads first last b)
    (hlimit : (loop.last.length + 1) * 64 + 1024 ≤ limit)
    (hs : s.Awaits limit (.ofKind .identifier loop.name (l.place 7) ::
      .ofKind .lt "<" (l.place 8) :: .ofKind .lparen "(" (l.place 9) ::
      (l.last.tokens loop.last ++ .ofKind .rparen ")" (l.place 10) ::
        .ofKind .semicolon ";" (l.place 11) :: tokens))) :
    ∃ n n' e t, expression s =
        (pure (.binary n (.identifier n' loop.name) .lt e) : Parse Expr) t ∧
      e.shape = last.shape ∧ t.Awaits limit (.ofKind .semicolon ";" (l.place 11) :: tokens) := by
  have hname := unaryExpr_identifier hs.toFaces rfl rfl
  have hless := hs.next.numbered (s.nextId + 1)
  obtain ⟨e, t, hrun, hshape, ht⟩ := h.last.exists_expression hlimit l.last hless.next.next rfl
  have hgroup : unaryExpr { s.next with nextId := s.nextId + 1 }.next =
      (pure e : Parse Expr) t.next := by
    have hopen := hless.next.kind_eq
    refine unaryExpr_of_primary (by rw [hopen]; rfl) (by rw [hopen]; nofun)
      (primary_group hopen hless.next.next.inHead hrun ht.kind_eq ht.inHead) ?_
    rw [ht.next.kind_eq]
    rfl
  have hop : binaryOp? { s.next with nextId := s.nextId + 1 }.kind = some (.lt, 4) := by
    rw [hless.kind_eq]
    rfl
  exact ⟨_, _, e, _, expression_of_binary hname hop hgroup (by rw [ht.next.kind_eq]; rfl)
    (by rw [ht.next.kind_eq]; nofun), hshape, ht.next.numbered _⟩

/-- The last clause goes on to the next number. -/
theorem exists_update {tokens : List Token} (hs : s.Awaits limit
      (.ofKind .identifier name (l.place 12) :: .ofKind .plusEquals "+=" (l.place 13) ::
        .ofKind (.number .int) "1" (l.place 14) :: .ofKind .rparen ")" (l.place 15) :: tokens)) :
    ∃ span n n' t, simpleStmt s = (pure (.assignment span (.identifier n name) .add
        (.literal n' (.number "1" .int))) : Parse Stmt) t ∧
      t.Awaits limit (.ofKind .rparen ")" (l.place 15) :: tokens) := by
  have hsign := hs.next.numbered (s.nextId + 1)
  exact ⟨_, _, _, _, simpleStmt_assignment hs.toFaces rfl rfl rfl
    (expression_number hsign.next.toFaces rfl rfl), hsign.next.next.numbered _⟩

/-- The clauses give a loop of the shape. -/
theorem CountingLoop.Reads.exists_clauses (h : loop.Reads first last b)
    (hlimit : ∀ n ≤ (loop.clauses l).length, (n + 1) * 64 + 1024 ≤ limit)
    (hdepth : (loop.clauses l).length ≤ depth) (hs : s.Awaits limit (loop.clauses l)) :
    ∃ stmt t, forStmt (stmtRules depth).statement s = (pure stmt : Parse Stmt) t ∧
      stmt.shape = (tree loop.name first last b).shape ∧ t.rest = [] ∧ t.diagnostics = [] := by
  have hlengths : loop.last.length ≤ (loop.clauses l).length ∧
      loop.body.length ≤ (loop.clauses l).length := by
    simp only [CountingLoop.clauses, List.length_cons, List.length_append, Placement.length_tokens]
    omega
  obtain ⟨e, t, hrun, hfirst, ht⟩ := h.exists_clauseFirst hlimit hs.next.next.next.next.next
  obtain ⟨n, n', e', u, htest, hlast, hu⟩ := h.exists_test (hlimit _ hlengths.1) ht.next
  obtain ⟨span, n₁, n₂, v, hupdate, hv⟩ := exists_update hu.next
  obtain ⟨b', w, hbody, hshape, hrest, hsilent⟩ :=
    h.body.exists_body (hlimit _ hlengths.2) l.body hv.next (hlengths.2.trans hdepth)
  have hopen : s.next.kind = .lparen := hs.next.kind_eq
  have hloop : clauseLoop (stmtRules depth).statement s.peek.span s.next =
      (pure _ : Parse Stmt) w := clauseLoop_eq hopen hs.next.next.kind_eq
    (variableStmt_eq hs.next.next.toFaces rfl rfl hrun) ht.kind_eq (by rw [ht.next.kind_eq]; nofun)
    htest hu.kind_eq (by rw [hu.next.kind_eq]; nofun) hupdate hv.kind_eq hbody
  have hform : forStmt (stmtRules depth).statement s =
      clauseLoop (stmtRules depth).statement s.peek.span s.next := by
    rw [forStmt, advance_bind, kind_bind, if_pos hopen]
  exact ⟨_, w, hform.trans hloop, shape_forLoop hfirst hlast hshape, hrest, hsilent⟩

end Loops

/-! ## A loop alone -/

section Program

variable {tokens : List Token} {s t : State} {stmt : Stmt}

/-- A loop with nothing behind it is a statement. -/
theorem statement_of_forStmt (hkind : s.kind = .keyword .forKw)
    (h : forStmt (stmtRules s.rest.length).statement s = (pure stmt : Parse Stmt) t)
    (ht : t.rest = []) : statement s = (pure stmt : Parse Stmt) t := by
  have hrule : statement s = statementRule (stmtRules s.rest.length) s := rfl
  have hbare : bareStatement (stmtRules s.rest.length) s = (pure stmt : Parse Stmt) t := by
    rw [bareStatement, here_bind, kind_bind, hkind]
    exact h
  have hend : t.kind = .eof := State.kind_of_nil ht
  rw [hrule, statementRule, bind_of_eq_pure hbare, eat_bind_of_ne (by rw [hend]; nofun)]

theorem attempt_of_eq_pure {α : Type} {p : Parse α} {a : α} (h : p s = (pure a : Parse α) t) :
    attempt p s = (pure (.ok a) : Parse (Except Problem α)) t := by
  have hrun : p.run s = (.ok a, t) := h
  have hboth : (attempt p).run s = (.ok (p.run s).1, (p.run s).2) := rfl
  rw [hrun] at hboth
  exact hboth

/-- A program that is one loop. -/
theorem parse_of_forStmt (hkind : (State.start tokens).kind = .keyword .forKw)
    (h : forStmt (stmtRules (State.start tokens).rest.length).statement (.start tokens) =
      (pure stmt : Parse Stmt) t) (ht : t.rest = []) :
    parse tokens = ⟨{ Program.empty with statements := [stmt] }, t.diagnostics.reverse⟩ := by
  have hpos : 0 < (State.start tokens).rest.length :=
    State.length_pos_of_kind (by simp [hkind])
  have hatEnd : ¬ (State.start tokens).atEnd = true := by
    rw [State.atEnd_iff]
    exact List.ne_nil_of_length_pos hpos
  have hsemicolon : (State.start tokens).kind ≠ .semicolon := by simp [hkind]
  have hitem : item .empty (.start tokens) =
      (pure { Program.empty with statements := [stmt] } : Parse Program) t := by
    rw [item, kind_bind, hkind]
    dsimp only
    rw [if_neg (show ¬ startsDeclaration (.keyword .forKw) = true from Bool.false_ne_true),
      bind_of_eq_pure (statement_of_forStmt hkind h ht)]
    rfl
  have hrecovering : recoveringItem .empty (.start tokens) =
      (pure { Program.empty with statements := [stmt] } : Parse Program) t := by
    rw [recoveringItem, bind_of_eq_pure (attempt_of_eq_pure hitem)]
  have hcount : t.turned (State.start tokens).rest.length =
      t.count (State.start tokens).rest.length := by
    rw [State.turned, if_neg]
    rw [ht, Bool.and_eq_true, decide_eq_true_eq]
    exact fun hlength => Nat.ne_of_lt hpos hlength.1
  have hturn : (programStep .empty).run (.start tokens) =
      (.ok (.again { Program.empty with statements := [stmt] }),
        t.count (State.start tokens).rest.length) := by
    show (programStep .empty) (.start tokens) = _
    rw [programStep, get_bind, if_neg hatEnd, eat_bind_of_ne hsemicolon, if_neg Bool.false_ne_true,
      bind_of_eq_pure hrecovering,
      bind_of_eq_pure (ensureProgress_of_within fun hne => absurd ht hne), hcount]
    rfl
  exact (Reaches.turn hturn (.refl _ _)).parse_eq ht

/-- A program that is one loop is read without problems if the loop is, wherever it is read. -/
theorem exists_parse_eq {shape : Stmt} (stop : Span) (hsound : Sound tokens)
    (hkind : headKind tokens = .keyword .forKw)
    (hreads : ∀ {s : State}, s.Awaits ((tokens.length + 1) * 64 + 1024) tokens →
      ∃ stmt t, forStmt (stmtRules tokens.length).statement s = (pure stmt : Parse Stmt) t ∧
        stmt.shape = shape ∧ t.rest = [] ∧ t.diagnostics = []) :
    ∃ stmt, parse (tokens ++ [Token.ofKind .eof "" stop]) =
      ⟨{ Program.empty with statements := [stmt] }, []⟩ ∧ stmt.shape = shape := by
  have hrest := hsound.rest_start_concat stop
  have hstart : (State.start (tokens ++ [Token.ofKind .eof "" stop])).Awaits
      ((tokens.length + 1) * 64 + 1024) tokens :=
    ⟨⟨hrest, rfl⟩, rfl, rfl, rfl, (hsound.limit_start_concat stop).ge⟩
  obtain ⟨stmt, t, hrun, hshape, hend, hsilent⟩ := hreads hstart
  refine ⟨stmt, ?_, hshape⟩
  rw [parse_of_forStmt (hstart.kind_eq.trans hkind) (by rwa [hrest]) hend, hsilent]
  rfl

end Program

/-! ## Loops of one meaning -/

namespace CountingLoop

variable {loop : CountingLoop}

/-- The tokens of a program that is the loop in its short form. -/
def shortProgram (loop : CountingLoop) (l : LoopLayout) : List Token :=
  loop.short l ++ [.ofKind .eof "" (l.place 16)]

/-- The tokens of a program that is the loop with its clauses. -/
def clausesProgram (loop : CountingLoop) (l : LoopLayout) : List Token :=
  loop.clauses l ++ [.ofKind .eof "" (l.place 16)]

theorem Proper.sound_short (h : loop.Proper) (l : LoopLayout) : Sound (loop.short l) := by
  have hfirst : Sound (shortFirst l loop.first) := by
    obtain ⟨hfirst, -, -⟩ := h
    obtain ⟨name, none | tokens, _, _⟩ := loop
    · exact .nil
    · exact (l.first.sound_tokens (hfirst tokens rfl).1).append (.cons ⟨rfl, nofun⟩ .nil)
  exact .cons ⟨rfl, nofun⟩ (.cons ⟨rfl, nofun⟩ (.cons ⟨rfl, nofun⟩ (hfirst.append
    ((l.last.sound_tokens h.2.1.1).append
      (.cons ⟨rfl, nofun⟩ (l.body.sound_tokens h.2.2.1))))))

theorem Proper.sound_clauses (h : loop.Proper) (l : LoopLayout) : Sound (loop.clauses l) := by
  have hfirst : Sound (clauseFirst l loop.first) := by
    obtain ⟨hfirst, -, -⟩ := h
    obtain ⟨name, none | tokens, _, _⟩ := loop
    · exact .cons ⟨rfl, nofun⟩ .nil
    · exact l.first.sound_tokens (hfirst tokens rfl).1
  have hupdate : Sound (.ofKind .rparen ")" (l.place 10) :: .ofKind .semicolon ";" (l.place 11) ::
      .ofKind .identifier loop.name (l.place 12) :: .ofKind .plusEquals "+=" (l.place 13) ::
      .ofKind (.number .int) "1" (l.place 14) :: .ofKind .rparen ")" (l.place 15) ::
      l.body.tokens loop.body) :=
    .cons ⟨rfl, nofun⟩ (.cons ⟨rfl, nofun⟩ (.cons ⟨rfl, nofun⟩ (.cons ⟨rfl, nofun⟩
      (.cons ⟨rfl, nofun⟩ (.cons ⟨rfl, nofun⟩ (l.body.sound_tokens h.2.2.1))))))
  exact .cons ⟨rfl, nofun⟩ (.cons ⟨rfl, nofun⟩ (.cons ⟨rfl, nofun⟩ (.cons ⟨rfl, nofun⟩
    (.cons ⟨rfl, nofun⟩ (hfirst.append (.cons ⟨rfl, nofun⟩ (.cons ⟨rfl, nofun⟩
      (.cons ⟨rfl, nofun⟩ (.cons ⟨rfl, nofun⟩
        ((l.last.sound_tokens h.2.1.1).append hupdate))))))))))

end CountingLoop

/-- A counting loop in its short form is the loop with clauses: both are read without problems, as
trees of one shape, and one finds the same problems in both and the same types at corresponding
expressions. -/
theorem counting_loop_clauses (loop : CountingLoop) (h : loop.Proper) (l l' : LoopLayout) :
    (parse (loop.shortProgram l)).diagnostics = [] ∧
      (parse (loop.clausesProgram l')).diagnostics = [] ∧
      (parse (loop.shortProgram l)).program.shape = (parse (loop.clausesProgram l')).program.shape ∧
      ∀ external,
        let p := (parse (loop.shortProgram l)).program
        let p' := (parse (loop.clausesProgram l')).program
        (∀ message, (∃ d ∈ (p'.check external).diagnostics, d.message = message) ↔
          ∃ d ∈ (p.check external).diagnostics, d.message = message) ∧
        p'.visited.map (p'.check external).types.get? =
          p.visited.map (p.check external).types.get? := by
  obtain ⟨first, last, b, hreads⟩ := h.exists_reads
  obtain ⟨stmt, hparse, hshape⟩ := exists_parse_eq (l.place 16) (h.sound_short l) rfl fun hs =>
    hreads.exists_short (fun _ hn => by omega) (Nat.le_refl _) hs
  obtain ⟨stmt', hparse', hshape'⟩ := exists_parse_eq (l'.place 16) (h.sound_clauses l') rfl
    fun hs => hreads.exists_clauses (fun _ hn => by omega) (Nat.le_refl _) hs
  have hprogram : parse (loop.shortProgram l) = _ := hparse
  have hprogram' : parse (loop.clausesProgram l') = _ := hparse'
  have hsame : (parse (loop.shortProgram l)).program.shape =
      (parse (loop.clausesProgram l')).program.shape := by
    rw [hprogram, hprogram']
    show Program.mk _ _ _ _ [stmt.shape] = Program.mk _ _ _ _ [stmt'.shape]
    rw [hshape, hshape']
  exact ⟨by rw [hprogram], by rw [hprogram'], hsame, fun external =>
    check_eq_of_shape_eq hsame (nodup_visited _) (nodup_visited _) external⟩

/-- The loops `for i (n) { f(i) }` and `for i (2, n) { f(i) }`, with tokens that stand one unit
apart. -/
def callingLoop (first : Option (List Token)) : CountingLoop where
  name := "i"
  first
  last := [.ofKind .identifier "n" ⟨20, 21, 1, 21⟩]
  body := [.ofKind .lbrace "\x7b" ⟨30, 31, 1, 31⟩, .ofKind .identifier "f" ⟨32, 33, 1, 33⟩,
    .ofKind .lparen "(" ⟨33, 34, 1, 34⟩, .ofKind .identifier "i" ⟨34, 35, 1, 35⟩,
    .ofKind .rparen ")" ⟨35, 36, 1, 36⟩, .ofKind .rbrace "\x7d" ⟨37, 38, 1, 38⟩]

/-- Every token of the loop has a place of its own, and its parts stay where they are. -/
def spacedLayout : LoopLayout where
  place n := ⟨40 + 2 * n, 41 + 2 * n, 1, 41 + 2 * n⟩
  first := .same
  last := .same
  body := .same

theorem counting_loop_clauses_calling :
    (callingLoop none).Proper ∧
    (callingLoop (some [.ofKind (.number .int) "2" ⟨10, 11, 1, 11⟩])).Proper ∧
    ((parse ((callingLoop none).shortProgram spacedLayout)).diagnostics = [] ∧
      (parse ((callingLoop none).shortProgram spacedLayout)).program.shape =
        (parse ((callingLoop none).clausesProgram spacedLayout)).program.shape) ∧
    (parse ((callingLoop (some [.ofKind (.number .int) "2" ⟨10, 11, 1, 11⟩])).shortProgram
        spacedLayout)).program.shape =
      (parse ((callingLoop (some [.ofKind (.number .int) "2" ⟨10, 11, 1, 11⟩])).clausesProgram
        spacedLayout)).program.shape := by
  have hproper : (callingLoop none).Proper := by decide +kernel
  have hproper' : (callingLoop (some [.ofKind (.number .int) "2" ⟨10, 11, 1, 11⟩])).Proper := by
    decide +kernel
  have hsame := counting_loop_clauses _ hproper spacedLayout spacedLayout
  have hsame' := counting_loop_clauses _ hproper' spacedLayout spacedLayout
  exact ⟨hproper, hproper', ⟨hsame.1, hsame.2.2.1⟩, hsame'.2.2.1⟩

end ComponentLang.Grammar
