import ComponentLang.Grammar.Statement
import ComponentLang.Proofs.Grammar.Provenance.Expression

/-!
# What declarations and statements keep

A statement keeps what its expressions keep. A block or a component goes on after a problem and
keeps what was read before and after it; its placeholder says that something is missing. The loop
that counts reads its variable twice, as the counter of its test and as the target of its update,
though it is written once.
-/
namespace ComponentLang.Grammar

open Parse State

variable {s : State}

/-! ## Blocks -/

section Bodies

variable {statement : Parse Stmt}
  (hstatement : ∀ t, Harvests (fun stmt => yield (.stmt stmt)) statement t)

include hstatement

theorem retains_blockStep {close : TokenKind} {stmts : List Stmt} :
    Retains (fun _ => false) ⟨[], yields (stmts.map .stmt)⟩
      (turnHand (fun stmts => ⟨[], yields (stmts.map .stmt)⟩)
        fun stmts => ⟨[], yields (stmts.map .stmt)⟩) (blockStep statement close stmts) s := by
  unfold blockStep
  rw [retains_get_bind]
  split
  · exact retains_pure rfl
  · refine retains_eat_if (fun hkind => passed_silent hkind rfl) (retains_pure rfl) ?_
    have hitem := gathers_recovering (hstatement s)
    refine retains_turn (hitem.frame.of_moves fun stmt hwhole => ?_) fun stmt t => retains_pure ?_
    · exact (Bool.and_eq_true_iff.1 hwhole).2
    · simp [turnHand]

theorem harvests_block {bracket : Bracket} :
    Harvests (fun b => yield (.block b)) (block statement bracket) s := by
  unfold block
  rw [Harvests, retains_here_bind]
  have hstatements : ∀ close t, Gathers (fun stmts => yields (stmts.map .stmt))
      (iterate (blockStep statement close) []) t := fun _ _ =>
    retains_iterate (fun _ _ => retains_blockStep hstatement) []
  cases bracket with
  | brace =>
    refine retains_eat_if (fun hkind => passed_opening hkind rfl) ?_ retains_unexpected
    refine retains_then (hstatements _ _) fun stmts t => ?_
    refine retains_expect_bind (fun hkind => passed_closing hkind rfl) fun _ => ?_
    exact retains_pure (hand_eq rfl (zero_add _))
  | square =>
    refine retains_eat_if (fun hkind => passed_opening hkind rfl) ?_ retains_unexpected
    refine retains_then (hstatements _ _) fun stmts t => ?_
    refine retains_expect_bind (fun hkind => passed_closing hkind rfl) fun _ => ?_
    exact retains_pure (hand_eq rfl (zero_add _))

theorem harvests_body : Harvests (fun b => yield (.block b)) (body statement) s := by
  unfold body
  rw [Harvests, retains_kind_bind]
  split
  · exact harvests_block hstatement
  · exact harvests_block hstatement
  · exact retains_unexpected

end Bodies

/-! ## Imports and the heads of functions -/

theorem retains_importedNames :
    Retains (fun _ => false) ⟨[.brace], 0⟩ (fun _ => ⟨[], 0⟩) importedNames s := by
  unfold importedNames
  have hname : ∀ t, Passes (expectIdentifier .importedName) t := fun t => by
    rw [← bind_pure (expectIdentifier .importedName)]
    exact retains_expectIdentifier_bind fun _ => retains_pure rfl
  refine retains_passes_bind (gathers_commaSeparated hname rfl fun _ _ => (add_zero _).symm)
    fun names t => ?_
  exact retains_expect_bind (fun hkind => passed_closing hkind rfl) fun _ => retains_pure rfl

theorem harvests_importDecl (hs : isSilent s.peek.kind = true) :
    Harvests (fun _ => 0) importDecl s := by
  unfold importDecl
  have hsource : ∀ {start : Span} {names : List String} {default : Option String} (t : State),
      Passes (do
        if ← eat (.keyword .fromKw) then
          let source ← expect .string .modulePath
          return (⟨names, default, source.lexeme, ← spanFrom start⟩ : Import)
        else unexpected .fromWord) t := by
    intro start names default t
    refine retains_eat_if (fun hkind => passed_silent hkind rfl) ?_ retains_unexpected
    exact retains_expect_bind (fun hkind => passed_silent hkind rfl) fun _ => retains_pure rfl
  refine retains_advance_bind (passed_silent rfl hs) ?_
  refine retains_eat_if (fun hkind => passed_opening hkind rfl) ?_ ?_
  · exact retains_bind retains_importedNames fun names t => hsource t
  · exact retains_expectIdentifier_bind fun name => hsource _

theorem passes_modifiers : Passes modifiers s := by
  unfold modifiers
  refine retains_iterate (n := fun _ => ⟨[], 0⟩) (fun names t => ?_) []
  unfold modifierStep
  rw [retains_kind_bind]
  split
  next hkind => exact retains_advance_bind (passed_silent hkind rfl) (retains_pure rfl)
  next => exact retains_pure rfl

theorem passes_param : Passes param s := by
  unfold param
  rw [Passes, Gathers, retains_here_bind]
  refine retains_expectIdentifier_bind fun name => ?_
  exact retains_passes_bind passes_typeExpr? fun typeExpr t => retains_pure rfl

theorem harvests_functionWord : Harvests (fun _ => 0) functionWord s := by
  unfold functionWord
  refine retains_eat_if (fun hkind => passed_silent hkind rfl) (retains_pure rfl) ?_
  exact retains_eat_if (fun hkind => passed_silent hkind rfl) (retains_pure rfl) retains_unexpected

/-! ## Markup of components -/

/-- Markup in which a problem is pending may leave out what was read after it. -/
def keptUnless (problem : Option Problem) (g : Yield) : Yield :=
  match problem with
  | none => g
  | some _ => g.torn

theorem torn_keptUnless (problem : Option Problem) (g : Yield) :
    (keptUnless problem g).torn = g.torn := by
  cases problem <;> rfl

theorem add_keptUnless (problem : Option Problem) (g h : Yield) :
    g + keptUnless problem h = keptUnless problem (g + h) := by
  cases problem with
  | none => rfl
  | some p => exact Yield.ext rfl rfl (Bool.and_false _)

def runYield (run : MarkupRun) : Yield := keptUnless run.problem (yields (run.items.map .markup))

def membersYield (members : Members) : Yield :=
  yields (members.statements.map .stmt) + yields (members.body.map .markup)

theorem isSilent_of_startsMarkup {kind : TokenKind} (h : startsMarkup kind = true)
    (htag : kind ≠ .tagOpen) (hbrace : kind ≠ .lbrace) : isSilent kind = true := by
  cases kind <;> first | rfl | exact absurd rfl htag | exact absurd rfl hbrace | cases h

theorem harvests_markupItem (hs : startsMarkup s.peek.kind = true) :
    Harvests (fun item => yield (.markup item)) markupItem s := by
  unfold markupItem
  rw [Harvests, retains_peek_bind]
  split
  case h_1 => exact retains_map (harvests_tag.mono fun t => by rw [yield_tagMarkup])
  case h_2 hkind =>
    refine retains_advance_bind (passed_opening hkind rfl) ?_
    refine retains_then harvests_expression fun value t => ?_
    refine retains_expect_bind (fun hclose => passed_closing hclose rfl) fun _ => retains_pure ?_
    rw [yield_embedded, zero_add]
  case h_3 htag hbrace =>
    refine retains_advance_bind (passed_silent rfl (isSilent_of_startsMarkup hs htag hbrace)) ?_
    exact retains_pure (by rw [yield_text])

theorem gathers_markupRun : Gathers runYield markupRun s := by
  unfold markupRun
  refine retains_iterate (n := fun items => ⟨[], yields (items.map .markup)⟩) (fun items t => ?_) []
  unfold markupStep
  rw [retains_kind_bind]
  split
  next hstarts =>
    refine retains_attempt_bind (harvests_markupItem hstarts).frame (fun item u => ?_)
      fun problem u => retains_pure rfl
    exact retains_pure (by simp [turnHand])
  next => exact retains_pure rfl

theorem harvests_renderSection (hs : isSilent s.peek.kind = true) :
    Harvests runYield renderSection s := by
  unfold renderSection
  refine retains_advance_bind (passed_silent rfl hs) ?_
  refine retains_eat_if (fun hkind => passed_silent hkind rfl) gathers_markupRun ?_
  refine retains_eat_if (fun hkind => passed_opening hkind rfl) ?_ retains_unexpected
  refine retains_then gathers_markupRun fun run t => ?_
  rw [zero_add]
  split
  next hproblem =>
    -- The bracket may still be open, but something is missing all the same.
    obtain ⟨problem, hproblem⟩ := Option.isSome_iff_exists.1 hproblem
    have hrun : runYield run = (yields (run.items.map .markup)).torn := by
      rw [runYield, hproblem, keptUnless]
    rw [hrun]
    exact retains_torn (retains_pure (by rw [hrun]))
  next =>
    refine retains_attempt_bind (retains_expect fun hkind => passed_closing hkind rfl)
      (fun _ u => retains_pure rfl) fun problem u => ?_
    rw [runYield, torn_keptUnless]
    exact retains_torn (retains_pure rfl)

/-! ## Functions and components -/

section Bodies

variable {statement : Parse Stmt}
  (hstatement : ∀ t, Harvests (fun stmt => yield (.stmt stmt)) statement t)

include hstatement

theorem harvests_function {modifiers : List String} :
    Harvests (fun f => yield (.function f)) (function statement modifiers) s := by
  unfold function
  rw [Harvests, retains_here_bind]
  refine retains_passes_bind (passes_eat rfl) fun async t => ?_
  refine retains_then_moved harvests_functionWord fun _ u => ?_
  rw [add_zero]
  refine retains_expectIdentifier_bind fun name => ?_
  refine retains_expect_bind (fun hkind => passed_opening hkind rfl) fun _ => ?_
  refine retains_passes_bind
    (gathers_commaSeparated (fun _ => passes_param) rfl fun _ _ => (add_zero _).symm)
    fun params v => ?_
  refine retains_expect_bind (fun hkind => passed_closing hkind rfl) fun _ => ?_
  refine retains_passes_bind passes_typeExpr? fun returnType w => ?_
  refine retains_then (harvests_block hstatement) fun body x => ?_
  rw [retains_spanFrom_bind]
  exact retains_pure (hand_eq rfl (by simp [TreePart.children]))

theorem harvests_method : Harvests (fun stmt => yield (.stmt stmt)) (method statement) s := by
  unfold method
  rw [Harvests, retains_here_bind]
  refine retains_expectIdentifier_bind fun name => ?_
  refine retains_then (harvests_block hstatement) fun body t => ?_
  rw [retains_spanFrom_bind]
  have hfunction : yield (.function ⟨name, [], none, body, false, [], t.spanFrom s.peek.span⟩) =
      yield (.block body) := by
    rw [yield_of_children rfl]
    simp [TreePart.children]
  exact retains_pure (hand_eq rfl (by simp [TreePart.children, Stmt.children, hfunction]))

theorem harvests_member {members : Members} :
    Retains (fun _ => true) ⟨[], membersYield members⟩
      (fun read => ⟨[], keptUnless read.2 (membersYield read.1)⟩) (member statement members) s := by
  have hadd : ∀ stmt t, Retains (fun _ => false) ⟨[], membersYield members + yield (.stmt stmt)⟩
      (fun read => ⟨[], keptUnless read.2 (membersYield read.1)⟩)
      (pure ({ members with statements := members.statements ++ [stmt] }, none)) t := by
    intro stmt t
    refine retains_pure ?_
    simp [keptUnless, membersYield, add_right_comm]
  unfold member
  rw [retains_get_bind]
  split
  case h_1 hkind =>
    have hsilent : isSilent s.peek.kind = true := by
      rw [show s.peek.kind = _ from hkind]
      rfl
    refine retains_then_moved (harvests_renderSection hsilent) fun run t => retains_pure ?_
    simp [runYield, membersYield, add_keptUnless, add_assoc]
  case h_2 =>
    refine retains_then_moved harvests_tag fun tag t => retains_pure ?_
    simp [keptUnless, membersYield, yield_tagMarkup, add_assoc]
  case h_3 =>
    split
    · exact retains_then_moved (harvests_method hstatement) hadd
    · exact retains_then_moved (hstatement s) hadd
  case h_4 => exact retains_then_moved (hstatement s) hadd

theorem gathers_recoveringMember {members : Members} :
    Retains (fun members => (membersYield members).whole) ⟨[], membersYield members⟩
      (fun members => ⟨[], membersYield members⟩) (recoveringMember statement members) s := by
  have hplaceholder : ∀ {members : Members} {problem : Problem} {t : State},
      Retains (fun members => (membersYield members).whole) ⟨[], (membersYield members).torn⟩
        (fun members => ⟨[], membersYield members⟩) (do
          let placeholder ← recover problem
          return { members with statements := members.statements ++ [placeholder] }) t := by
    intro members problem t
    refine retains_recover_bind fun placeholder u hyield => ?_
    have hadded : membersYield { members with statements := members.statements ++ [placeholder] } =
        membersYield members + .damage := by
      simp [membersYield, hyield, add_right_comm]
    refine retains_pure_of ?_ ?_
    · rw [hadded]
      exact Bool.and_false _
    · rw [hadded]
  unfold recoveringMember
  refine retains_attempt_bind (harvests_member hstatement) ?_ fun problem t => hplaceholder
  rintro ⟨members, problem⟩ t
  cases problem with
  | none => exact retains_pure rfl
  | some problem => exact hplaceholder.still

theorem retains_memberStep {members : Members} :
    Retains (fun _ => false) ⟨[], membersYield members⟩
      (turnHand (fun members => ⟨[], membersYield members⟩)
        fun members => ⟨[], membersYield members⟩) (memberStep statement members) s := by
  unfold memberStep
  rw [retains_get_bind]
  split
  · exact retains_pure rfl
  · refine retains_eat_if (fun hkind => passed_silent hkind rfl) (retains_pure rfl) ?_
    exact retains_turn (gathers_recoveringMember hstatement) fun members t => retains_pure rfl

theorem harvests_component {modifiers : List String} (hs : isSilent s.peek.kind = true) :
    Harvests (fun c => yield (.component c)) (component statement modifiers) s := by
  unfold component
  have hmembers : ∀ t, Gathers membersYield (iterate (memberStep statement) ⟨[], []⟩) t :=
    fun _ => retains_iterate (fun _ _ => retains_memberStep hstatement) ⟨[], []⟩
  refine retains_advance_bind (passed_silent rfl hs) ?_
  refine retains_expectIdentifier_bind fun name => ?_
  refine retains_expect_bind (fun hkind => passed_opening hkind rfl) fun _ => ?_
  refine retains_then (hmembers _) fun members t => ?_
  refine retains_expect_bind (fun hkind => passed_closing hkind rfl) fun _ => ?_
  rw [retains_spanFrom_bind]
  exact retains_pure (hand_eq rfl (by simp [membersYield, TreePart.children]))

theorem harvests_declaration :
    Harvests (Sum.elim (fun f => yield (.function f)) fun c => yield (.component c))
      (declaration statement) s := by
  unfold declaration
  refine retains_passes_bind passes_modifiers fun modifiers t => ?_
  rw [retains_kind_bind]
  split
  case h_1 hkind => exact retains_map (harvests_component hstatement (by rw [hkind]; rfl))
  case h_2 | h_3 | h_4 => exact retains_map (harvests_function hstatement)
  case h_5 => exact retains_unexpected

/-! ## Exports -/

theorem gathers_exportItem : Gathers (fun item => yield item.part) (exportItem statement) s := by
  unfold exportItem
  rw [Gathers, retains_kind_bind]
  split
  · refine retains_bind (harvests_declaration hstatement) fun declared t => ?_
    cases declared with
    | inl function => exact retains_pure rfl
    | inr component => exact retains_pure rfl
  · exact retains_map (hstatement s).still

theorem harvests_exportDecl (hs : isSilent s.peek.kind = true) :
    Harvests (fun e => yield (.exportDecl e)) (exportDecl statement) s := by
  unfold exportDecl
  refine retains_advance_bind (passed_silent rfl hs) ?_
  refine retains_passes_bind (passes_eat rfl) fun isDefault t => ?_
  refine retains_bind (gathers_exportItem hstatement) fun item u => ?_
  rw [retains_spanFrom_bind]
  exact retains_pure (hand_eq rfl (by simp [TreePart.children]))

end Bodies

/-! ## Simple statements -/

theorem retains_stmtFrom {g : Yield} {start : Span} {build : Span → Stmt}
    (hpart : ∀ span, partYield (.stmt (build span)) = 0)
    (hg : ∀ span, g = yields (build span).children) :
    Retains (fun _ => false) ⟨[], g⟩ (fun stmt => ⟨[], yield (.stmt stmt)⟩)
      (stmtFrom start build) s :=
  retains_pure (hand_eq (hpart _) (hg _))

theorem isSilent_of_assignOp? {kind : TokenKind} {op : AssignOp} (h : assignOp? kind = some op) :
    isSilent kind = true := by
  cases kind <;> first | rfl | cases h

theorem harvests_simpleStmt : Harvests (fun stmt => yield (.stmt stmt)) simpleStmt s := by
  unfold simpleStmt
  rw [Harvests, retains_here_bind]
  refine retains_then_moved harvests_expression fun target t => ?_
  rw [retains_kind_bind]
  split
  next => exact retains_stmtFrom (fun _ => rfl) fun _ => by simp [Stmt.children]
  next op hop =>
    split
    · refine retains_advance_bind (passed_silent rfl (isSilent_of_assignOp? hop)) ?_
      refine retains_then harvests_expression fun value u => ?_
      exact retains_stmtFrom (fun _ => rfl) fun _ => by simp [Stmt.children]
    · exact retains_throw

theorem harvests_variableStmt (hs : isSilent s.peek.kind = true) :
    Harvests (fun stmt => yield (.stmt stmt)) variableStmt s := by
  unfold variableStmt
  refine retains_advance_bind (passed_silent rfl hs) ?_
  refine retains_expectIdentifier_bind fun name => ?_
  refine retains_passes_bind passes_typeExpr? fun typeExpr t => ?_
  refine retains_passes_bind (passes_eat rfl) fun taken u => ?_
  refine retains_ite_bind (gathers_some harvests_expression.still) (gathers_none .expr)
    fun init v => ?_
  exact retains_stmtFrom (fun _ => rfl) fun _ => by simp [Stmt.children]

theorem harvests_returnStmt (hs : isSilent s.peek.kind = true) :
    Harvests (fun stmt => yield (.stmt stmt)) returnStmt s := by
  unfold returnStmt
  refine retains_advance_bind (passed_silent rfl hs) ?_
  rw [retains_kind_bind]
  refine retains_ite_bind (gathers_some harvests_expression.still) (gathers_none .expr)
    fun value t => ?_
  exact retains_stmtFrom (fun _ => rfl) fun _ => by simp [Stmt.children]

theorem harvests_throwStmt (hs : isSilent s.peek.kind = true) :
    Harvests (fun stmt => yield (.stmt stmt)) throwStmt s := by
  unfold throwStmt
  refine retains_advance_bind (passed_silent rfl hs) ?_
  refine retains_then harvests_expression fun value t => ?_
  exact retains_stmtFrom (fun _ => rfl) fun _ => by simp [Stmt.children]

theorem gathers_impliedNumber {text : String} {span : Span} :
    Gathers (fun e => yield (.expr e)) (impliedNumber text span) s := by
  unfold impliedNumber
  exact retains_node_bind fun node t _ => retains_pure (hand_eq rfl rfl)

/-- The bracket before the bounds is taken already. -/
theorem retains_loopBounds {span : Span} {g : Yield} :
    Retains (fun _ => false) ⟨[.paren], g⟩
      (fun bounds => ⟨[], g + (yield (.expr bounds.1) + yield (.expr bounds.2))⟩)
      (loopBounds span) s := by
  unfold loopBounds
  refine retains_then harvests_expression fun first t => ?_
  refine retains_eat_if (fun hkind => passed_silent hkind rfl) ?_ ?_
  · refine retains_then harvests_expression fun last u => ?_
    refine retains_expect_bind (fun hkind => passed_closing hkind rfl) fun _ => retains_pure ?_
    rw [add_assoc]
  · refine retains_then gathers_impliedNumber fun zero u => ?_
    refine retains_expect_bind (fun hkind => passed_closing hkind rfl) fun _ => retains_pure ?_
    rw [add_assoc, add_comm (yield (.expr first))]

theorem yield_stmt {stmt : Stmt} (h : partYield (.stmt stmt) = 0) :
    yield (.stmt stmt) = yields stmt.children :=
  yield_of_children h

/-- The counter and the target of the update are both the name that is written. -/
theorem retains_countingLoop {start span : Span} {name : String} {bounds : Expr × Expr}
    {body : Block} :
    Retains (fun _ => false)
      ⟨[], .ofName (name, span) + .ofName (name, span) +
        (yield (.expr bounds.1) + yield (.expr bounds.2)) + yield (.block body)⟩
      (fun stmt => ⟨[], yield (.stmt stmt)⟩) (countingLoop start span name bounds body) s := by
  unfold countingLoop
  refine retains_node_bind fun counter t hcounter => ?_
  refine retains_node_bind fun test u _ => ?_
  refine retains_node_bind fun target v htarget => ?_
  refine retains_then gathers_impliedNumber fun one w => ?_
  refine retains_stmtFrom (fun _ => rfl) fun _ => ?_
  have hinit : yield (.stmt (.variableDecl span ⟨.letVar, name, none, some bounds.1⟩)) =
      yield (.expr bounds.1) := by
    rw [yield_stmt rfl]
    simp [Stmt.children]
  have htest : yield (.expr (.binary test (.identifier counter name) .lt bounds.2)) =
      .ofName (name, span) + yield (.expr bounds.2) := by
    rw [yield_of_children rfl]
    simp [TreePart.children, Expr.children, yield_name, hcounter]
  have hupdate : yield (.stmt (.assignment span (.identifier target name) .add one)) =
      .ofName (name, span) + yield (.expr one) := by
    rw [yield_stmt rfl]
    simp [Stmt.children, yield_name, htarget]
  simp [Stmt.children, hinit, htest, hupdate]
  abel

theorem gathers_loopInit :
    Gathers (fun init => yields (init.toList.map .stmt)) loopInit s := by
  unfold loopInit
  rw [Gathers, retains_kind_bind]
  split
  · exact gathers_none .stmt
  · split
    next hstarts =>
      have hsilent : isSilent s.peek.kind = true := by
        unfold startsVariable at hstarts
        split at hstarts
        case h_1 hkind | h_2 hkind | h_3 hkind => rw [hkind]; rfl
        case h_4 => cases hstarts
      exact gathers_some (harvests_variableStmt hsilent).still
    next => exact gathers_some harvests_simpleStmt.still

/-! ## Compound statements -/

section Compound

variable {statement : Parse Stmt}
  (hstatement : ∀ t, Harvests (fun stmt => yield (.stmt stmt)) statement t)

include hstatement

theorem harvests_whileStmt (hs : isSilent s.peek.kind = true) :
    Harvests (fun stmt => yield (.stmt stmt)) (whileStmt statement) s := by
  unfold whileStmt
  refine retains_advance_bind (passed_silent rfl hs) ?_
  refine retains_then harvests_headExpression fun test t => ?_
  refine retains_then (harvests_body hstatement) fun body u => ?_
  exact retains_stmtFrom (fun _ => rfl) fun _ => by simp [Stmt.children]

theorem gathers_clauseLoop {start : Span} :
    Gathers (fun stmt => yield (.stmt stmt)) (clauseLoop statement start) s := by
  unfold clauseLoop
  refine retains_expect_bind (fun hkind => passed_opening hkind rfl) fun _ => ?_
  refine retains_then gathers_loopInit fun init t => ?_
  refine retains_expect_bind (fun hkind => passed_silent hkind rfl) fun _ => ?_
  rw [retains_kind_bind]
  refine retains_ite_bind (gathers_none .expr) (gathers_some harvests_expression.still)
    fun test u => ?_
  refine retains_expect_bind (fun hkind => passed_silent hkind rfl) fun _ => ?_
  rw [retains_kind_bind]
  refine retains_ite_bind (gathers_none .stmt) (gathers_some harvests_simpleStmt.still)
    fun update v => ?_
  refine retains_expect_bind (fun hkind => passed_closing hkind rfl) fun _ => ?_
  refine retains_then (harvests_body hstatement) fun body w => ?_
  exact retains_stmtFrom (fun _ => rfl) fun _ => by simp [Stmt.children, add_assoc]

theorem harvests_forStmt (hs : isSilent s.peek.kind = true) :
    Harvests (fun stmt => yield (.stmt stmt)) (forStmt statement) s := by
  unfold forStmt
  refine retains_advance_bind (passed_silent rfl hs) ?_
  rw [retains_kind_bind]
  split
  · exact gathers_clauseLoop hstatement
  · -- The name is taken for both of its uses, and dropped in the loop over the items of a list.
    rw [retains_here_bind]
    generalize s.next = t
    let twice : Multiset Word := {(t.peek.lexeme, t.peek.span), (t.peek.lexeme, t.peek.span)}
    have htwice : ∀ w ∈ twice, w = (t.peek.lexeme, t.peek.span) := by simp [twice]
    refine retains_expectName_bind htwice ?_
    refine retains_eat_if (fun hkind => passed_silent hkind rfl) ?_ ?_
    · refine retains_drop (retains_then harvests_headExpression fun iterable u => ?_)
      refine retains_then (harvests_body hstatement) fun body v => ?_
      exact retains_stmtFrom (fun _ => rfl) fun _ => by simp [Stmt.children]
    · refine retains_eat_if (fun hkind => passed_opening hkind rfl) ?_ retains_unexpected
      refine retains_bind retains_loopBounds fun bounds u => ?_
      refine retains_then (harvests_body hstatement) fun body v => ?_
      exact retains_countingLoop

theorem gathers_catchClause :
    Gathers (fun clause => yield (.block clause.body)) (catchClause statement) s := by
  have hbody : ∀ {param : Option String} (t : State),
      Gathers (fun clause => yield (.block clause.body))
        (do return (⟨param, ← body statement⟩ : CatchClause)) t := by
    intro param t
    exact retains_bind (harvests_body hstatement) fun body u => retains_pure rfl
  unfold catchClause
  refine retains_eat_if (fun hkind => passed_opening hkind rfl) ?_ (hbody s)
  refine retains_expectIdentifier_bind fun name => ?_
  exact retains_expect_bind (fun hkind => passed_closing hkind rfl) fun _ => hbody _

theorem harvests_tryStmt (hs : isSilent s.peek.kind = true) :
    Harvests (fun stmt => yield (.stmt stmt)) (tryStmt statement) s := by
  unfold tryStmt
  refine retains_advance_bind (passed_silent rfl hs) ?_
  refine retains_then (harvests_body hstatement) fun block t => ?_
  refine retains_passes_bind (passes_eat rfl) fun taken u => ?_
  refine retains_ite_bind (gathers_some (gathers_catchClause hstatement))
    (gathers_none fun clause : CatchClause => .block clause.body) fun handler v => ?_
  refine retains_passes_bind (passes_eat rfl) fun taken w => ?_
  refine retains_ite_bind (gathers_some (harvests_body hstatement).still) (gathers_none .block)
    fun cleanup x => ?_
  dsimp only
  split
  · exact retains_unexpected
  · exact retains_stmtFrom (fun _ => rfl) fun _ => by simp [Stmt.children, add_assoc]

omit hstatement in
theorem gathers_asyncSegment {α : Type} {part : α → TreePart} {word : Keyword}
    {content : Parse α} {expected : Expected}
    (hcontent : ∀ t, Gathers (fun a => yield (part a)) content t) :
    Gathers (fun found => yields (found.toList.map part)) (asyncSegment word content expected) s := by
  unfold asyncSegment
  rw [Gathers, retains_get_bind]
  split
  next hkinds =>
    rw [Bool.and_eq_true, decide_eq_true_eq, decide_eq_true_eq] at hkinds
    have hsecond := next_kind_of_second (by simp [hkinds.1]) hkinds.2
    refine retains_advance_bind (passed_opening hkinds.1 rfl) ?_
    refine retains_advance_bind (passed_silent hsecond rfl) ?_
    refine retains_then (hcontent _) fun value t => ?_
    refine retains_expect_bind (fun hkind => passed_closing hkind rfl) fun _ => ?_
    exact retains_pure (by simp)
  next => exact gathers_none part

theorem harvests_asyncStmt (hs : isSilent s.peek.kind = true) :
    Harvests (fun stmt => yield (.stmt stmt)) (asyncStmt statement) s := by
  unfold asyncStmt
  refine retains_advance_bind (passed_silent rfl hs) ?_
  refine retains_expect_bind (fun hkind => passed_opening hkind rfl) fun _ => ?_
  rw [retains_kind_bind]
  split
  · refine retains_then (harvests_block hstatement) fun block t => ?_
    refine retains_then (gathers_asyncSegment fun _ => gathers_catchClause hstatement)
      fun handler u => ?_
    refine retains_then (gathers_asyncSegment fun _ => (harvests_body hstatement).still)
      fun cleanup v => ?_
    refine retains_expect_bind (fun hkind => passed_closing hkind rfl) fun _ => ?_
    exact retains_stmtFrom (fun _ => rfl) fun _ => by simp [Stmt.children, add_assoc]
  · exact retains_unexpected

end Compound

/-! ## All statements -/

/-- Both rules keep what they take, and take a token. -/
structure StmtRules.Retain (rules : StmtRules) : Prop where
  statement (t : State) : Harvests (fun stmt => yield (.stmt stmt)) rules.statement t
  ifStmt (t : State) (ht : isSilent t.peek.kind = true) :
    Harvests (fun stmt => yield (.stmt stmt)) rules.ifStmt t

variable {rules : StmtRules}

theorem harvests_ifRule (hrules : rules.Retain) (hs : isSilent s.peek.kind = true) :
    Harvests (fun stmt => yield (.stmt stmt)) (ifRule rules) s := by
  unfold ifRule
  refine retains_advance_bind (passed_silent rfl hs) ?_
  refine retains_then harvests_headExpression fun test t => ?_
  refine retains_then (harvests_body hrules.statement) fun consequent u => ?_
  have hstmt : ∀ {start : Span} (alternate : Option Stmt) (v : State), Retains (fun _ => false)
      ⟨[], 0 + yield (.expr test) + yield (.block consequent) +
        yields (alternate.toList.map .stmt)⟩ (fun stmt => ⟨[], yield (.stmt stmt)⟩)
      (stmtFrom start (.ifElse · test consequent alternate)) v :=
    fun _ _ => retains_stmtFrom (fun _ => rfl) fun _ => by simp [Stmt.children, add_assoc]
  have hblock : ∀ v, Gathers (fun alternate : Option Stmt => yields (alternate.toList.map .stmt))
      ((fun b => some (.block b)) <$> body rules.statement) v := by
    intro v
    refine retains_map ((harvests_body hrules.statement).still.mono fun b => ?_)
    have hyield : yield (.stmt (.block b)) = yield (.block b) := by
      rw [yield_stmt rfl]
      simp [Stmt.children]
    simp [hyield]
  refine retains_eat_if (fun hkind => passed_silent hkind rfl) ?_
    (retains_then (gathers_none .stmt) hstmt)
  rw [retains_kind_bind]
  split
  next hkind =>
    have hsilent := hrules.ifStmt u.next (by rw [hkind]; rfl)
    exact retains_then (gathers_some hsilent.still) hstmt
  next => exact retains_then (hblock _) hstmt

theorem harvests_bareStatement (hrules : rules.Retain) :
    Harvests (fun stmt => yield (.stmt stmt)) (bareStatement rules) s := by
  unfold bareStatement
  rw [Harvests, retains_here_bind, retains_kind_bind]
  split
  case h_1 hkind | h_2 hkind | h_3 hkind => exact harvests_variableStmt (by rw [hkind]; rfl)
  case h_4 hkind => exact harvests_ifRule hrules (by rw [hkind]; rfl)
  case h_5 hkind => exact harvests_whileStmt hrules.statement (by rw [hkind]; rfl)
  case h_6 hkind => exact harvests_forStmt hrules.statement (by rw [hkind]; rfl)
  case h_7 hkind => exact harvests_returnStmt (by rw [hkind]; rfl)
  case h_8 hkind | h_9 hkind =>
    refine retains_advance_bind (passed_silent hkind rfl) ?_
    exact retains_stmtFrom (fun _ => rfl) fun _ => rfl
  case h_10 hkind => exact harvests_throwStmt (by rw [hkind]; rfl)
  case h_11 hkind => exact harvests_tryStmt hrules.statement (by rw [hkind]; rfl)
  case h_12 hkind => exact harvests_asyncStmt hrules.statement (by rw [hkind]; rfl)
  case h_13 | h_14 | h_15 | h_16 =>
    refine retains_passes_bind passes_modifiers fun modifiers t => ?_
    refine retains_then_moved (harvests_function hrules.statement) fun function u => ?_
    exact retains_stmtFrom (fun _ => rfl) fun _ => by simp [Stmt.children]
  case h_17 hkind =>
    refine retains_then_moved (harvests_importDecl (by rw [hkind]; rfl)) fun item t => ?_
    have hyield : yield (.importDecl item) = 0 := yield_of_children rfl
    exact retains_stmtFrom (fun _ => rfl) fun _ => by simp [Stmt.children, hyield]
  case h_18 hkind =>
    have hexport := harvests_exportDecl hrules.statement (by rw [hkind]; rfl)
    refine retains_then_moved hexport fun item t => ?_
    exact retains_stmtFrom (fun _ => rfl) fun _ => by simp [Stmt.children]
  case h_19 =>
    refine retains_map ((harvests_block hrules.statement).mono fun b => ?_)
    rw [yield_stmt rfl]
    simp [Stmt.children]
  case h_20 => exact harvests_simpleStmt

theorem harvests_statementRule (hrules : rules.Retain) :
    Harvests (fun stmt => yield (.stmt stmt)) (statementRule rules) s := by
  unfold statementRule
  refine retains_bind_moved (harvests_bareStatement hrules) fun stmt t => ?_
  exact retains_passes_bind (passes_eat rfl) fun _ _ => retains_pure rfl

theorem retain_stmtRules (depth : Nat) : (stmtRules depth).Retain := by
  induction depth with
  | zero => exact ⟨fun _ => retains_fail, fun _ _ => retains_fail⟩
  | succ depth ih => exact ⟨fun _ => harvests_statementRule ih, fun _ => harvests_ifRule ih⟩

theorem harvests_statement : Harvests (fun stmt => yield (.stmt stmt)) statement s :=
  ((retain_stmtRules (s.rest.length + 1)).statement s).of_eq rfl

end ComponentLang.Grammar
