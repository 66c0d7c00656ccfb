import ComponentLang.Proofs.Grammar.Ledger.Program
import ComponentLang.Proofs.Grammar.Provenance.Statement
import Mathlib.Data.List.Sort

/-!
# Values survive, and brackets match

A program that was read tallies with all tokens up to the end. So its values from outside are, in
the order of their numbers, some of those among the tokens, and without problems all of them. And
without problems every bracket was closed by its own, in the order in which they were opened.
-/
namespace ComponentLang.Grammar

open Parse State

variable {s : State}

/-! ## Items -/

theorem yield_program (p : Program) :
    yield (.program p) =
      yields (p.exports.map .exportDecl) + (yields (p.functions.map .function) +
        (yields (p.components.map .component) + yields (p.statements.map .stmt))) := by
  have himport : ∀ decl : Import, yield (.importDecl decl) = 0 := fun _ => yield_of_children rfl
  have himports : yields (p.imports.map .importDecl) = 0 := by
    simp [yields, Function.comp_def, himport]
  rw [yield_of_children rfl]
  simp [TreePart.children, himports]

theorem harvests_item {program : Program} :
    Retains (fun _ => true) ⟨[], yield (.program program)⟩ (fun read => ⟨[], yield (.program read)⟩)
      (item program) s := by
  unfold item
  rw [retains_kind_bind]
  split
  case h_1 hkind =>
    refine retains_then_moved (harvests_importDecl (by rw [hkind]; rfl)) fun decl t => ?_
    exact retains_pure (by simp [yield_program])
  case h_2 hkind =>
    have hexport := harvests_exportDecl (fun _ => harvests_statement) (s := s) (by rw [hkind]; rfl)
    refine retains_then_moved hexport fun decl t => retains_pure ?_
    simp [yield_program]
    abel
  case h_3 =>
    split
    · refine retains_then_moved (harvests_declaration fun _ => harvests_statement)
        fun declared t => ?_
      cases declared with
      | inl function => exact retains_pure (by simp [yield_program]; abel)
      | inr component => exact retains_pure (by simp [yield_program]; abel)
    · refine retains_then_moved harvests_statement fun stmt t => retains_pure ?_
      simp [yield_program]
      abel

theorem gathers_recoveringItem {program : Program} :
    Retains (fun read => (yield (.program read)).whole) ⟨[], yield (.program program)⟩
      (fun read => ⟨[], yield (.program read)⟩) (recoveringItem program) s := by
  unfold recoveringItem
  refine retains_attempt_bind harvests_item (fun read t => retains_pure rfl) fun problem t => ?_
  refine retains_recover_bind fun placeholder u hyield => ?_
  have hadded :
      yield (.program { program with statements := program.statements ++ [placeholder] }) =
      (yield (.program program)).torn := by
    rw [Yield.torn_eq_add_damage]
    simp [yield_program, hyield]
    abel
  have hdone : ∀ v, Retains (fun read => (yield (.program read)).whole)
      ⟨[], (yield (.program program)).torn⟩ (fun read => ⟨[], yield (.program read)⟩)
      (pure { program with statements := program.statements ++ [placeholder] }) v :=
    fun _ => retains_pure_of (by rw [hadded]; rfl) (by rw [hadded])
  rw [← Yield.torn_eq_add_damage, retains_kind_bind]
  split
  · exact retains_torn_advance_bind hdone
  · exact hdone u

theorem gathers_program : Gathers (fun p => yield (.program p)) program s := by
  unfold program
  refine retains_iterate (n := fun p => ⟨[], yield (.program p)⟩) (fun read t => ?_) .empty
  unfold programStep
  rw [retains_get_bind]
  split
  · exact retains_pure rfl
  · refine retains_eat_if (fun hkind => passed_silent hkind rfl) (retains_pure rfl) ?_
    exact retains_turn gathers_recoveringItem fun read u => retains_pure rfl

/-! ## All tokens -/

/-- The tokens that a list is read up to: those before its first end of input. -/
def beforeEnd (tokens : List Token) : List Token := tokens.takeWhile fun t => t.kind != .eof

/-- Error tokens are passed over, and nothing else before the end is. -/
theorem filter_rest_start {keep : Token → Bool}
    (hkeep : ∀ t, keep t = true → t.kind.isError = false)
    (tokens : List Token) :
    (State.start tokens).rest.filter keep = (beforeEnd tokens).filter keep := by
  change ((tokens.filter fun t => !t.kind.isError).takeWhile fun t => t.kind != .eof).filter keep =
    (tokens.takeWhile fun t => t.kind != .eof).filter keep
  induction tokens with
  | nil => rfl
  | cons t rest ih =>
      cases herror : t.kind.isError with
      | true =>
          have hread : t.kind ≠ .eof := by
            intro heof
            rw [heof] at herror
            cases herror
          have hdropped : keep t ≠ true := fun htrue => by simp [hkeep t htrue] at herror
          simp [herror, hread, hdropped, ih]
      | false =>
          by_cases hread : t.kind = .eof
          · simp [hread, TokenKind.isError]
          · simp only [List.filter_cons, List.takeWhile_cons, herror, Bool.not_false, if_true,
              bne_iff_ne, ne_eq, hread, not_false_eq_true, ih]

theorem words_rest_start {kind : TokenKind} (hkind : kind.isError = false) (tokens : List Token) :
    words kind (State.start tokens).rest = words kind (beforeEnd tokens) := by
  unfold words
  rw [filter_rest_start fun t ht => by rw [of_decide_eq_true ht, hkind]]

/-- A program that was read tallies with all the tokens. -/
theorem tallies_parse (tokens : List Token) :
    ∃ after log, Counts ⟨[], yield (.program (parse tokens).program)⟩ (.start tokens) after
      (State.start tokens).rest log ∧ after.diagnostics = (parse tokens).diagnostics.reverse := by
  obtain ⟨read, hok, hmoves, hend⟩ := (gives_program (n := 0) (s := .start tokens)).exists_ok
  have hread : (parse tokens).program = read := by
    change (program.run (.start tokens)).1.toOption.getD .empty = read
    rw [hok]
    rfl
  obtain ⟨-, -, taken, log, hcounts⟩ :=
    (gathers_program _ (tallies_refl (.start tokens))).good_of_ok hok
  have htaken : (State.start tokens).rest = taken := by
    have hrest := hcounts.rest
    rwa [hend, List.append_nil] at hrest
  subst htaken
  refine ⟨(program.run (.start tokens)).2, log, ?_, (List.reverse_reverse _).symm⟩
  rw [hread]
  exact hcounts

/-! ### What a program keeps -/

/-- The value from outside that an expression is. -/
def TreePart.valueUse? : TreePart → Option ValueUse
  | .expr (.valueBinding node name) => some (node, name)
  | _ => none

/-- The name that an expression is, and its place. -/
def TreePart.nameUse? : TreePart → Option Word
  | .expr (.identifier node name) => some (name, node.span)
  | _ => none

/-- The values that a program takes from outside, at each of their uses. -/
def valueUses (p : Program) : List ValueUse := p.parts.filterMap TreePart.valueUse?

theorem partYield_part (part : TreePart) :
    partYield part =
      ⟨↑(TreePart.valueUse? part).toList, ↑(TreePart.nameUse? part).toList,
        part.placeholder?.isNone⟩ := by
  cases part with
  | expr e => cases e <;> rfl
  | stmt stmt => cases stmt <;> rfl
  | _ => rfl

/-- A program keeps its values from outside and its names, and it is whole without placeholders. -/
theorem yield_parts (p : Program) :
    yield (.program p) =
      ⟨↑(valueUses p), ↑(p.parts.filterMap TreePart.nameUse?), p.placeholders.isEmpty⟩ := by
  unfold yield valueUses Program.placeholders
  change (p.parts.map partYield).sum = _
  induction p.parts with
  | nil => rfl
  | cons part rest ih =>
      have hcons : ∀ {α : Type} (find : TreePart → Option α),
          (part :: rest).filterMap find = (find part).toList ++ rest.filterMap find := by
        intro α find
        cases h : find part <;> simp [h]
      rw [List.map_cons, List.sum_cons, ih, partYield_part, hcons, hcons, hcons]
      refine Yield.ext rfl rfl ?_
      cases part.placeholder? <;> rfl

theorem placeholders_eq_nil {tokens : List Token} (h : (parse tokens).diagnostics = []) :
    (parse tokens).program.placeholders = [] := by
  have hsubperm := reported_subperm tokens
  rw [h, List.subperm_nil] at hsubperm
  exact List.map_eq_nil_iff.1 hsubperm

/-- Without problems nothing is missing. -/
theorem exact_parse {tokens : List Token} {after : State} {log : List ValueUse}
    (hcounts : Counts ⟨[], yield (.program (parse tokens).program)⟩ (.start tokens) after
      (State.start tokens).rest log)
    (hafter : after.diagnostics = (parse tokens).diagnostics.reverse)
    (h : (parse tokens).diagnostics = []) :
    log.map ValueUse.word = words .valueBinding (State.start tokens).rest ∧
      Unclosed [] (State.start tokens).rest := by
  have hwhole : (yield (.program (parse tokens).program)).whole = true := by
    rw [yield_parts, placeholders_eq_nil h]
    rfl
  refine (hcounts.exact hwhole).resolve_left ?_
  rintro ⟨d, hd, -⟩
  rw [problem_mem_entries, hafter, h] at hd
  exact List.not_mem_nil hd

theorem mem_children_valueBinding {node : Node} {name : String} {part : TreePart}
    (h : .valueBinding node name ∈ part.children) : part = .expr (.valueBinding node name) := by
  cases part with
  | expr e => cases e <;> simp_all [TreePart.children, Expr.children]
  | stmt stmt => cases stmt <;> simp_all [TreePart.children, Stmt.children]
  | markup m => cases m <;> simp_all [TreePart.children, Markup.children]
  | exportDecl item =>
      obtain ⟨isDefault, item, span⟩ := item
      cases item <;> simp_all [TreePart.children, ExportItem.part]
  | _ => simp_all [TreePart.children]

theorem mem_bindings {p : Program} {name : String} :
    name ∈ p.bindings ↔ ∃ node, p.Contains (.expr (.valueBinding node name)) := by
  have hname : name ∈ p.bindings ↔ ∃ node, p.Contains (.valueBinding node name) := by
    unfold Program.bindings
    simp only [List.mem_eraseDups, List.mem_filterMap, Program.contains_iff_mem_parts]
    constructor
    · rintro ⟨part, hpart, hbinding⟩
      cases part with
      | valueBinding node other =>
          obtain rfl := Option.some.inj hbinding
          exact ⟨node, hpart⟩
      | _ => cases hbinding
    · rintro ⟨node, hpart⟩
      exact ⟨_, hpart, rfl⟩
  rw [hname]
  refine exists_congr fun node => ⟨fun h => ?_, fun h => ?_⟩
  · -- The name of a value stands nowhere but in the expression.
    cases h with
    | tail hwhole hchild => exact mem_children_valueBinding hchild ▸ hwhole
  · exact h.tail (List.mem_singleton_self _)

/-- The values that a program takes from outside are those of its tokens. In the order of the
numbers of their nodes they are some of the values among the tokens, in the order of these, and all
of them if there were no problems. No name becomes a value and no value becomes a name, and every value is
found once among the bindings of the program. -/
theorem parse_keeps_values (tokens : List Token) :
    let parsed := parse tokens
    let taken := beforeEnd tokens
    (∃ uses : List ValueUse, uses.Perm (valueUses parsed.program) ∧
      uses.Pairwise (fun u v => u.1.id < v.1.id) ∧
      (uses.map ValueUse.word).Sublist (words .valueBinding taken) ∧
      (parsed.diagnostics = [] → uses.map ValueUse.word = words .valueBinding taken)) ∧
    (∀ node name, parsed.program.Contains (.expr (.valueBinding node name)) →
      ∃ t ∈ taken, t.kind = .valueBinding ∧ t.lexeme = name ∧ t.span = node.span) ∧
    (∀ node name, parsed.program.Contains (.expr (.identifier node name)) →
      ∃ t ∈ taken, t.kind = .identifier ∧ t.lexeme = name ∧ t.span = node.span) ∧
    parsed.program.bindings.Nodup ∧
    ∀ name, name ∈ parsed.program.bindings ↔
      ∃ node, parsed.program.Contains (.expr (.valueBinding node name)) := by
  intro parsed taken
  obtain ⟨after, log, hcounts, hdiagnostics⟩ := tallies_parse tokens
  have hvalues : (words .valueBinding (State.start tokens).rest) = words .valueBinding taken :=
    words_rest_start rfl tokens
  have hnames : (words .identifier (State.start tokens).rest) = words .identifier taken :=
    words_rest_start rfl tokens
  have hperm : log.Perm (valueUses parsed.program) := by
    have hlog := hcounts.values
    rw [yield_parts] at hlog
    exact Multiset.coe_eq_coe.1 hlog
  have hkept := hvalues ▸ hcounts.kept
  have hmem : ∀ {kind : TokenKind} {w : Word}, w ∈ words kind taken →
      ∃ t ∈ taken, t.kind = kind ∧ t.lexeme = w.1 ∧ t.span = w.2 := by
    intro kind w hw
    obtain ⟨t, ht, rfl⟩ := List.mem_map.1 hw
    rw [List.mem_filter, decide_eq_true_eq] at ht
    exact ⟨t, ht.1, ht.2, rfl, rfl⟩
  refine ⟨⟨log, hperm, hcounts.ordered, hkept, fun hnone => ?_⟩, fun node name hcontains => ?_,
    fun node name hcontains => ?_, nodup_eraseDups _, fun name => mem_bindings⟩
  · rw [← hvalues]
    exact (exact_parse hcounts hdiagnostics hnone).1
  · have huse : (node, name) ∈ log := by
      rw [hperm.mem_iff]
      refine List.mem_filterMap.2 ⟨_, Program.contains_iff_mem_parts.1 hcontains, rfl⟩
    exact hmem (hkept.subset (List.mem_map_of_mem huse))
  · have hname : (name, node.span) ∈ words .identifier taken := by
      rw [← hnames]
      refine hcounts.names _ ?_
      rw [yield_parts]
      exact Multiset.mem_coe.2
        (List.mem_filterMap.2 ⟨_, Program.contains_iff_mem_parts.1 hcontains, rfl⟩)
    exact hmem hname

/-! ### Brackets -/

def brackets (tokens : List Token) : List Token := tokens.filter fun t => isBracket t.kind

theorem brackets_concat (tokens : List Token) (t : Token) :
    brackets (tokens ++ [t]) = brackets tokens ++ if isBracket t.kind then [t] else [] := by
  cases ht : isBracket t.kind <;> simp [brackets, ht]

/-- Brackets that match: behind one that opens comes what is nested in it, and then the one by which
it is closed. -/
inductive WellNested : List Token → Prop
  | nil : WellNested []
  | around {first last : Token} {inside rest : List Token} {o : Opening} :
      Opening.ofKind? first.kind first.lexeme = some o →
      o.closedBy last.kind last.lexeme = true →
      WellNested inside → WellNested rest → WellNested (first :: (inside ++ last :: rest))

theorem WellNested.append {brackets others : List Token} (h : WellNested brackets)
    (h' : WellNested others) : WellNested (brackets ++ others) := by
  induction h with
  | nil => exact h'
  | around hfirst hlast hinside _ _ ih =>
      rw [List.cons_append, List.append_assoc, List.cons_append]
      exact .around hfirst hlast hinside ih

/-- Brackets that match as far as they are closed: those that are still open stand in between. -/
inductive Pending : List Opening → List Token → Prop
  | nil {brackets : List Token} : WellNested brackets → Pending [] brackets
  | cons {o : Opening} {opened : List Opening} {before inside : List Token} {first : Token} :
      Pending opened before → Opening.ofKind? first.kind first.lexeme = some o →
      WellNested inside → Pending (o :: opened) (before ++ first :: inside)

theorem Pending.append {opened : List Opening} {brackets others : List Token}
    (h : Pending opened brackets) (h' : WellNested others) :
    Pending opened (brackets ++ others) := by
  cases h with
  | nil h => exact .nil (h.append h')
  | cons hbefore hfirst hinside =>
      rw [List.append_assoc, List.cons_append]
      exact .cons hbefore hfirst (hinside.append h')

theorem Pending.close {o : Opening} {opened : List Opening} {brackets : List Token} {last : Token}
    (h : Pending (o :: opened) brackets) (hlast : o.closedBy last.kind last.lexeme = true) :
    Pending opened (brackets ++ [last]) := by
  cases h with
  | cons hbefore hfirst hinside =>
      rw [List.append_assoc, List.cons_append]
      exact hbefore.append (.around hfirst hlast hinside .nil)

theorem isBracket_of_ofKind? {kind : TokenKind} {lexeme : String} {o : Opening}
    (h : Opening.ofKind? kind lexeme = some o) : isBracket kind = true := by
  cases kind <;> first | rfl | cases h

theorem isBracket_of_closedBy {kind : TokenKind} {lexeme : String} {o : Opening}
    (h : o.closedBy kind lexeme = true) : isBracket kind = true := by
  cases o <;> cases kind <;> first | rfl | cases h

/-- What is left open by the tokens is left open by the brackets among them. -/
theorem Unclosed.pending {opened : List Opening} {taken : List Token} (h : Unclosed opened taken) :
    Pending opened (brackets taken) := by
  induction h with
  | nil => exact .nil .nil
  | concat _ hstep ih =>
      rw [brackets_concat]
      cases hstep with
      | opens ho =>
          rw [if_pos (isBracket_of_ofKind? ho)]
          exact .cons ih ho .nil
      | closes ho =>
          rw [if_pos (isBracket_of_closedBy ho)]
          exact ih.close ho
      | passes ht =>
          rw [ht, if_neg Bool.false_ne_true, List.append_nil]
          exact ih

/-- Only well-nested brackets are read without problems. Every parenthesis, brace and bracket, and
every expression in markup, is closed by its counterpart, and every tag closes itself or is closed
by its own name. -/
theorem parse_accepts_wellNested {tokens : List Token} (h : (parse tokens).diagnostics = []) :
    WellNested (brackets (beforeEnd tokens)) := by
  obtain ⟨after, log, hcounts, hdiagnostics⟩ := tallies_parse tokens
  have hpending := (exact_parse hcounts hdiagnostics h).2.pending
  have hvalid : ∀ t : Token, isBracket t.kind = true → t.kind.isError = false := by
    intro t ht
    cases hkind : t.kind <;> first | rfl | (rw [hkind] at ht; cases ht)
  rw [brackets, filter_rest_start hvalid] at hpending
  cases hpending with
  | nil hnested => exact hnested

/-- A tag with a list in it, and what comes after the end of the input. -/
def listInTag : List Token :=
  [.ofKind .tagOpen "p" .zero, .ofKind .tagEnd ">" .zero,
    .ofKind .expressionStart "\x7b" .zero, .ofKind .lbracket "[" .zero,
    .ofKind .valueBinding "v" .zero, .ofKind .rbracket "]" .zero,
    .ofKind .expressionEnd "\x7d" .zero, .ofKind .tagClose "p" .zero,
    .ofKind .eof "" .zero, .ofKind .rparen ")" .zero]

theorem parse_accepts_listInTag :
    (parse listInTag).diagnostics = [] ∧
      WellNested (brackets (beforeEnd listInTag)) := by
  have hnone : (parse listInTag).diagnostics = [] := by decide +kernel
  exact ⟨hnone, parse_accepts_wellNested hnone⟩

end ComponentLang.Grammar
