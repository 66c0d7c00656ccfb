import ComponentLang.Proofs.Tree.Remap
import ComponentLang.Proofs.Typing.Effects.Program
import ComponentLang.Proofs.Typing.Local.Statement

/-!
# Checking trees elsewhere

Numbers and places have no part in what a check decides. `Shifts ν p p'` says that `p'` goes the way
of `p`: it gives the same result and leaves the same names in sight, it has the same to report, at
other places perhaps, and it notes the same types under the numbers that `ν` makes of those of `p`.
A tree that is numbered otherwise and stands elsewhere is checked in this way beside the tree.
-/
namespace ComponentLang

/-- Under the new number of an expression there is what was under the old one, if no other old
number becomes the same. -/
theorem TypeTable.lookup_map_of_unique {ν : Nat → Nat} {n : Nat} {entries : List (Nat × Ty)}
    (h : ∀ entry ∈ entries, ν entry.1 = ν n → entry.1 = n) :
    (entries.map (Prod.map ν id)).lookup (ν n) = entries.lookup n := by
  induction entries with
  | nil => rfl
  | cons entry rest ih =>
      rw [List.forall_mem_cons] at h
      obtain ⟨id, type⟩ := entry
      have hsame : (ν n == ν id) = (n == id) := by
        rw [Bool.eq_iff_iff, beq_iff_eq, beq_iff_eq]
        exact ⟨fun heq => (h.1 heq.symm).symm, congrArg ν⟩
      rw [List.map_cons, Prod.map_apply, List.lookup_cons, List.lookup_cons, ih h.2, hsame]
      rfl

/-- A change of numbers that takes the first list to the second. -/
theorem exists_map_eq {ns ns' : List Nat} (h : ns.Nodup) (hlength : ns'.length = ns.length) :
    ∃ ν : Nat → Nat, ns.map ν = ns' := by
  refine ⟨fun n => ns'.getD (ns.idxOf n) 0, List.ext_getElem (by simp [hlength]) ?_⟩
  intro i hi hi'
  rw [List.getElem_map, h.idxOf_getElem, List.getD_eq_getElem?_getD, List.getElem?_eq_getElem hi',
    Option.getD_some]

namespace Checking

/-- What the messages of the diagnostics say. -/
def messages (c : Checking) : Set String := {message | ∃ x ∈ c.diagnostics, x.message = message}

theorem messages_addDiagnostic (c : Checking) (x : Diagnostic) :
    (c.addDiagnostic x).messages = insert x.message c.messages := by
  ext message
  constructor
  · rintro ⟨y, hy, rfl⟩
    rcases mem_addDiagnostic.1 hy with hy | rfl
    · exact .inr ⟨y, hy, rfl⟩
    · exact .inl rfl
  · rintro (rfl | ⟨y, hy, rfl⟩)
    · exact ⟨x, mem_addDiagnostic.2 (.inr rfl), rfl⟩
    · exact ⟨y, mem_addDiagnostic.2 (.inl hy), rfl⟩

/-- The states are the same, but that faults may stand elsewhere and that the types noted after those
in `old` and `old'` are noted under other numbers. -/
structure Shifted (ν : Nat → Nat) (old old' : List (Nat × Ty)) (c d : Checking) : Prop where
  scopes : d.scopes = c.scopes
  external : d.external = c.external
  components : d.components = c.components
  returns : d.returns = c.returns
  messages : d.messages = c.messages
  types : ∃ noted, c.types.entries = noted ++ old ∧
    d.types.entries = noted.map (Prod.map ν id) ++ old'
  summaries : d.summaries = c.summaries

variable {ν : Nat → Nat} {old old' : List (Nat × Ty)} {c d : Checking}

theorem Shifted.addDiagnostic (h : Shifted ν old old' c d) {x y : Diagnostic}
    (hxy : y.message = x.message) :
    Shifted ν old old' (c.addDiagnostic x) (d.addDiagnostic y) := by
  have hmessages : (d.addDiagnostic y).messages = (c.addDiagnostic x).messages := by
    rw [messages_addDiagnostic, messages_addDiagnostic, h.messages, hxy]
  rw [addDiagnostic_eq c, addDiagnostic_eq d] at hmessages ⊢
  exact { h with messages := hmessages }

theorem Shifted.record (h : Shifted ν old old' c d) (id : Nat) (type : Ty) :
    Shifted ν old old' { c with types := c.types.insert id type }
      { d with types := d.types.insert (ν id) type } := by
  obtain ⟨noted, hc, hd⟩ := h.types
  exact { h with types :=
    ⟨(id, type) :: noted, congrArg (List.cons (id, type)) hc, congrArg (List.cons (ν id, type)) hd⟩ }

/-- The types noted for expressions are those noted for the expressions that correspond to them, if
different numbers correspond to different ones. -/
theorem Shifted.map_get? {ns ns' : List Nat} {c' d' : Checking}
    (h : Shifted ν c.types.entries d.types.entries c' d') (hgrows : Grows {n | n ∈ ns} c c')
    (hmap : ns.map ν = ns') (hinj : Set.InjOn ν {n | n ∈ ns}) :
    ns'.map d'.types.get? = ns.map c'.types.get? := by
  obtain ⟨noted, hc, hd⟩ := h.types
  obtain ⟨added, hadded, hids⟩ := hgrows.noted
  obtain rfl : noted = added := List.append_cancel_right (hc.symm.trans hadded)
  rw [← hmap, List.map_map]
  refine List.map_congr_left fun n hn => ?_
  have hunique : ∀ entry ∈ noted, ν entry.1 = ν n → entry.1 = n := by
    intro entry hentry
    have hold : entry.1 ∈ ns :=
      (hids entry.1).1 (List.lookup_isSome_iff.2 ⟨entry, hentry, beq_self_eq_true _⟩)
    exact fun heq => hinj hold hn heq
  obtain ⟨type, htype⟩ := Option.isSome_iff_exists.1 ((hids n).2 hn)
  unfold TypeTable.get?
  rw [Function.comp_apply, hc, hd, List.lookup_append, List.lookup_append,
    TypeTable.lookup_map_of_unique hunique, htype]
  rfl

end Checking

open Checking

namespace Check

variable {ν : Nat → Nat} {μ : Span → Span} {α β : Type} {p p' : Check α} {f f' : α → Check β}

/-- Run from states that are the same but for places and numbers, both checks give the same and
leave such states. -/
def Shifts (ν : Nat → Nat) (p p' : Check α) : Prop :=
  ∀ (old old' : List (Nat × Ty)) (c d : Checking), Shifted ν old old' c d →
    (p'.run d).1 = (p.run c).1 ∧ Shifted ν old old' (p.run c).2 (p'.run d).2

/-! ## Checks made from checks -/

theorem shifts_pure (a : α) : Shifts ν (pure a) (pure a) := fun _ _ _ _ h => ⟨rfl, h⟩

theorem Shifts.bind (hp : Shifts ν p p') (hf : ∀ a, Shifts ν (f a) (f' a)) :
    Shifts ν (p >>= f) (p' >>= f') := by
  intro old old' c d h
  obtain ⟨hresult, hafter⟩ := hp _ _ c d h
  have hrun : (p' >>= f').run d = (f' (p.run c).1).run (p'.run d).2 := by
    rw [← hresult]
    rfl
  rw [hrun]
  exact hf _ _ _ _ _ hafter

theorem Shifts.map (hp : Shifts ν p p') (g : α → β) : Shifts ν (g <$> p) (g <$> p') :=
  hp.bind fun a => shifts_pure (g a)

/-- Something is read that is the same in both states. -/
theorem shifts_read_bind {γ : Type} (read : Checking → γ) {f f' : γ → Check α}
    (h : ∀ {old old' : List (Nat × Ty)} (c d : Checking), Shifted ν old old' c d → read d = read c) (hf : ∀ a, Shifts ν (f a) (f' a)) :
    Shifts ν (get >>= fun c => f (read c)) (get >>= fun c => f' (read c)) := by
  intro old old' c d hcd
  have hrun : (get >>= fun c => f' (read c) : Check α).run d = (f' (read c)).run d := by
    rw [← h c d hcd]
    rfl
  rw [hrun]
  exact hf (read c) _ _ c d hcd

theorem shifts_ite {b : Prop} [Decidable b] {q q' : Check α} (hp : Shifts ν p p')
    (hq : Shifts ν q q') : Shifts ν (if b then p else q) (if b then p' else q') := by
  split
  · exact hp
  · exact hq

/-- A branch is taken by what is the same in both states. -/
theorem shifts_whether (read : Checking → Bool) {q q' : Check α}
    (h : ∀ {old old' : List (Nat × Ty)} (c d : Checking), Shifted ν old old' c d → read d = read c) (hp : Shifts ν p p') (hq : Shifts ν q q') :
    Shifts ν (do if read (← get) then p else q) (do if read (← get) then p' else q') := by
  intro old old' c d hcd
  change ((if read d then p' else q' : Check α).run d).1 = ((if read c then p else q : Check α).run c).1 ∧
    Shifted ν old old' ((if read c then p else q : Check α).run c).2 ((if read d then p' else q' : Check α).run d).2
  rw [h c d hcd]
  exact shifts_ite hp hq _ _ c d hcd

theorem shifts_modify {change change' : Checking → Checking}
    (h : ∀ {old old' : List (Nat × Ty)} (c d : Checking), Shifted ν old old' c d →
      Shifted ν old old' (change c) (change' d)) :
    Shifts ν (modify change) (modify change') := fun _ _ c d hcd => ⟨rfl, h c d hcd⟩

theorem shifts_inScope (h : Shifts ν p p') : Shifts ν (inScope p) (inScope p') := by
  have hpush : Shifts ν (modify fun c : Checking => { c with scopes := c.scopes.push })
      (modify fun c => { c with scopes := c.scopes.push }) :=
    shifts_modify fun c d hcd => { hcd with scopes := congrArg Scopes.push hcd.scopes }
  have hpop : Shifts ν (modify fun c : Checking => { c with scopes := c.scopes.pop })
      (modify fun c => { c with scopes := c.scopes.pop }) :=
    shifts_modify fun c d hcd => { hcd with scopes := congrArg Scopes.pop hcd.scopes }
  exact hpush.bind fun _ => h.bind fun result => hpop.bind fun _ => shifts_pure result

theorem shifts_each {check : α → Check Unit} {change : α → α}
    (h : ∀ a, Shifts ν (check a) (check (change a))) (items : List α) :
    Shifts ν (each check items) (each check (items.map change)) := by
  induction items with
  | nil => exact shifts_pure ()
  | cons a rest ih => exact (h a).bind fun _ => ih

/-- Two checks go the way of a third. -/
theorem Shifts.of_common {q : Check α} (h : Shifts ν p q) (h' : Shifts id p' q) :
    Shifts ν p p' := by
  intro old old' c d hcd
  obtain ⟨before, -, hbefore⟩ := hcd.types
  have hself : Shifted id old' old' d d :=
    ⟨rfl, rfl, rfl, rfl, rfl, ⟨_, hbefore, by rw [Prod.map_id, List.map_id, hbefore]⟩, rfl⟩
  obtain ⟨hresult, hafter⟩ := h old old' c d hcd
  obtain ⟨hresult', hafter'⟩ := h' old' old' d d hself
  refine ⟨hresult'.symm.trans hresult, ?_⟩
  exact {
    scopes := hafter'.scopes.symm.trans hafter.scopes
    external := hafter'.external.symm.trans hafter.external
    components := hafter'.components.symm.trans hafter.components
    returns := hafter'.returns.symm.trans hafter.returns
    messages := hafter'.messages.symm.trans hafter.messages
    types := by
      obtain ⟨noted, hnoted, hnoted'⟩ := hafter.types
      obtain ⟨common, hcommon, hcommon'⟩ := hafter'.types
      rw [Prod.map_id, List.map_id] at hcommon'
      exact ⟨noted, hnoted, (hcommon.trans hcommon'.symm).trans hnoted'⟩
    summaries := hafter'.summaries.symm.trans hafter.summaries }

/-! ## Reports and notes -/

theorem shifts_report (fault : TypeFault) (span span' : Span) :
    Shifts ν (report fault span) (report fault span') :=
  shifts_modify fun _ _ h => h.addDiagnostic rfl

theorem shifts_settle (verdict : Verdict) (span span' : Span) :
    Shifts ν (settle verdict span) (settle verdict span') := by
  unfold settle
  cases verdict.fault with
  | none => exact shifts_pure _
  | some fault => exact (shifts_report fault span span').bind fun _ => shifts_pure _

theorem shifts_reportAll (found : List (TypeFault × Span)) :
    Shifts ν (reportAll found) (reportAll (found.map (Prod.map id μ))) := by
  induction found with
  | nil => exact shifts_pure ()
  | cons first rest ih => exact (shifts_report first.1 _ _).bind fun _ => ih

theorem shifts_expectStorable (value target : Ty) (span span' : Span) :
    Shifts ν (expectStorable value target span) (expectStorable value target span') := by
  unfold expectStorable
  split
  · exact shifts_report _ span span'
  · exact shifts_pure ()

/-- The type of an expression is noted last. -/
theorem shifts_noted (id : Nat) (type : Ty) :
    Shifts ν (do
      record id type
      return type) (do
      record (ν id) type
      return type) :=
  (shifts_modify fun _ _ h => h.record id type).bind fun _ => shifts_pure type

/-! ## Names -/

theorem shifts_lookup? (name : String) : Shifts ν (lookup? name) (lookup? name) :=
  shifts_read_bind (fun c => c.scopes.lookup? name) (fun _ _ h => by rw [h.scopes]) shifts_pure

theorem shifts_isComponent (name : String) : Shifts ν (isComponent name) (isComponent name) :=
  shifts_read_bind (fun c => c.components.contains name) (fun _ _ h => by rw [h.components])
    shifts_pure

theorem shifts_define (name : String) (type : Ty) :
    Shifts ν (define name type) (define name type) :=
  shifts_modify fun _ _ h => { h with scopes := congrArg (Scopes.define · name type) h.scopes }

theorem shifts_update (name : String) (type : Ty) :
    Shifts ν (update name type) (update name type) :=
  shifts_modify fun _ _ h =>
    { h with scopes := congrArg (fun s => (Scopes.update? s name type).getD s) h.scopes }

theorem shifts_variableType (name : String) (span span' : Span) :
    Shifts ν (variableType name span) (variableType name span') := by
  refine (shifts_lookup? name).bind fun found => ?_
  cases found with
  | none => exact shifts_settle _ span span'
  | some type => exact shifts_pure type

theorem shifts_declareComponent (name : String) :
    Shifts ν (declareComponent name) (declareComponent name) := by
  have hmore : Shifts ν
      (modify fun c : Checking => { c with components := c.components ++ [name] })
      (modify fun c => { c with components := c.components ++ [name] }) :=
    shifts_modify fun _ _ h => { h with components := congrArg (· ++ [name]) h.components }
  exact hmore.bind fun _ => shifts_define name _

/-! ## Returns -/

theorem shifts_judgeReturn (declared : Option Ty) (type : Ty) (span span' : Span) :
    Shifts ν (judgeReturn declared type span) (judgeReturn declared type span') := by
  unfold judgeReturn
  split
  · exact shifts_pure ()
  · exact shifts_ite (shifts_pure ()) (shifts_report _ span span')

theorem shifts_noteReturn (type : Ty) (span span' : Span) :
    Shifts ν (noteReturn type span) (noteReturn type span') := by
  intro old old' c d h
  cases hreturns : c.returns with
  | nil =>
      rw [noteReturn_of_nil hreturns, noteReturn_of_nil (h.returns.trans hreturns)]
      exact ⟨rfl, h⟩
  | cons frame outer =>
      rw [noteReturn_of_cons hreturns, noteReturn_of_cons (h.returns.trans hreturns)]
      exact shifts_judgeReturn frame.declared type span span' _ _ _ _ { h with returns := rfl }

theorem shifts_collectReturns (declared : Option Ty) {body body' : Check Unit}
    (h : Shifts ν body body') :
    Shifts ν (collectReturns declared body) (collectReturns declared body') := by
  have henter : Shifts ν
      (modify fun c : Checking => { c with returns := ⟨declared, []⟩ :: c.returns })
      (modify fun c => { c with returns := ⟨declared, []⟩ :: c.returns }) :=
    shifts_modify fun _ _ h => { h with returns := congrArg (List.cons ⟨declared, []⟩) h.returns }
  refine henter.bind fun _ => h.bind fun _ => fun _ _ c d hcd => ⟨?_, ?_⟩
  · exact congrArg (fun returns => (List.head? returns |>.map ReturnFrame.seen).getD []) hcd.returns
  · exact { hcd with returns := congrArg (List.drop 1) hcd.returns }

/-! ## Type expressions -/

open Remap (typeExpr typeExprs)

theorem shifts_namedType (name : String) (span span' : Span) :
    Shifts ν (namedType name span) (namedType name span') := by
  unfold namedType
  split
  · exact shifts_pure _
  · exact (shifts_isComponent name).bind fun known =>
      shifts_ite (shifts_pure _) (shifts_settle _ span span')

mutual

theorem shifts_resolve : ∀ a : TypeExpr, Shifts ν (resolve a) (resolve (typeExpr μ a))
  | .named span name => shifts_namedType name span (μ span)
  | .array _ element => (shifts_resolve element).bind fun _ => shifts_pure _
  | .optional _ inner => (shifts_resolve inner).bind fun _ => shifts_pure _
  | .union _ members => (shifts_resolveAll members).bind fun _ => shifts_pure _

theorem shifts_resolveAll : ∀ as : List TypeExpr,
    Shifts ν (resolveAll as) (resolveAll (typeExprs μ as))
  | [] => shifts_pure _
  | a :: rest =>
    (shifts_resolve a).bind fun _ => (shifts_resolveAll rest).bind fun _ => shifts_pure _

end

theorem shifts_resolve? (a : Option TypeExpr) :
    Shifts ν (resolve? a) (resolve? (a.map (typeExpr μ))) := by
  cases a with
  | none => exact shifts_pure _
  | some a => exact (shifts_resolve a).bind fun _ => shifts_pure _

/-! ## Expressions -/

theorem shifts_externalType (name : String) : Shifts ν (externalType name) (externalType name) :=
  shifts_read_bind (fun c => (TypedName.lookup? name c.external).getD .any)
    (fun _ _ h => by rw [h.external]) shifts_pure

theorem shifts_noteTag (name : String) (looksLikeComponent : Bool) (span span' : Span) :
    Shifts ν (noteTag name looksLikeComponent span) (noteTag name looksLikeComponent span') := by
  unfold noteTag
  exact (shifts_isComponent name).bind fun known => (shifts_lookup? name).bind fun found =>
    shifts_ite (shifts_report _ span span') (shifts_pure ())

theorem isComponent_tag (ν : Nat → Nat) (μ : Span → Span) (t : Tag) :
    (Remap.tag ν μ t).isComponent = t.isComponent := by
  unfold Tag.isComponent
  rw [Remap.name_tag]

theorem shifts_tagType (t : Tag) : Shifts ν (tagType t) (tagType (Remap.tag ν μ t)) := by
  unfold tagType
  rw [isComponent_tag, Remap.name_tag]
  exact (shifts_isComponent t.name).bind fun known => shifts_ite (shifts_pure _) (shifts_pure _)

end Check

namespace Ty

variable {μ : Span → Span}

theorem argumentFaults_map (position : Nat) (params : List Ty) (arguments : List (Ty × Span)) :
    argumentFaults position params (arguments.map (Prod.map id μ)) =
      (argumentFaults position params arguments).map (Prod.map id μ) := by
  fun_induction argumentFaults position params arguments with
  | case1 position param params argument span arguments later hfits ih =>
      rw [List.map_cons, Prod.map_apply, argumentFaults, ih]
      exact if_pos hfits
  | case2 position param params argument span arguments later hfits ih =>
      rw [List.map_cons, Prod.map_apply, argumentFaults, ih]
      exact if_neg hfits
  | case3 params position arguments h =>
      cases params with
      | nil => rfl
      | cons param params =>
          cases arguments with
          | nil => rfl
          | cons argument arguments => exact (h param params _ _ arguments rfl rfl).elim

/-- The places of the arguments are those of what is wrong with them, and have no other part. -/
theorem ofCall_map (μ : Span → Span) (callee : Ty) (arguments : List (Ty × Span)) (span : Span) :
    ofCall callee (arguments.map (Prod.map id μ)) (μ span) =
      Prod.map id (List.map (Prod.map id μ)) (ofCall callee arguments span) := by
  unfold ofCall
  split
  · rw [List.length_map, argumentFaults_map]
    split <;> rfl
  all_goals rfl

end Ty

namespace Check

variable {ν : Nat → Nat} {μ : Span → Span}

theorem zip_span_exprs (types : List Ty) (arguments : List Expr) :
    types.zip ((Remap.exprs ν μ arguments).map Expr.span) =
      (types.zip (arguments.map Expr.span)).map (Prod.map id μ) := by
  have hspan : Expr.span ∘ Remap.expr ν μ = μ ∘ Expr.span := funext (Remap.span_expr ν μ)
  rw [Remap.exprs_eq_map, List.map_map, hspan, ← List.map_map, List.zip_map_right]

mutual

theorem shifts_expr : ∀ e : Expr, Shifts ν (expr e) (expr (Remap.expr ν μ e))
  | .literal n value => by
    simp only [Remap.expr, Check.expr]
    exact (shifts_pure _).bind fun _ => shifts_noted n.id _
  | .identifier n name => by
    simp only [Remap.expr, Check.expr]
    exact (shifts_variableType name _ _).bind fun _ => shifts_noted n.id _
  | .valueBinding n name => by
    simp only [Remap.expr, Check.expr]
    exact (shifts_externalType name).bind fun _ => shifts_noted n.id _
  | .binary n left op right => by
    simp only [Remap.expr, Check.expr]
    exact (shifts_expr left).bind fun _ => (shifts_expr right).bind fun _ =>
      (shifts_settle _ _ _).bind fun _ => shifts_noted n.id _
  | .unary n op operand => by
    simp only [Remap.expr, Check.expr]
    exact (shifts_expr operand).bind fun _ => (shifts_settle _ _ _).bind fun _ =>
      shifts_noted n.id _
  | .await n operand => by
    simp only [Remap.expr, Check.expr]
    exact (shifts_expr operand).bind fun _ => shifts_noted n.id _
  | .call n callee arguments => by
    simp only [Remap.expr, Check.expr]
    refine (shifts_expr callee).bind fun t => (shifts_exprs arguments).bind fun types => ?_
    have hcall := Ty.ofCall_map μ t (types.zip (arguments.map Expr.span)) n.span
    rw [zip_span_exprs, Remap.node, hcall]
    exact (shifts_reportAll _).bind fun _ => (shifts_pure _).bind fun _ => shifts_noted n.id _
  | .member n object property => by
    simp only [Remap.expr, Check.expr]
    exact (shifts_expr object).bind fun _ => (shifts_settle _ _ _).bind fun _ =>
      shifts_noted n.id _
  | .index n object key => by
    simp only [Remap.expr, Check.expr]
    exact (shifts_expr object).bind fun _ => (shifts_expr key).bind fun _ =>
      (shifts_settle _ _ _).bind fun _ => shifts_noted n.id _
  | .array n items => by
    simp only [Remap.expr, Check.expr]
    exact (shifts_exprs items).bind fun _ => (shifts_pure _).bind fun _ => shifts_noted n.id _
  | .object n properties => by
    simp only [Remap.expr, Check.expr]
    exact (shifts_propertyList [] properties).bind fun _ => (shifts_pure _).bind fun _ =>
      shifts_noted n.id _
  | .conditional n test consequent alternate => by
    simp only [Remap.expr, Check.expr]
    exact (shifts_expr test).bind fun _ => (shifts_expr consequent).bind fun _ =>
      (shifts_expr alternate).bind fun _ => (shifts_pure _).bind fun _ => shifts_noted n.id _
  | .tag n t => by
    simp only [Remap.expr, Check.expr]
    exact (shifts_tag t).bind fun _ => (shifts_tagType t).bind fun _ => shifts_noted n.id _

theorem shifts_exprs : ∀ es : List Expr, Shifts ν (exprs es) (exprs (Remap.exprs ν μ es))
  | [] => shifts_pure _
  | e :: rest => by
    simp only [Remap.exprs, Check.exprs]
    exact (shifts_expr e).bind fun _ => (shifts_exprs rest).bind fun _ => shifts_pure _

theorem shifts_propertyList (fields : List TypedName) : ∀ ps : List Property,
    Shifts ν (propertyList fields ps) (propertyList fields (Remap.propertyList ν μ ps))
  | [] => shifts_pure _
  | .named key value :: rest => by
    simp only [Remap.propertyList, Remap.property, Check.propertyList]
    exact (shifts_expr value).bind fun _ => shifts_propertyList _ rest
  | .computed key value :: rest => by
    simp only [Remap.propertyList, Remap.property, Check.propertyList]
    exact (shifts_expr value).bind fun _ => (shifts_expr key).bind fun _ =>
      shifts_propertyList fields rest

theorem shifts_tag : ∀ t : Tag, Shifts ν (tag t) (tag (Remap.tag ν μ t))
  | ⟨name, attributes, styles, children, selfClosing, span⟩ => by
    simp only [Remap.tag, Check.tag]
    exact (shifts_noteTag _ _ _ _).bind fun _ => (shifts_attributeList attributes).bind fun _ =>
      shifts_markups children

theorem shifts_attributeList : ∀ as : List Attribute,
    Shifts ν (attributeList as) (attributeList (Remap.attributeList ν μ as))
  | [] => shifts_pure _
  | ⟨name, some value, event, span⟩ :: rest => by
    simp only [Remap.attributeList, Remap.tagAttribute, Remap.expr?, Check.attributeList]
    exact (shifts_expr value).bind fun _ => shifts_attributeList rest
  | ⟨name, none, event, span⟩ :: rest => by
    simp only [Remap.attributeList, Remap.tagAttribute, Remap.expr?, Check.attributeList]
    exact shifts_attributeList rest

theorem shifts_markup : ∀ m : Markup, Shifts ν (markup m) (markup (Remap.markup ν μ m))
  | .tag t => by
    simp only [Remap.markup, Check.markup]
    exact shifts_tag t
  | .text content span => by
    simp only [Remap.markup, Check.markup]
    exact shifts_pure _
  | .expr e => by
    simp only [Remap.markup, Check.markup]
    exact (shifts_expr e).bind fun _ => shifts_pure _

theorem shifts_markups : ∀ ms : List Markup,
    Shifts ν (markups ms) (markups (Remap.markups ν μ ms))
  | [] => shifts_pure _
  | m :: rest => by
    simp only [Remap.markups, Check.markups]
    exact (shifts_markup m).bind fun _ => shifts_markups rest

end

theorem shifts_expr? (e : Option Expr) : Shifts ν (expr? e) (expr? (Remap.expr? ν μ e)) := by
  cases e with
  | none => exact shifts_pure _
  | some e => exact (shifts_expr e).bind fun _ => shifts_pure _

end Check

end ComponentLang
