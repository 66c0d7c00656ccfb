import ComponentLang.Proofs.Typing.Effects
import ComponentLang.Proofs.Typing.Local.Statement
import ComponentLang.Proofs.Typing.Scoped

/-!
# What is reported about names

A name may mean nothing: a variable that is nowhere defined, or a component that is none. Whether it
does is a matter of the names in sight and not of their types. `Quiet p` says that `p` leaves the names
as they are and reports none of them. `Echoes p p'` says that two checks bring the same names into
sight and report the same names, whatever the types are that they work with.
-/
namespace ComponentLang

/-! ## Reports about names -/

/-- The words that a report about a name begins with. -/
def Diagnostic.namingWords : List String := ["Undefined variable: ", "Unknown component <"]

/-- A diagnostic that says of a name that it means nothing. -/
def Diagnostic.Naming (d : Diagnostic) : Prop :=
  ∃ words ∈ namingWords, words.toList <+: d.message.toList

namespace TypeFault

def isNaming : TypeFault → Bool
  | .undefinedVariable _ | .unknownComponent _ => true
  | _ => false

/-- The words that a message begins with. -/
def opening : TypeFault → String
  | .undefinedVariable _ => "Undefined variable: "
  | .unknownType _ => "Unknown type: "
  | .unknownComponent _ => "Unknown component <"
  | .notAssignable .. => "Cannot assign "
  | .notReturnable .. => "Cannot return "
  | .notNumeric .. => "Unary "
  | .notComparable .. => "Cannot compare incompatible types: "
  | .notOperable .. => "Incompatible types for operator "
  | .notCallable _ => "Cannot call non-function value of type "
  | .argumentCount .. => "Function expects "
  | .argumentType .. => "Argument "
  | .noField .. => "Property '"
  | .noArrayProperty _ => "Unknown array property: "
  | .noStringProperty _ => "Unknown string property: "
  | .notAnObject .. => "Cannot access property '"
  | .notIndexable _ => "Cannot index value of type "
  | .indexNotNumeric _ => "Index must be numeric, got "

theorem opening_prefix_message (fault : TypeFault) :
    fault.opening.toList <+: fault.message.toList := by
  have hmessage : ∃ rest, fault.message = fault.opening ++ rest := by
    delta message opening
    cases fault <;> simp only [String.append_assoc] <;> exact ⟨_, rfl⟩
  obtain ⟨rest, hrest⟩ := hmessage
  rw [hrest, String.toList_append]
  exact List.prefix_append _ _

theorem opening_apart {fault : TypeFault} (h : fault.isNaming = false) :
    ∀ words ∈ Diagnostic.namingWords,
      ¬ (words.toList <+: fault.opening.toList ∨ fault.opening.toList <+: words.toList) := by
  cases fault with
  | undefinedVariable | unknownComponent => cases h
  | _ =>
      dsimp only [opening]
      decide +kernel

/-- What is reported tells by its words whether it is about a name. -/
theorem naming_ofSpan {fault : TypeFault} {stage : Stage} {span : Span} :
    (Diagnostic.ofSpan stage fault.message span).Naming ↔ fault.isNaming = true := by
  constructor
  · rintro ⟨words, hmem, hwords⟩
    by_contra hother
    exact opening_apart (Bool.eq_false_iff.2 hother) words hmem
      (List.prefix_or_prefix_of_prefix hwords fault.opening_prefix_message)
  · intro h
    cases fault with
    | undefinedVariable name =>
        exact ⟨_, List.mem_cons_self, opening_prefix_message (.undefinedVariable name)⟩
    | unknownComponent name =>
        exact ⟨_, List.mem_cons_of_mem _ List.mem_cons_self,
          opening_prefix_message (.unknownComponent name)⟩
    | _ => cases h

end TypeFault

/-! ## Names in sight -/

namespace TypedName

variable {x : String} {names names' : List TypedName}

theorem map_name_put_congr (h : names'.map TypedName.name = names.map TypedName.name) (x : String)
    (type type' : Ty) :
    (put x type' names').map TypedName.name = (put x type names).map TypedName.name := by
  rw [map_name_put, map_name_put, h]

theorem map_name_put_of_isSome (h : (lookup? x names).isSome) (type : Ty) :
    (put x type names).map TypedName.name = names.map TypedName.name := by
  rw [map_name_put, if_pos (isSome_lookup?.1 h), List.append_nil]

end TypedName

namespace Scopes

open TypedName

variable {s t : Scopes} {x : String}

/-- The names of each scope, the innermost first. -/
def names (s : Scopes) : List (List String) := (s.inner :: s.outer).map (List.map TypedName.name)

theorem names_push (h : t.names = s.names) : t.push.names = s.push.names :=
  congrArg ([] :: ·) h

theorem names_pop (h : t.names = s.names) : t.pop.names = s.pop.names := by
  obtain ⟨inner, outer⟩ := s
  obtain ⟨inner', outer'⟩ := t
  obtain ⟨hinner, houter⟩ := List.cons.inj h
  cases outer with
  | nil =>
      cases outer' with
      | nil => exact h
      | cons first' rest' => cases houter
  | cons first rest =>
      cases outer' with
      | nil => cases houter
      | cons first' rest' => exact houter

theorem names_define (h : t.names = s.names) (x : String) (type type' : Ty) :
    (t.define x type').names = (s.define x type).names := by
  obtain ⟨hinner, houter⟩ := List.cons.inj h
  exact congrArg₂ List.cons (map_name_put_congr hinner x type type') houter

theorem names_updateFirst? {scopes later : List (List TypedName)} {type : Ty}
    (h : updateFirst? x type scopes = some later) :
    later.map (List.map TypedName.name) = scopes.map (List.map TypedName.name) := by
  induction scopes generalizing later with
  | nil => cases h
  | cons first rest ih =>
      unfold updateFirst? at h
      split at h
      next hfirst =>
        cases h
        rw [List.map_cons, map_name_put_of_isSome hfirst, List.map_cons]
      next =>
        obtain ⟨changed, hchanged, rfl⟩ := Option.map_eq_some_iff.1 h
        rw [List.map_cons, ih hchanged, List.map_cons]

/-- A variable that is given another type is where it was. -/
theorem names_update (s : Scopes) (x : String) (type : Ty) :
    ((s.update? x type).getD s).names = s.names := by
  unfold update?
  split
  next hdefined =>
    exact congrArg (List.cons · _) (map_name_put_of_isSome hdefined type)
  next =>
    cases hupdated : updateFirst? x type s.outer with
    | none => rfl
    | some outer => exact congrArg (List.cons _) (names_updateFirst? hupdated)

theorem isSome_lookup?_iff_names : (s.lookup? x).isSome ↔ ∃ scope ∈ s.names, x ∈ scope := by
  rw [isSome_lookup?, names, List.map_cons, List.exists_mem_cons_iff]

theorem isSome_lookup?_congr (h : t.names = s.names) :
    (t.lookup? x).isSome = (s.lookup? x).isSome := by
  rw [Bool.eq_iff_iff, isSome_lookup?_iff_names, isSome_lookup?_iff_names, h]

theorem definesHere_congr (h : t.names = s.names) : t.definesHere x = s.definesHere x := by
  obtain ⟨hinner, -⟩ := List.cons.inj h
  rw [Bool.eq_iff_iff, definesHere, definesHere, TypedName.isSome_lookup?, TypedName.isSome_lookup?,
    hinner]

end Scopes

/-! ## States with the same names -/

namespace Checking

/-- The same names are in sight in both states, and the same names were reported. -/
structure SameNames (c d : Checking) : Prop where
  scopes : d.scopes.names = c.scopes.names
  components : d.components = c.components
  reported : ∀ x : Diagnostic, x.Naming → (x ∈ d.diagnostics ↔ x ∈ c.diagnostics)

variable {c d e : Checking}

theorem SameNames.refl (c : Checking) : SameNames c c := ⟨rfl, rfl, fun _ _ => Iff.rfl⟩

theorem SameNames.symm (h : SameNames c d) : SameNames d c :=
  ⟨h.scopes.symm, h.components.symm, fun x hx => (h.reported x hx).symm⟩

theorem SameNames.trans (hcd : SameNames c d) (hde : SameNames d e) : SameNames c e where
  scopes := hde.scopes.trans hcd.scopes
  components := hde.components.trans hcd.components
  reported x hx := (hde.reported x hx).trans (hcd.reported x hx)

theorem SameNames.addDiagnostic (h : SameNames c d) (x : Diagnostic) :
    SameNames (c.addDiagnostic x) (d.addDiagnostic x) where
  scopes := by
    rw [addDiagnostic_eq c, addDiagnostic_eq d]
    exact h.scopes
  components := by
    rw [addDiagnostic_eq c, addDiagnostic_eq d]
    exact h.components
  reported y hy := by rw [mem_addDiagnostic, mem_addDiagnostic, h.reported y hy]

theorem sameNames_addDiagnostic {x : Diagnostic} (hx : ¬ x.Naming) (c : Checking) :
    SameNames c (c.addDiagnostic x) where
  scopes := by rw [addDiagnostic_eq]
  components := by rw [addDiagnostic_eq]
  reported y hy := by
    rw [mem_addDiagnostic, or_iff_left]
    rintro rfl
    exact hx hy

end Checking

open Checking

namespace Check

variable {α β : Type} {p p' : Check α} {f f' : α → Check β}

/-! ## Checks that are not about names -/

/-- The names stay as they are, and none is reported. -/
def Quiet (p : Check α) : Prop := ∀ c, SameNames c (p.run c).2

theorem quiet_pure (a : α) : Quiet (pure a) := .refl

theorem Quiet.bind (hp : Quiet p) (hf : ∀ a, Quiet (f a)) : Quiet (p >>= f) :=
  fun c => (hp c).trans (hf _ _)

theorem quiet_get_bind {f : Checking → Check α} (h : ∀ c, Quiet (f c)) : Quiet (get >>= f) :=
  fun c => h c c

/-- A change that leaves the names, the components and the reports. -/
theorem quiet_modify {change : Checking → Checking}
    (h : ∀ c, (change c).scopes.names = c.scopes.names ∧ (change c).components = c.components ∧
      (change c).diagnostics = c.diagnostics) : Quiet (modify change) := fun c =>
  ⟨(h c).1, (h c).2.1, fun x _ => iff_of_eq (congrArg (x ∈ ·) (h c).2.2)⟩

theorem quiet_report {fault : TypeFault} (h : fault.isNaming = false) (span : Span) :
    Quiet (report fault span) :=
  sameNames_addDiagnostic fun hnaming =>
    Bool.eq_false_iff.1 h (TypeFault.naming_ofSpan.1 hnaming)

theorem quiet_record (id : Nat) (type : Ty) : Quiet (record id type) :=
  quiet_modify fun _ => ⟨rfl, rfl, rfl⟩

theorem quiet_update (name : String) (type : Ty) : Quiet (update name type) :=
  quiet_modify fun c => ⟨Scopes.names_update c.scopes name type, rfl, rfl⟩

theorem quiet_isComponent (name : String) : Quiet (isComponent name) :=
  quiet_get_bind fun _ => quiet_pure _

theorem quiet_judgeReturn (declared : Option Ty) (type : Ty) (span : Span) :
    Quiet (judgeReturn declared type span) := by
  unfold judgeReturn
  split
  · exact quiet_pure ()
  · split
    · exact quiet_pure ()
    · exact quiet_report rfl span

theorem quiet_noteReturn (type : Ty) (span : Span) : Quiet (noteReturn type span) := by
  intro c
  cases h : c.returns with
  | nil =>
      rw [noteReturn_of_nil h]
      exact .refl c
  | cons frame outer =>
      rw [noteReturn_of_cons h]
      have hnoted : SameNames c { c with
          returns := { frame with seen := frame.seen ++ [type] } :: outer } :=
        ⟨rfl, rfl, fun _ _ => Iff.rfl⟩
      exact hnoted.trans (quiet_judgeReturn frame.declared type span _)

/-! ### Type expressions

A name in a type expression that means no type is reported as a type. -/

theorem quiet_namedType (name : String) (span : Span) : Quiet (namedType name span) := by
  unfold namedType
  split
  · exact quiet_pure _
  · refine (quiet_isComponent name).bind fun known => ?_
    split
    · exact quiet_pure _
    · exact (quiet_report rfl span).bind fun _ => quiet_pure _

mutual

theorem quiet_resolve : ∀ a : TypeExpr, Quiet (resolve a)
  | .named span name => quiet_namedType name span
  | .array _ element => (quiet_resolve element).bind fun _ => quiet_pure _
  | .optional _ inner => (quiet_resolve inner).bind fun _ => quiet_pure _
  | .union _ members => (quiet_resolveAll members).bind fun _ => quiet_pure _

theorem quiet_resolveAll : ∀ as : List TypeExpr, Quiet (resolveAll as)
  | [] => quiet_pure _
  | a :: rest =>
    (quiet_resolve a).bind fun _ => (quiet_resolveAll rest).bind fun _ => quiet_pure _

end

theorem quiet_resolve? (a : Option TypeExpr) : Quiet (resolve? a) := by
  cases a with
  | none => exact quiet_pure _
  | some a => exact (quiet_resolve a).bind fun _ => quiet_pure _

/-! ## Checks of the same names -/

/-- Run where the same names are in sight, both checks leave the same names in sight, and the same
names reported. -/
def Echoes (p p' : Check α) : Prop :=
  ∀ c c', SameNames c c' → SameNames (p.run c).2 (p'.run c').2

theorem Quiet.echoes (h : Quiet p) (h' : Quiet p') : Echoes p p' := fun c c' hc =>
  ((h c).symm.trans hc).trans (h' c')

theorem Quiet.echoes_self (h : Quiet p) : Echoes p p := h.echoes h

theorem echoes_pure (a a' : α) : Echoes (pure a) (pure a') := fun _ _ hc => hc

/-- What follows has to do with such results only as the two checks can give. -/
theorem Echoes.bind_run (hp : Echoes p p')
    (hf : ∀ c c', Echoes (f (p.run c).1) (f' (p'.run c').1)) : Echoes (p >>= f) (p' >>= f') :=
  fun c c' hc => hf c c' _ _ (hp c c' hc)

theorem Echoes.bind (hp : Echoes p p') (hf : ∀ a a', Echoes (f a) (f' a')) :
    Echoes (p >>= f) (p' >>= f') :=
  hp.bind_run fun _ _ => hf _ _

theorem echoes_get_bind {f f' : Checking → Check α}
    (h : ∀ c c', SameNames c c' → Echoes (f c) (f' c')) : Echoes (get >>= f) (get >>= f') :=
  fun c c' hc => h c c' hc c c' hc

theorem Echoes.map {g : α → β} (hp : Echoes p p') : Echoes (g <$> p) (g <$> p') := hp

theorem echoes_modify {change change' : Checking → Checking}
    (h : ∀ c c', SameNames c c' → SameNames (change c) (change' c')) :
    Echoes (modify change) (modify change') := h

theorem echoes_inScope (h : Echoes p p') : Echoes (inScope p) (inScope p') := by
  unfold inScope
  refine (echoes_modify fun _ _ hc => ?_).bind fun _ _ => h.bind fun result result' => ?_
  · exact { hc with scopes := Scopes.names_push hc.scopes }
  · refine (echoes_modify fun _ _ hc => ?_).bind fun _ _ => echoes_pure result result'
    exact { hc with scopes := Scopes.names_pop hc.scopes }

theorem echoes_each {γ : Type} {check : γ → Check Unit} (change : γ → γ)
    (h : ∀ a, Echoes (check a) (check (change a))) (items : List γ) :
    Echoes (each check items) (each check (items.map change)) := by
  induction items with
  | nil => exact echoes_pure () ()
  | cons a rest ih => exact (h a).bind fun _ _ => ih

/-! ### Names -/

theorem echoes_define (name : String) (type type' : Ty) :
    Echoes (define name type) (define name type') :=
  fun _ _ hc => { hc with scopes := Scopes.names_define hc.scopes name type type' }

theorem echoes_declareComponent (name : String) :
    Echoes (declareComponent name) (declareComponent name) := by
  unfold declareComponent
  refine (echoes_modify fun _ _ hc => ?_).bind fun _ _ => echoes_define name _ _
  exact { hc with components := congrArg (· ++ [name]) hc.components }

/-- The variable is in sight in both runs or in neither. -/
theorem echoes_variableType (name : String) (span : Span) :
    Echoes (variableType name span) (variableType name span) := by
  intro c c' hc
  have hsight := Scopes.isSome_lookup?_congr (x := name) hc.scopes
  cases hlookup : c.scopes.lookup? name with
  | none =>
      rw [hlookup, Option.isSome_none, Option.isSome_eq_false_iff, Option.isNone_iff_eq_none]
        at hsight
      rw [variableType_of_none hlookup, variableType_of_none hsight]
      exact hc.addDiagnostic _
  | some type =>
      rw [hlookup, Option.isSome_some, Option.isSome_iff_exists] at hsight
      obtain ⟨type', hlookup'⟩ := hsight
      rw [variableType_of_some hlookup, variableType_of_some hlookup']
      exact hc

theorem echoes_collectReturns {declared declared' : Option Ty} {body body' : Check Unit}
    (h : Echoes body body') :
    Echoes (collectReturns declared body) (collectReturns declared' body') := by
  unfold collectReturns
  refine (echoes_modify fun _ _ hc => ?_).bind fun _ _ => h.bind fun _ _ => ?_
  · exact { hc with }
  · intro _ _ hc
    exact { hc with }

end Check

end ComponentLang

/-! ## What is reported about the names in expressions

An operation is judged by the types of its operands, and what is wrong with it is never a name. What
types the operands have does not matter for which of them are checked: checked in two states with
the same names, an expression reports the same names. -/

namespace ComponentLang

/-! ### Operations -/

/-- Nothing is wrong with an operation, or it is no matter of names. -/
def Verdict.AboutTypes (verdict : Verdict) : Prop :=
  ∀ fault, verdict.fault = some fault → fault.isNaming = false

namespace Ty

theorem aboutTypes_ok (type : Ty) : (Verdict.ok type).AboutTypes := nofun

theorem aboutTypes_mk {fault : TypeFault} (h : fault.isNaming = false) (type : Ty) :
    Verdict.AboutTypes ⟨type, some fault⟩ := fun _ heq => Option.some.inj heq ▸ h

theorem aboutTypes_fail {fault : TypeFault} (h : fault.isNaming = false) :
    (Verdict.fail fault).AboutTypes := aboutTypes_mk h .unknown

theorem aboutTypes_ofUnary (op : UnaryOp) (operand : Ty) : (ofUnary op operand).AboutTypes := by
  unfold ofUnary
  split
  · exact aboutTypes_ok _
  all_goals
    split
    · exact aboutTypes_ok _
    · exact aboutTypes_fail rfl

theorem aboutTypes_ofBinary (op : BinaryOp) (left right : Ty) :
    (ofBinary op left right).AboutTypes := by
  unfold ofBinary ofComparison ofArithmetic
  split_ifs <;> first | exact aboutTypes_ok _ | exact aboutTypes_mk rfl _

theorem aboutTypes_ofMember (property : String) (object : Ty) :
    (ofMember property object).AboutTypes := by
  fun_induction ofMember property object with
  | case1 | case2 | case3 | case5 | case7 | case9 => exact aboutTypes_ok _
  | case4 inner ih => exact ih
  | case6 | case8 | case10 | case11 => exact aboutTypes_fail rfl

theorem aboutTypes_ofIndex (object index : Ty) : (ofIndex object index).AboutTypes := by
  unfold ofIndex
  split
  case h_1 | h_2 | h_3 => exact aboutTypes_ok _
  case h_4 | h_5 =>
    split
    · exact aboutTypes_ok _
    · exact aboutTypes_fail rfl
  case h_6 => exact aboutTypes_fail rfl

theorem isNaming_argumentFaults (position : Nat) (params : List Ty) (arguments : List (Ty × Span)) :
    ∀ found ∈ argumentFaults position params arguments, found.1.isNaming = false := by
  fun_induction argumentFaults position params arguments with
  | case1 position param params argument span arguments later hfits ih => exact ih
  | case2 position param params argument span arguments later hfits ih =>
      exact List.forall_mem_cons.2 ⟨rfl, ih⟩
  | case3 => exact List.forall_mem_nil _

theorem isNaming_ofCall (callee : Ty) (arguments : List (Ty × Span)) (span : Span) :
    ∀ found ∈ (ofCall callee arguments span).2, found.1.isNaming = false := by
  unfold ofCall
  split
  · refine List.forall_mem_append.2 ⟨?_, isNaming_argumentFaults _ _ _⟩
    split
    · exact List.forall_mem_nil _
    · exact List.forall_mem_singleton.2 rfl
  · exact List.forall_mem_nil _
  · exact List.forall_mem_nil _
  · exact List.forall_mem_singleton.2 rfl

theorem isNaming_storeFault? {value target : Ty} {fault : TypeFault}
    (h : storeFault? value target = some fault) : fault.isNaming = false := by
  unfold storeFault? at h
  split at h
  · cases h
  · cases h
    rfl

end Ty

namespace Check

theorem quiet_settle {verdict : Verdict} (h : verdict.AboutTypes) (span : Span) :
    Quiet (settle verdict span) := by
  unfold settle
  cases hfault : verdict.fault with
  | none => exact quiet_pure _
  | some fault => exact (quiet_report (h fault hfault) span).bind fun _ => quiet_pure _

theorem quiet_reportAll {found : List (TypeFault × Span)} (h : ∀ f ∈ found, f.1.isNaming = false) :
    Quiet (reportAll found) := by
  induction found with
  | nil => exact quiet_pure ()
  | cons first rest ih =>
      obtain ⟨hfirst, hrest⟩ := List.forall_mem_cons.1 h
      exact (quiet_report hfirst first.2).bind fun _ => ih hrest

theorem quiet_expectStorable (value target : Ty) (span : Span) :
    Quiet (expectStorable value target span) := by
  unfold expectStorable
  split
  next fault hfault => exact quiet_report (Ty.isNaming_storeFault? hfault) span
  next => exact quiet_pure ()

/-- The type of an expression is noted last. -/
theorem quiet_noted (id : Nat) (type : Ty) :
    Quiet (do
      record id type
      return type) :=
  (quiet_record id type).bind fun _ => quiet_pure type

/-! ### Expressions -/

theorem quiet_externalType (name : String) : Quiet (externalType name) :=
  quiet_get_bind fun _ => quiet_pure _

theorem quiet_tagType (t : Tag) : Quiet (tagType t) := by
  unfold tagType
  refine (quiet_isComponent t.name).bind fun known => ?_
  split <;> exact quiet_pure _

theorem echoes_noteTag (name : String) (looksLikeComponent : Bool) (span : Span) :
    Echoes (noteTag name looksLikeComponent span) (noteTag name looksLikeComponent span) := by
  intro c c' hc
  rw [noteTag_run, noteTag_run, hc.components, Scopes.isSome_lookup?_congr hc.scopes]
  split
  · exact hc.addDiagnostic _
  · exact hc

theorem echoes_noted (id : Nat) (type type' : Ty) :
    Echoes (do
      record id type
      return type) (do
      record id type'
      return type') :=
  (quiet_noted id type).echoes (quiet_noted id type')

/-- The verdicts on an operation may differ between the runs, as what its operands are differs. -/
theorem echoes_settled {verdict verdict' : Verdict} (h : verdict.AboutTypes)
    (h' : verdict'.AboutTypes) (span : Span) (id : Nat) :
    Echoes (do
      let type ← settle verdict span
      record id type
      return type) (do
      let type ← settle verdict' span
      record id type
      return type) :=
  ((quiet_settle h span).bind (quiet_noted id)).echoes
    ((quiet_settle h' span).bind (quiet_noted id))

mutual

theorem echoes_expr : ∀ e : Expr, Echoes (expr e) (expr e)
  | .literal node value => by
    rw [Check.expr]
    exact (quiet_noted _ _).echoes_self
  | .identifier node name => by
    rw [Check.expr]
    exact (echoes_variableType name _).bind fun _ _ => echoes_noted _ _ _
  | .valueBinding node name => by
    rw [Check.expr]
    exact ((quiet_externalType name).bind fun _ => quiet_noted _ _).echoes_self
  | .binary node left op right => by
    rw [Check.expr]
    exact (echoes_expr left).bind fun l l' => (echoes_expr right).bind fun r r' =>
      echoes_settled (Ty.aboutTypes_ofBinary op l r) (Ty.aboutTypes_ofBinary op l' r') _ _
  | .unary node op operand => by
    rw [Check.expr]
    exact (echoes_expr operand).bind fun t t' =>
      echoes_settled (Ty.aboutTypes_ofUnary op t) (Ty.aboutTypes_ofUnary op t') _ _
  | .await node operand => by
    rw [Check.expr]
    exact (echoes_expr operand).bind fun _ _ => echoes_noted _ _ _
  | .call node callee arguments => by
    rw [Check.expr]
    refine (echoes_expr callee).bind fun t t' => (echoes_exprs arguments).bind fun types types' => ?_
    have hfaults := fun callee types => Ty.isNaming_ofCall callee
      (List.zip types (arguments.map Expr.span)) node.span
    exact ((quiet_reportAll (hfaults t types)).bind fun _ => quiet_noted _ _).echoes
      ((quiet_reportAll (hfaults t' types')).bind fun _ => quiet_noted _ _)
  | .member node object property => by
    rw [Check.expr]
    exact (echoes_expr object).bind fun t t' =>
      echoes_settled (Ty.aboutTypes_ofMember property t) (Ty.aboutTypes_ofMember property t') _ _
  | .index node object index => by
    rw [Check.expr]
    exact (echoes_expr object).bind fun t t' => (echoes_expr index).bind fun i i' =>
      echoes_settled (Ty.aboutTypes_ofIndex t i) (Ty.aboutTypes_ofIndex t' i') _ _
  | .array node items => by
    rw [Check.expr]
    exact (echoes_exprs items).bind fun _ _ => echoes_noted _ _ _
  | .object node properties => by
    rw [Check.expr]
    exact (echoes_propertyList properties [] []).bind fun _ _ => echoes_noted _ _ _
  | .conditional node test consequent alternate => by
    rw [Check.expr]
    exact (echoes_expr test).bind fun _ _ => (echoes_expr consequent).bind fun _ _ =>
      (echoes_expr alternate).bind fun _ _ => echoes_noted _ _ _
  | .tag node t => by
    rw [Check.expr]
    exact (echoes_tag t).bind fun _ _ =>
      ((quiet_tagType t).bind fun _ => quiet_noted _ _).echoes_self

theorem echoes_exprs : ∀ es : List Expr, Echoes (exprs es) (exprs es)
  | [] => echoes_pure _ _
  | e :: rest => by
    rw [Check.exprs]
    exact (echoes_expr e).bind fun _ _ => (echoes_exprs rest).bind fun _ _ => echoes_pure _ _

/-- The fields known already may differ in their types. -/
theorem echoes_propertyList : ∀ (ps : List Property) (fields fields' : List TypedName),
    Echoes (propertyList fields ps) (propertyList fields' ps)
  | [], _, _ => echoes_pure _ _
  | .named key value :: rest, fields, fields' => by
    simp only [Check.propertyList]
    exact (echoes_expr value).bind fun _ _ => echoes_propertyList rest _ _
  | .computed key value :: rest, fields, fields' => by
    simp only [Check.propertyList]
    exact (echoes_expr value).bind fun _ _ => (echoes_expr key).bind fun _ _ =>
      echoes_propertyList rest fields fields'

theorem echoes_tag : ∀ t : Tag, Echoes (tag t) (tag t)
  | ⟨name, attributes, styles, children, selfClosing, span⟩ => by
    rw [Check.tag]
    exact (echoes_noteTag _ _ _).bind fun _ _ => (echoes_attributeList attributes).bind fun _ _ =>
      echoes_markups children

theorem echoes_attributeList : ∀ as : List Attribute, Echoes (attributeList as) (attributeList as)
  | [] => echoes_pure _ _
  | ⟨name, some value, event, span⟩ :: rest => by
    rw [Check.attributeList]
    exact (echoes_expr value).bind fun _ _ => echoes_attributeList rest
  | ⟨name, none, event, span⟩ :: rest => by
    rw [Check.attributeList]
    exact echoes_attributeList rest

theorem echoes_markup : ∀ m : Markup, Echoes (markup m) (markup m)
  | .tag t => by
    rw [Check.markup]
    exact echoes_tag t
  | .text content span => by
    rw [Check.markup]
    exact echoes_pure _ _
  | .expr e => by
    rw [Check.markup]
    exact (echoes_expr e).bind fun _ _ => echoes_pure _ _

theorem echoes_markups : ∀ ms : List Markup, Echoes (markups ms) (markups ms)
  | [] => echoes_pure _ _
  | m :: rest => by
    rw [Check.markups]
    exact (echoes_markup m).bind fun _ _ => echoes_markups rest

end

theorem echoes_expr? (e : Option Expr) : Echoes (expr? e) (expr? e) := by
  cases e with
  | none => exact echoes_pure _ _
  | some e => exact (echoes_expr e).bind fun _ _ => echoes_pure _ _

end Check

end ComponentLang
