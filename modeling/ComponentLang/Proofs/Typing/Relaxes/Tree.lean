import ComponentLang.Proofs.Typing.Relaxes
import ComponentLang.Tree.Stmt
import ComponentLang.Typing.Check
import ComponentLang.Typing.Scope
import Mathlib.Data.List.Nodup
import Mathlib.Data.Option.Basic

/-!
# Programs and scopes in which less is said

A program says less than another if names for `any` stand in place of some of its annotations: the
types of variables and parameters and the results of functions. Everything else is the same. An
annotation that has `unknown` in it is not replaced, since a value of no known type is spared where
one of any type is not.
-/
namespace ComponentLang

namespace TypeExpr

mutual

/-- The name `unknown` is not in the type expression, and no union in it is without members. -/
def Plain : TypeExpr → Prop
  | .named _ name => name ≠ "unknown"
  | .array _ element => Plain element
  | .optional _ inner => Plain inner
  | .union _ members => members ≠ [] ∧ PlainAll members

def PlainAll : List TypeExpr → Prop
  | [] => True
  | a :: rest => Plain a ∧ PlainAll rest

end

/-- The annotation, or a name for `any` in its place. -/
inductive RelaxesTo : TypeExpr → TypeExpr → Prop
  | refl (a : TypeExpr) : RelaxesTo a a
  | any {a : TypeExpr} {span : Span} {name : String} (hplain : a.Plain)
      (hname : Check.namedType? name = some .any) : RelaxesTo a (.named span name)

end TypeExpr

/-- The same variable, and less is said of its type. -/
def VariableDecl.RelaxesTo (d d' : VariableDecl) : Prop :=
  ∃ typeExpr', d' = { d with typeExpr := typeExpr' } ∧
    Option.Rel TypeExpr.RelaxesTo d.typeExpr typeExpr'

/-- The same parameter, and less is said of its type. -/
def Param.RelaxesTo (p p' : Param) : Prop :=
  ∃ typeExpr', p' = { p with typeExpr := typeExpr' } ∧
    Option.Rel TypeExpr.RelaxesTo p.typeExpr typeExpr'

/-! ## Trees

Each definition says what may stand in place of a tree. -/
namespace Relaxes

mutual

def stmt : Stmt → Stmt → Prop
  | .block b => fun s' => ∃ b', s' = .block b' ∧ block b b'
  | .variableDecl span decl => fun s' =>
    ∃ decl', s' = .variableDecl span decl' ∧ decl.RelaxesTo decl'
  | .ifElse span test consequent alternate => fun s' =>
    ∃ consequent' alternate', s' = .ifElse span test consequent' alternate' ∧
      block consequent consequent' ∧ stmt? alternate alternate'
  | .whileLoop span test body => fun s' =>
    ∃ body', s' = .whileLoop span test body' ∧ block body body'
  | .forLoop span init test update body => fun s' =>
    ∃ init' update' body', s' = .forLoop span init' test update' body' ∧ stmt? init init' ∧
      stmt? update update' ∧ block body body'
  | .forIn span name iterable body => fun s' =>
    ∃ body', s' = .forIn span name iterable body' ∧ block body body'
  | .tryStmt span b handler cleanup => fun s' =>
    ∃ b' handler' cleanup', s' = .tryStmt span b' handler' cleanup' ∧ block b b' ∧
      handler? handler handler' ∧ block? cleanup cleanup'
  | .asyncBlock span b handler cleanup => fun s' =>
    ∃ b' handler' cleanup', s' = .asyncBlock span b' handler' cleanup' ∧ block b b' ∧
      handler? handler handler' ∧ block? cleanup cleanup'
  | .functionDecl span f => fun s' => ∃ f', s' = .functionDecl span f' ∧ function f f'
  | .exportDecl span item => fun s' => ∃ item', s' = .exportDecl span item' ∧ exportDecl item item'
  | .expression span e => fun s' => s' = .expression span e
  | .assignment span target op value => fun s' => s' = .assignment span target op value
  | .returnStmt span value => fun s' => s' = .returnStmt span value
  | .breakStmt span => fun s' => s' = .breakStmt span
  | .continueStmt span => fun s' => s' = .continueStmt span
  | .throwStmt span value => fun s' => s' = .throwStmt span value
  | .importDecl span item => fun s' => s' = .importDecl span item
  | .error span message => fun s' => s' = .error span message

def stmt? : Option Stmt → Option Stmt → Prop
  | none => fun s' => s' = none
  | some s => fun s' => ∃ inner', s' = some inner' ∧ stmt s inner'

def stmts : List Stmt → List Stmt → Prop
  | [] => fun ss' => ss' = []
  | s :: rest => fun ss' => ∃ s' rest', ss' = s' :: rest' ∧ stmt s s' ∧ stmts rest rest'

def block : Block → Block → Prop
  | ⟨statements, span⟩ => fun b' =>
    ∃ statements', b' = ⟨statements', span⟩ ∧ stmts statements statements'

def block? : Option Block → Option Block → Prop
  | none => fun b' => b' = none
  | some b => fun b' => ∃ inner', b' = some inner' ∧ block b inner'

def handler? : Option CatchClause → Option CatchClause → Prop
  | none => fun handler' => handler' = none
  | some ⟨param, body⟩ => fun handler' =>
    ∃ body', handler' = some ⟨param, body'⟩ ∧ block body body'

def function : Function → Function → Prop
  | ⟨name, params, returnType, ⟨statements, blockSpan⟩, isAsync, modifiers, span⟩ => fun f' =>
    ∃ params' returnType' statements',
      f' = ⟨name, params', returnType', ⟨statements', blockSpan⟩, isAsync, modifiers, span⟩ ∧
        List.Forall₂ Param.RelaxesTo params params' ∧
        Option.Rel TypeExpr.RelaxesTo returnType returnType' ∧ stmts statements statements'

def component : Component → Component → Prop
  | ⟨name, modifiers, statements, body, span⟩ => fun c' =>
    ∃ statements', c' = ⟨name, modifiers, statements', body, span⟩ ∧ stmts statements statements'

def exportDecl : Export → Export → Prop
  | ⟨isDefault, .function f, span⟩ => fun e' =>
    ∃ f', e' = ⟨isDefault, .function f', span⟩ ∧ function f f'
  | ⟨isDefault, .component c, span⟩ => fun e' =>
    ∃ c', e' = ⟨isDefault, .component c', span⟩ ∧ component c c'
  | ⟨isDefault, .statement s, span⟩ => fun e' =>
    ∃ s', e' = ⟨isDefault, .statement s', span⟩ ∧ stmt s s'

end

end Relaxes

/-- The same program, and less is said in its annotations. -/
structure Program.RelaxesTo (p p' : Program) : Prop where
  imports : p'.imports = p.imports
  exports : List.Forall₂ Relaxes.exportDecl p.exports p'.exports
  functions : List.Forall₂ Relaxes.function p.functions p'.functions
  components : List.Forall₂ Relaxes.component p.components p'.components
  statements : List.Forall₂ Relaxes.stmt p.statements p'.statements

end ComponentLang

/-! ## Scopes with less known

The same names are in sight, and less is known of their types. -/

namespace ComponentLang

/-- The same name, with less known of its type. -/
structure TypedName.RelaxesTo (n n' : TypedName) : Prop where
  name : n'.name = n.name
  type : n.type.RelaxesTo n'.type

theorem isSome_eq_of_rel {α β : Type} {r : α → β → Prop} {a : Option α} {b : Option β}
    (h : Option.Rel r a b) : b.isSome = a.isSome := by
  cases h with
  | some _ => rfl
  | none => rfl

namespace TypedName

variable {names names' : List TypedName} {t t' : Ty}

theorem relaxesTo_refl (names : List TypedName) : List.Forall₂ RelaxesTo names names :=
  List.forall₂_same.2 fun _ _ => ⟨rfl, .refl _⟩

theorem rel_lookup? (name : String) (h : List.Forall₂ RelaxesTo names names') :
    Option.Rel Ty.RelaxesTo (lookup? name names) (lookup? name names') := by
  induction h with
  | nil => exact .none
  | cons hn _ ih =>
      unfold lookup?
      rw [hn.name]
      split
      · exact .some hn.type
      · exact ih

theorem relaxesTo_put (name : String) (h : List.Forall₂ RelaxesTo names names')
    (ht : t.RelaxesTo t') : List.Forall₂ RelaxesTo (put name t names) (put name t' names') := by
  induction h with
  | nil => exact .cons ⟨rfl, ht⟩ .nil
  | cons hn hrest ih =>
      unfold put
      rw [hn.name]
      split
      · exact .cons ⟨rfl, ht⟩ hrest
      · exact .cons hn ih

theorem mem_names_put {name other : String}
    (h : other ∈ (put name t names).map TypedName.name) :
    other = name ∨ other ∈ names.map TypedName.name := by
  induction names with
  | nil => exact .inl (List.mem_singleton.1 h)
  | cons first rest ih =>
      unfold put at h
      split at h
      next hname =>
        rcases List.mem_cons.1 h with h | h
        · exact .inl h
        · exact .inr (List.mem_cons_of_mem _ h)
      next =>
        rcases List.mem_cons.1 h with h | h
        · exact .inr (h ▸ List.mem_cons_self)
        · exact (ih h).imp_right (List.mem_cons_of_mem _)

/-- What is put does not make a name come twice. -/
theorem nodup_put (name : String) (t : Ty) (h : (names.map TypedName.name).Nodup) :
    ((put name t names).map TypedName.name).Nodup := by
  induction names with
  | nil => exact List.nodup_singleton name
  | cons first rest ih =>
      rw [List.map_cons, List.nodup_cons] at h
      unfold put
      split
      next hname =>
        rw [List.map_cons, List.nodup_cons]
        exact ⟨hname ▸ h.1, h.2⟩
      next hname =>
        rw [List.map_cons, List.nodup_cons]
        exact ⟨fun hmem => (mem_names_put hmem).elim hname h.1, ih h.2⟩

end TypedName

namespace Ty

/-- Objects with the same names, each once, and less known of their types. -/
theorem RelaxesTo.ofNames {fields fields' : List TypedName}
    (h : List.Forall₂ TypedName.RelaxesTo fields fields')
    (hnodup : (fields.map TypedName.name).Nodup) :
    RelaxesTo (.object fields) (.object fields') := by
  obtain ⟨hlength, hpairs⟩ := List.forall₂_iff_zip.1 h
  exact .object hlength hnodup (fun _ hpair => (hpairs hpair).name)
    fun _ hpair => (hpairs hpair).type

end Ty

namespace Scopes

/-- Each scope has the names that it had, with less known of their types. -/
structure RelaxesTo (s s' : Scopes) : Prop where
  inner : List.Forall₂ TypedName.RelaxesTo s.inner s'.inner
  outer : List.Forall₂ (List.Forall₂ TypedName.RelaxesTo) s.outer s'.outer

variable {s s' : Scopes} {scopes scopes' : List (List TypedName)} {t t' : Ty}

theorem rel_findSome? (name : String)
    (h : List.Forall₂ (List.Forall₂ TypedName.RelaxesTo) scopes scopes') :
    Option.Rel Ty.RelaxesTo (scopes.findSome? (TypedName.lookup? name))
      (scopes'.findSome? (TypedName.lookup? name)) := by
  induction h with
  | nil => exact .none
  | @cons scope scope' _ _ hfirst _ ih =>
      have hfound := TypedName.rel_lookup? name hfirst
      rw [List.findSome?_cons, List.findSome?_cons]
      generalize TypedName.lookup? name scope = found at hfound
      generalize TypedName.lookup? name scope' = found' at hfound
      cases hfound with
      | some ht => exact .some ht
      | none => exact ih

theorem rel_updateFirst? (name : String) (ht : t.RelaxesTo t')
    (h : List.Forall₂ (List.Forall₂ TypedName.RelaxesTo) scopes scopes') :
    Option.Rel (List.Forall₂ (List.Forall₂ TypedName.RelaxesTo)) (updateFirst? name t scopes)
      (updateFirst? name t' scopes') := by
  induction h with
  | nil => exact .none
  | @cons scope scope' rest rest' hfirst hrest ih =>
      unfold updateFirst?
      rw [isSome_eq_of_rel (TypedName.rel_lookup? name hfirst)]
      split
      · exact .some (.cons (TypedName.relaxesTo_put name hfirst ht) hrest)
      · generalize updateFirst? name t rest = changed at ih
        generalize updateFirst? name t' rest' = changed' at ih
        cases ih with
        | some hchanged => exact .some (.cons hfirst hchanged)
        | none => exact .none

namespace RelaxesTo

theorem refl (s : Scopes) : RelaxesTo s s :=
  ⟨TypedName.relaxesTo_refl _, List.forall₂_same.2 fun _ _ => TypedName.relaxesTo_refl _⟩

theorem push (h : RelaxesTo s s') : RelaxesTo s.push s'.push := ⟨.nil, .cons h.inner h.outer⟩

theorem pop (h : RelaxesTo s s') : RelaxesTo s.pop s'.pop := by
  obtain ⟨inner, outer⟩ := s
  obtain ⟨inner', outer'⟩ := s'
  obtain ⟨hinner, houter⟩ := h
  cases houter with
  | nil => exact ⟨hinner, .nil⟩
  | cons hfirst hrest => exact ⟨hfirst, hrest⟩

theorem define (h : RelaxesTo s s') (name : String) (ht : t.RelaxesTo t') :
    RelaxesTo (s.define name t) (s'.define name t') :=
  ⟨TypedName.relaxesTo_put name h.inner ht, h.outer⟩

theorem definesHere (h : RelaxesTo s s') (name : String) :
    s'.definesHere name = s.definesHere name :=
  isSome_eq_of_rel (TypedName.rel_lookup? name h.inner)

theorem lookup? (h : RelaxesTo s s') (name : String) :
    Option.Rel Ty.RelaxesTo (s.lookup? name) (s'.lookup? name) :=
  rel_findSome? name (.cons h.inner h.outer)

theorem update (h : RelaxesTo s s') (name : String) (ht : t.RelaxesTo t') :
    RelaxesTo ((s.update? name t).getD s) ((s'.update? name t').getD s') := by
  have houter := rel_updateFirst? name ht h.outer
  unfold update?
  rw [h.definesHere]
  split
  · exact h.define name ht
  · generalize updateFirst? name t s.outer = outer at houter
    generalize updateFirst? name t' s'.outer = outer' at houter
    cases houter with
    | some houter => exact ⟨h.inner, houter⟩
    | none => exact h

end RelaxesTo

end Scopes

end ComponentLang
