import ComponentLang.Proofs.Typing.Local.Statement

/-!
# What a check leaves in the scopes around it

`Defines D p` is for what defines no names but `D` where it stands. The innermost scope keeps its
names and gains such ones at its end; the scopes around it keep their names, and a type there changes
only if it was not known. What is checked in a scope of its own defines nothing where it stands.
-/
namespace ComponentLang

/-- Relations between lists, item by item, follow one another if those of the items do. -/
theorem forall₂_trans {α : Type} {R : α → α → Prop} (hR : ∀ a b d, R a b → R b d → R a d)
    {items later last : List α} (h : List.Forall₂ R items later) (h' : List.Forall₂ R later last) :
    List.Forall₂ R items last := by
  induction h generalizing last with
  | nil =>
      cases h'
      exact .nil
  | cons hab _ ih =>
      obtain ⟨d, rest, hbd, hrest, rfl⟩ := List.forall₂_cons_left_iff.1 h'
      exact .cons (hR _ _ _ hab hbd) (ih hrest)

namespace TypedName

/-- The name stays, and so does its type if it is known. -/
def SettlesTo (a b : TypedName) : Prop := b.name = a.name ∧ (a.type ≠ .unknown → b.type = a.type)

/-- The same names in the same order, where types may have become known. -/
abbrev AllSettle : List TypedName → List TypedName → Prop := List.Forall₂ SettlesTo

variable {a b d : TypedName} {names later last : List TypedName} {x : String} {type : Ty}

theorem SettlesTo.refl (a : TypedName) : a.SettlesTo a := ⟨rfl, fun _ => rfl⟩

theorem SettlesTo.trans (hab : a.SettlesTo b) (hbd : b.SettlesTo d) : a.SettlesTo d := by
  refine ⟨hbd.1.trans hab.1, fun hknown => ?_⟩
  have hb := hab.2 hknown
  exact (hbd.2 (hb ▸ hknown)).trans hb

theorem allSettle_refl (names : List TypedName) : AllSettle names names :=
  List.forall₂_same.2 fun a _ => .refl a

theorem AllSettle.trans (h : AllSettle names later) (h' : AllSettle later last) :
    AllSettle names last :=
  forall₂_trans (fun _ _ _ => .trans) h h'

theorem AllSettle.map_name (h : AllSettle names later) :
    later.map TypedName.name = names.map TypedName.name := by
  induction h with
  | nil => rfl
  | cons hab _ ih => rw [List.map_cons, List.map_cons, hab.1, ih]

theorem isSome_lookup? : (lookup? x names).isSome ↔ x ∈ names.map TypedName.name := by
  induction names with
  | nil => simp [lookup?]
  | cons a rest ih =>
      rw [List.map_cons, List.mem_cons, ← ih, lookup?]
      split
      next h => simp [h]
      next h => simp [Ne.symm h]

/-- A name that is there keeps its place, and one that is not gets the last. -/
theorem map_name_put (x : String) (type : Ty) (names : List TypedName) :
    (put x type names).map TypedName.name =
      names.map TypedName.name ++ if x ∈ names.map TypedName.name then [] else [x] := by
  induction names with
  | nil => rfl
  | cons a rest ih =>
      rw [put]
      split
      next h => simp [h]
      next h => simp [ih, Ne.symm h]

/-- Only the type of the name itself changes, which was not known. -/
theorem allSettle_put (h : lookup? x names = some .unknown) (type : Ty) :
    AllSettle names (put x type names) := by
  induction names with
  | nil => cases h
  | cons a rest ih =>
      rw [lookup?] at h
      rw [put]
      split at h
      next hname =>
        rw [if_pos hname]
        exact .cons ⟨hname.symm, fun hknown => absurd (Option.some.inj h) hknown⟩
          (allSettle_refl rest)
      next hname =>
        rw [if_neg hname]
        exact .cons (.refl a) (ih h)

end TypedName

namespace Scopes

open TypedName

/-- All of some scopes keep their names, and the types that are known. -/
abbrev Settle : List (List TypedName) → List (List TypedName) → Prop := List.Forall₂ AllSettle

/-- Only the innermost scope gets names: such of `D`, behind those that it has. -/
structure Widens (D : Set String) (s t : Scopes) : Prop where
  inner : ∃ added, t.inner.map TypedName.name = s.inner.map TypedName.name ++ added ∧
    ∀ y ∈ added, y ∈ D
  outer : Settle s.outer t.outer

variable {D D' : Set String} {s t u : Scopes} {x : String} {scopes later : List (List TypedName)}

theorem settle_refl (scopes : List (List TypedName)) : Settle scopes scopes :=
  List.forall₂_same.2 fun names _ => allSettle_refl names

/-- The names stay the same, where they are known already. -/
theorem widens_of_settle (hinner : AllSettle s.inner t.inner) (houter : Settle s.outer t.outer) :
    Widens D s t where
  inner := ⟨[], by rw [hinner.map_name, List.append_nil], List.forall_mem_nil _⟩
  outer := houter

theorem widens_refl (s : Scopes) : Widens D s s :=
  widens_of_settle (allSettle_refl s.inner) (settle_refl s.outer)

theorem Widens.trans (hst : Widens D s t) (htu : Widens D t u) : Widens D s u where
  inner := by
    obtain ⟨added, hadded, hD⟩ := hst.inner
    obtain ⟨more, hmore, hD'⟩ := htu.inner
    refine ⟨added ++ more, by rw [hmore, hadded, List.append_assoc], ?_⟩
    exact fun y hy => (List.mem_append.1 hy).elim (hD y) (hD' y)
  outer := forall₂_trans (fun _ _ _ => .trans) hst.outer htu.outer

theorem Widens.depth (h : Widens D s t) : t.depth = s.depth :=
  congrArg (· + 1) h.outer.length_eq.symm

/-- Whatever an inner scope has got is gone when it is left. -/
theorem Widens.pop (h : Widens D s.push t) : Widens D' s t.pop := by
  obtain ⟨tinner, touter⟩ := t
  obtain ⟨inner, outer, hinner, houter, rfl⟩ := List.forall₂_cons_left_iff.1 h.outer
  exact widens_of_settle hinner houter

theorem widens_define (h : x ∈ D) (s : Scopes) (type : Ty) : Widens D s (s.define x type) where
  inner := by
    refine ⟨_, map_name_put x type s.inner, fun y hy => ?_⟩
    split at hy
    · cases hy
    · rwa [List.mem_singleton.1 hy]
  outer := settle_refl s.outer

theorem settle_updateFirst?
    (h : ∀ found, scopes.findSome? (TypedName.lookup? x) = some found → found = .unknown) {type : Ty}
    (hupdated : updateFirst? x type scopes = some later) : Settle scopes later := by
  induction scopes generalizing later with
  | nil => cases hupdated
  | cons names rest ih =>
      unfold updateFirst? at hupdated
      cases hlookup : TypedName.lookup? x names with
      | some found =>
          rw [List.findSome?_cons, hlookup] at h
          rw [hlookup] at hupdated
          cases hupdated
          have hunknown : found = .unknown := h found rfl
          exact .cons (allSettle_put (hunknown ▸ hlookup) type) (settle_refl rest)
      | none =>
          rw [List.findSome?_cons, hlookup] at h
          rw [hlookup] at hupdated
          obtain ⟨after, hafter, rfl⟩ := Option.map_eq_some_iff.1 hupdated
          exact .cons (allSettle_refl names) (ih h hafter)

/-- A name whose type is not known gets one where it is defined. -/
theorem widens_update? (h : ∀ found, s.lookup? x = some found → found = .unknown) (type : Ty) :
    Widens D s ((s.update? x type).getD s) := by
  unfold update? definesHere
  rw [lookup?, List.findSome?_cons] at h
  cases hlookup : TypedName.lookup? x s.inner with
  | some found =>
      rw [hlookup] at h
      have hunknown : found = .unknown := h found rfl
      exact widens_of_settle (allSettle_put (hunknown ▸ hlookup) type) (settle_refl s.outer)
  | none =>
      rw [hlookup] at h
      cases hupdated : updateFirst? x type s.outer with
      | none => exact widens_refl s
      | some outer => exact widens_of_settle (allSettle_refl s.inner) (settle_updateFirst? h hupdated)

/-- The names that the scopes have, each by itself. -/
theorem isSome_lookup? : (s.lookup? x).isSome ↔
    x ∈ s.inner.map TypedName.name ∨
      ∃ names ∈ s.outer.map (List.map TypedName.name), x ∈ names := by
  simp [lookup?, List.findSome?_isSome_iff, TypedName.isSome_lookup?]

theorem Settle.map_names (h : Settle scopes later) :
    later.map (List.map TypedName.name) = scopes.map (List.map TypedName.name) := by
  induction h with
  | nil => rfl
  | cons hnames _ ih => rw [List.map_cons, List.map_cons, AllSettle.map_name hnames, ih]

/-- What is in sight stays in sight. -/
theorem Widens.isSome_lookup? (h : Widens D s t) (hx : (s.lookup? x).isSome) :
    (t.lookup? x).isSome := by
  obtain ⟨added, hadded, -⟩ := h.inner
  rw [Scopes.isSome_lookup?] at hx ⊢
  rw [hadded, h.outer.map_names]
  exact hx.imp_left (List.mem_append_left added)

/-- What comes into sight is defined where the check stands. -/
theorem Widens.isSome_or_mem (h : Widens D s t) (hx : (t.lookup? x).isSome) :
    (s.lookup? x).isSome ∨ x ∈ D := by
  obtain ⟨added, hadded, hD⟩ := h.inner
  rw [Scopes.isSome_lookup?] at hx ⊢
  rw [hadded, h.outer.map_names, List.mem_append] at hx
  rcases hx with (hinner | hnew) | houter
  · exact .inl (.inl hinner)
  · exact .inr (hD x hnew)
  · exact .inl (.inr houter)

end Scopes

open Checking

namespace Check

variable {α β : Type} {D D' : Set String} {p : Check α} {f : α → Check β}

/-- Where it stands, `p` defines no names but `D`. -/
def Defines (D : Set String) (p : Check α) : Prop :=
  ∀ c : Checking, c.scopes.Widens D (p.run c).2.scopes

/-! ## Checks made from checks -/

theorem Fixes.defines (h : LeavesScopes p) : Defines D p := by
  intro c
  rw [h c]
  exact Scopes.widens_refl c.scopes

theorem defines_pure (a : α) : Defines D (pure a : Check α) := (fixes_pure a).defines

theorem Defines.bind (hp : Defines D p) (hf : ∀ a, Defines D (f a)) : Defines D (p >>= f) :=
  fun c => (hp c).trans (hf (p.run c).1 (p.run c).2)

theorem defines_get_bind {f : Checking → Check α} (h : ∀ c, Defines D (f c)) :
    Defines D (get >>= f) :=
  fun c => h c c

/-- Whatever is defined in a scope of its own is gone afterwards. -/
theorem defines_inScope (h : Defines D p) : Defines D' (inScope p) :=
  fun c => (h c.opened).pop

theorem defines_define {name : String} (h : name ∈ D) (type : Ty) : Defines D (define name type) :=
  fun c => Scopes.widens_define h c.scopes type

theorem defines_collectReturns {declared : Option Ty} {body : Check Unit} (h : Defines D body) :
    Defines D (collectReturns declared body) :=
  fun c => h { c with returns := ⟨declared, []⟩ :: c.returns }

/-! ## Variables -/

/-- Only a variable of no known type is given another. -/
theorem widens_keep {target : Expr} {types : Ty × Ty} {c : Checking} (span : Span)
    (h : ∀ node name, target = .identifier node name → types.1 = .unknown →
      c.scopes.lookup? name = none ∨ c.scopes.lookup? name = some .unknown) :
    c.scopes.Widens D ((keep target span types).run c).2.scopes := by
  unfold keep
  split
  next hunknown =>
    unfold adopt
    split
    next node name =>
      split
      · exact defines_pure () c
      · refine Scopes.widens_update? (fun found hfound => ?_) _
        rcases h node name rfl hunknown with hnone | hsome
        · rw [hnone] at hfound
          cases hfound
        · rw [hsome] at hfound
          exact (Option.some.inj hfound).symm
    next => exact defines_pure () c
  next => exact (fixes_expectStorable _ _ _).defines c

theorem defines_assignment (target : Expr) (op : AssignOp) (value : Expr) :
    Defines D (assignment target op value) := by
  intro c
  rw [assignment_eq]
  refine ((fixes_assigned target op value).defines c).trans (widens_keep _ ?_)
  rintro node name rfl hunknown
  rw [lookup?_of_leavesScopes (fixes_assigned _ op value)]
  exact lookup?_of_assignmentTarget hunknown

theorem defines_variableDecl {decl : VariableDecl} (h : decl.name ∈ D) :
    Defines D (variableDecl decl) := by
  rw [variableDecl_eq]
  exact (fixes_declaredWith decl).defines.bind fun type => defines_define h type

/-! ## Functions -/

theorem defines_defineAll (params : List Param) (types : List Ty) :
    Defines Set.univ (defineAll params types) := by
  fun_induction defineAll params types with
  | case1 p params type types ih => exact (defines_define (Set.mem_univ _) type).bind fun _ => ih
  | case2 => exact defines_pure ()

/-- A function is defined where it stands; its parameters and its body have a scope of their own. -/
theorem defines_functionType {name : String} {params : List Param} {returnType : Option TypeExpr}
    {isAsync : Bool} {body : Check Unit} (h : name ∈ D) (hbody : Defines Set.univ body) :
    Defines D (functionType name params returnType isAsync body) := by
  unfold functionType
  refine (fixes_paramTypes params).defines.bind fun types =>
    (fixes_resolve? returnType).defines.bind fun declared =>
      (defines_define h _).bind fun _ => ?_
  have hscope : Defines D (inScope do
      defineAll params types
      collectReturns declared body) :=
    defines_inScope ((defines_defineAll params types).bind fun _ => defines_collectReturns hbody)
  exact hscope.bind fun seen => (defines_define h _).bind fun _ => defines_pure _

theorem defines_importNames {names : List String} (h : ∀ y ∈ names, y ∈ D) :
    Defines D (importNames names) := by
  induction names with
  | nil => exact defines_pure ()
  | cons name rest ih =>
      rw [List.forall_mem_cons] at h
      exact (defines_define h.1 .any).bind fun _ => ih h.2

theorem defines_declareMethods (ss : List Stmt) : Defines Set.univ (declareMethods ss) := by
  fun_induction declareMethods ss with
  | case1 => exact defines_pure ()
  | case2 span f rest ih =>
      exact (fixes_signature f).defines.bind fun type =>
        (defines_define (Set.mem_univ _) type).bind fun _ => ih
  | case3 s rest _ ih => exact ih

/-! ## Statements -/

mutual

theorem defines_stmt : ∀ (s : Stmt) (D : Set String), (∀ y ∈ s.declared, y ∈ D) → Defines D (stmt s)
  | .expression span e, _, _ => by
    rw [Check.stmt]
    exact ((fixes_expr e).bind fun _ => fixes_pure ()).defines
  | .block b, _, _ => by
    rw [Check.stmt]
    exact defines_block b _
  | .variableDecl span decl, _, h => by
    rw [Check.stmt]
    exact defines_variableDecl (h _ List.mem_cons_self)
  | .assignment span target op value, _, _ => by
    rw [Check.stmt]
    exact defines_assignment target op value
  | .ifElse span test consequent alternate, _, h => by
    rw [Check.stmt]
    exact (fixes_expr test).defines.bind fun _ => (defines_block consequent _).bind
      fun _ => defines_stmt? alternate _ h
  | .whileLoop span test body, _, _ => by
    rw [Check.stmt]
    exact (fixes_expr test).defines.bind fun _ => defines_block body _
  | .forLoop span init test update body, _, _ => by
    rw [Check.stmt]
    exact defines_inScope (D := Set.univ) ((defines_stmt? init _ fun _ _ => trivial).bind fun _ =>
      (fixes_expr? test).defines.bind fun _ =>
        (defines_stmt? update _ fun _ _ => trivial).bind fun _ => defines_block body _)
  | .forIn span name iterable body, _, _ => by
    rw [Check.stmt]
    exact (fixes_expr iterable).defines.bind fun type => defines_inScope (D := Set.univ)
      ((defines_define (Set.mem_univ _) _).bind fun _ => defines_block body _)
  | .returnStmt span none, _, _ => by
    rw [Check.stmt]
    exact (leavesScopes_noteReturn _ _).defines
  | .returnStmt span (some e), _, _ => by
    rw [Check.stmt]
    exact ((fixes_expr e).bind fun type => leavesScopes_noteReturn type _).defines
  | .breakStmt span, _, _ | .continueStmt span, _, _ | .error span message, _, _ => by
    rw [Check.stmt]
    exact defines_pure ()
  | .tryStmt span b handler cleanup, _, _ | .asyncBlock span b handler cleanup, _, _ => by
    rw [Check.stmt]
    exact (defines_block b _).bind fun _ => (defines_handler? handler _).bind fun _ =>
      defines_block? cleanup _
  | .throwStmt span value, _, _ => by
    rw [Check.stmt]
    exact ((fixes_expr value).bind fun _ => fixes_pure ()).defines
  | .functionDecl span f, _, h => by
    rw [Check.stmt]
    exact (defines_function f _ (h _ List.mem_cons_self)).bind fun _ => defines_pure ()
  | .importDecl span item, _, h => by
    rw [Check.stmt]
    exact defines_importNames h
  | .exportDecl span item, _, h => by
    rw [Check.stmt]
    exact defines_exportDecl item _ h

theorem defines_stmt? : ∀ (s : Option Stmt) (D : Set String),
    (∀ y ∈ Stmt.declared? s, y ∈ D) → Defines D (stmt? s)
  | none, _, _ => defines_pure ()
  | some s, _, h => defines_stmt s _ h

theorem defines_stmts : ∀ ss : List Stmt, Defines Set.univ (stmts ss)
  | [] => defines_pure ()
  | s :: rest => by
    rw [Check.stmts]
    exact (defines_stmt s _ fun _ _ => trivial).bind fun _ => defines_stmts rest

theorem defines_block : ∀ (b : Block) (D : Set String), Defines D (block b)
  | ⟨statements, span⟩, _ => by
    rw [Check.block]
    exact defines_inScope (defines_stmts statements)

theorem defines_block? : ∀ (b : Option Block) (D : Set String), Defines D (block? b)
  | none, _ => defines_pure ()
  | some b, _ => defines_block b _

theorem defines_handler? : ∀ (handler : Option CatchClause) (D : Set String),
    Defines D (handler? handler)
  | none, _ => defines_pure ()
  | some ⟨param, body⟩, _ => by
    rw [Check.handler?]
    exact defines_inScope (D := Set.univ)
      ((defines_importNames fun _ _ => trivial).bind fun _ => defines_block body _)

theorem defines_function : ∀ (f : Function) (D : Set String), f.name ∈ D → Defines D (function f)
  | ⟨name, params, returnType, ⟨statements, blockSpan⟩, isAsync, modifiers, span⟩, _, h => by
    rw [Check.function]
    exact defines_functionType h (defines_stmts statements)

theorem defines_members : ∀ ss : List Stmt, Defines Set.univ (members ss)
  | [] => defines_pure _
  | s :: rest => by
    have hrest := defines_members rest
    have hs := defines_stmt s Set.univ fun _ _ => trivial
    unfold Check.members
    split
    · exact hrest
    next span decl =>
      exact (defines_variableDecl (Set.mem_univ _)).bind fun _ =>
        hrest.bind fun _ => defines_pure _
    next span node name value =>
      refine defines_get_bind fun c => ?_
      split
      · exact hs.bind fun _ => hrest
      · exact (fixes_expr value).defines.bind fun type =>
          (fixes_record node.id type).defines.bind fun _ =>
            (defines_define (Set.mem_univ _) type).bind fun _ =>
              hrest.bind fun _ => defines_pure _
    next => exact hs.bind fun _ => hrest

theorem defines_methods : ∀ ss : List Stmt, Defines Set.univ (methods ss)
  | [] => defines_pure _
  | s :: rest => by
    cases s with
    | functionDecl span f =>
        rw [Check.methods]
        exact (defines_function f _ (Set.mem_univ _)).bind fun type =>
          (defines_methods rest).bind fun _ => defines_pure _
    | _ => exact defines_methods rest

theorem defines_component : ∀ (k : Component) (D : Set String), Defines D (component k)
  | ⟨name, modifiers, statements, body, span⟩, _ => by
    rw [Check.component]
    exact defines_inScope ((defines_declareMethods statements).bind fun _ =>
      (defines_members statements).bind fun state => (defines_methods statements).bind
        fun methods => ((fixes_markups body).bind fun _ =>
          fixes_summarize name state methods).defines)

theorem defines_exportDecl : ∀ (e : Export) (D : Set String), (∀ y ∈ e.declared, y ∈ D) →
    Defines D (exportDecl e)
  | ⟨isDefault, .function f, span⟩, _, h => by
    rw [Check.exportDecl]
    exact (defines_function f _ (h _ List.mem_cons_self)).bind fun _ => defines_pure ()
  | ⟨isDefault, .component k, span⟩, _, _ => by
    rw [Check.exportDecl]
    exact defines_component k _
  | ⟨isDefault, .statement s, span⟩, _, h => by
    rw [Check.exportDecl]
    exact defines_stmt s _ h

end

end Check

/-! ## What stays when something has been checked -/

namespace Checking

/-- What stays of the scopes and of the functions that are being checked, when no names but `names`
are defined in the scope at hand. -/
structure Restores (names : List String) (c d : Checking) : Prop where
  depth : d.scopes.depth = c.scopes.depth
  returns : d.returns.length = c.returns.length
  outer : Scopes.Settle c.scopes.outer d.scopes.outer
  inner : ∃ added, d.scopes.inner.map TypedName.name = c.scopes.inner.map TypedName.name ++ added ∧
    ∀ y ∈ added, y ∈ names
  sight : ∀ x, x ∉ names → (d.scopes.lookup? x).isSome = (c.scopes.lookup? x).isSome

variable {names : List String} {c d : Checking}

theorem restores_of_widens (hscopes : c.scopes.Widens {y | y ∈ names} d.scopes)
    (hreturns : d.returns.length = c.returns.length) : Restores names c d where
  depth := hscopes.depth
  returns := hreturns
  outer := hscopes.outer
  inner := hscopes.inner
  sight x hx := by
    rw [Bool.eq_iff_iff]
    constructor
    · exact fun h => (hscopes.isSome_or_mem h).resolve_right hx
    · exact hscopes.isSome_lookup?

end Checking

/-- The statement is a block or a loop, or tries something: its parts have scopes of their own. -/
def Stmt.isEnclosed : Stmt → Bool
  | .block _ | .whileLoop .. | .forLoop .. | .forIn .. | .tryStmt .. | .asyncBlock .. => true
  | _ => false

theorem Stmt.declared_of_isEnclosed {s : Stmt} (h : s.isEnclosed) : s.declared = [] := by
  cases s with
  | block | whileLoop | forLoop | forIn | tryStmt | asyncBlock => rfl
  | _ => cases h

namespace Check

variable {α : Type} {names : List String} {p : Check α}

/-- A check that depends on what is in sight alone leaves as many functions as it finds. -/
theorem Defines.restores (h : Defines {y | y ∈ names} p)
    (hlocal : Local .all Set.univ p) (c : Checking) : Restores names c (p.run c).2 :=
  restores_of_widens (h c) (hlocal.frames c).returns

/-- Whatever the state, checking leaves the scopes and the functions around as they are, but for
types that were not known. A statement and a function define the names that they declare where they
stand; a component, a block and a handler define nothing there, and nor do loops. An expression and
a tag change nothing in any scope. -/
theorem restores_check (c : Checking) :
    (∀ s : Stmt, Restores s.declared c ((stmt s).run c).2) ∧
    (∀ s : Stmt, s.isEnclosed → Restores [] c ((stmt s).run c).2) ∧
    (∀ f : Function, Restores [f.name] c ((function f).run c).2) ∧
    (∀ k : Component, Restores [] c ((component k).run c).2) ∧
    (∀ b : Block, Restores [] c ((block b).run c).2) ∧
    (∀ handler : Option CatchClause, Restores [] c ((handler? handler).run c).2) ∧
    (∀ t : Tag, Restores [] c ((tag t).run c).2 ∧ ((tag t).run c).2.scopes = c.scopes) ∧
    (∀ e : Expr, Restores [] c ((expr e).run c).2 ∧ ((expr e).run c).2.scopes = c.scopes) := by
  have hall : ∀ y, View.all.seen y := fun _ => trivial
  have hstmt : ∀ s : Stmt, Restores s.declared c ((stmt s).run c).2 := fun s =>
    (defines_stmt s _ fun _ h => h).restores (local_stmt hall s _ fun _ _ => trivial) c
  refine ⟨hstmt, ?_, ?_, ?_, ?_, ?_, ?_, ?_⟩
  · intro s henclosed
    rw [← Stmt.declared_of_isEnclosed henclosed]
    exact hstmt s
  · intro f
    exact (defines_function f _ List.mem_cons_self).restores
      (local_function hall f _ (Set.mem_univ _)) c
  · intro k
    exact (defines_component k _).restores (local_component hall k _) c
  · intro b
    exact (defines_block b _).restores (local_block hall b _) c
  · intro handler
    exact (defines_handler? handler _).restores (local_handler? hall handler _) c
  · intro t
    have hleaves : LeavesScopes (tag t) := fixes_tag t
    exact ⟨hleaves.defines.restores (local_tag t (View.sees_of_all hall _)) c, hleaves c⟩
  · intro e
    have hleaves : LeavesScopes (expr e) := fixes_expr e
    exact ⟨hleaves.defines.restores (local_expr e (View.sees_of_all hall _)) c, hleaves c⟩

end Check

end ComponentLang
