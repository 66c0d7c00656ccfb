import ComponentLang.Proofs.Grammar.RoundTrip
import ComponentLang.Proofs.Grammar.Rendering.Program
import ComponentLang.Proofs.Tree.Shape

/-!
# Tokens that are read by themselves, read among others

Some tokens are, to the last, an expression or a body. They are moved to another place and stand
among other tokens there. What stands in front of them has been read, and what comes behind them
cannot go on with them: there they are read as a tree of the same shape.
-/
namespace ComponentLang.Grammar

open Parse
open Renderable (reread)

/-! ## Tokens by themselves -/

/-- None of the tokens is an error or the end of the input. -/
def Sound (tokens : List Token) : Prop := ∀ t ∈ tokens, t.kind.isError = false ∧ t.kind ≠ .eof

instance (tokens : List Token) : Decidable (Sound tokens) :=
  inferInstanceAs (Decidable (∀ t ∈ tokens, _))

namespace Sound

variable {tokens others : List Token}

theorem nil : Sound [] := List.forall_mem_nil _

theorem cons {token : Token} (hkind : token.kind.isError = false ∧ token.kind ≠ .eof)
    (h : Sound tokens) : Sound (token :: tokens) :=
  List.forall_mem_cons.2 ⟨hkind, h⟩

theorem append (h : Sound tokens) (h' : Sound others) : Sound (tokens ++ others) :=
  List.forall_mem_append.2 ⟨h, h'⟩

theorem filter_eq (h : Sound tokens) : tokens.filter (fun t => !t.kind.isError) = tokens :=
  List.filter_eq_self.2 fun t ht => by simp [(h t ht).1]

theorem filter_concat (h : Sound tokens) (stop : Span) :
    (tokens ++ [Token.ofKind .eof "" stop]).filter (fun t => !t.kind.isError) =
      tokens ++ [Token.ofKind .eof "" stop] := by
  rw [List.filter_append, h.filter_eq]
  rfl

theorem takeWhile_append (h : Sound tokens) (others : List Token) :
    (tokens ++ others).takeWhile (fun t => t.kind != .eof) =
      tokens ++ others.takeWhile fun t => t.kind != .eof :=
  List.takeWhile_append_of_pos fun t ht => by simpa using (h t ht).2

theorem rest_start (h : Sound tokens) : (State.start tokens).rest = tokens := by
  have hall := h.takeWhile_append []
  show (tokens.filter _).takeWhile _ = tokens
  rw [h.filter_eq]
  simpa using hall

theorem limit_start (h : Sound tokens) :
    (State.start tokens).iterationLimit = (tokens.length + 1) * 64 + 1024 := by
  have hlast : tokens.getLast?.map Token.kind ≠ some .eof := by
    intro hend
    obtain ⟨t, ht, hkind⟩ := Option.map_eq_some_iff.1 hend
    exact (h t (List.mem_of_getLast? ht)).2 hkind
  show (if (tokens.filter _).getLast?.map Token.kind = some .eof then _ else _) * 64 + 1024 = _
  rw [h.filter_eq, if_neg hlast]

/-- A list is read up to the end of its input. -/
theorem rest_start_concat (h : Sound tokens) (stop : Span) :
    (State.start (tokens ++ [Token.ofKind .eof "" stop])).rest = tokens := by
  show ((tokens ++ [Token.ofKind .eof "" stop]).filter _).takeWhile _ = tokens
  rw [h.filter_concat, h.takeWhile_append, List.takeWhile_cons_of_neg (by simp [Token.ofKind]),
    List.append_nil]

theorem limit_start_concat (h : Sound tokens) (stop : Span) :
    (State.start (tokens ++ [Token.ofKind .eof "" stop])).iterationLimit =
      (tokens.length + 1) * 64 + 1024 := by
  have hlast : (tokens ++ [Token.ofKind .eof "" stop]).getLast?.map Token.kind = some .eof := by
    rw [List.getLast?_concat]
    rfl
  show (if ((tokens ++ [Token.ofKind .eof "" stop]).filter _).getLast?.map Token.kind =
    some .eof then ((tokens ++ [Token.ofKind .eof "" stop]).filter _).length else _) * 64 + 1024 = _
  rw [h.filter_concat, if_pos hlast, List.length_append]
  rfl

end Sound

section Alone

variable {α : Type} {p : Parse α} {tokens : List Token}

/-- The tokens are, to the last, something that `p` reads, and no problem is found in them. -/
def ReadsThrough (p : Parse α) (tokens : List Token) : Prop :=
  Sound tokens ∧ (p.run (.start tokens)).1.toOption.isSome = true ∧
    (p.run (.start tokens)).2.rest = [] ∧ (p.run (.start tokens)).2.diagnostics = []

instance (p : Parse α) (tokens : List Token) : Decidable (ReadsThrough p tokens) :=
  inferInstanceAs (Decidable (_ ∧ _))

/-- The tokens are read by themselves as `a`. -/
structure ReadsAs (p : Parse α) (tokens : List Token) (a : α) : Prop where
  sound : Sound tokens
  ok : (p.run (.start tokens)).1 = .ok a
  rest : (p.run (.start tokens)).2.rest = []
  silent : (p.run (.start tokens)).2.diagnostics = []

theorem ReadsThrough.exists_readsAs (h : ReadsThrough p tokens) : ∃ a, ReadsAs p tokens a := by
  obtain ⟨hsound, hok, hrest, hsilent⟩ := h
  cases hresult : (p.run (.start tokens)).1 with
  | ok a => exact ⟨a, hsound, hresult, hrest, hsilent⟩
  | error e =>
    rw [hresult] at hok
    cases hok

end Alone

/-! ## Tokens moved -/

/-- Where each place is moved to. What begins where something else ends still does. -/
structure Placement where
  span : Span → Span
  through (a b : Span) : span (a.through b) = (span a).through (span b)
  meets (a b : Span) : (span a).start = (span b).stop ↔ a.start = b.stop

namespace Placement

/-- Everything stays where it is. -/
def same : Placement := ⟨fun span => span, fun _ _ => rfl, fun _ _ => Iff.rfl⟩

variable (place : Placement)

def tokens (tokens : List Token) : List Token :=
  tokens.map fun t => { t with span := place.span t.span }

theorem sound_tokens {tokens : List Token} (h : Sound tokens) : Sound (place.tokens tokens) := by
  intro t ht
  obtain ⟨t', ht', rfl⟩ := List.mem_map.1 ht
  exact h t' ht'

@[simp] theorem length_tokens (tokens : List Token) :
    (place.tokens tokens).length = tokens.length :=
  List.length_map _

/-- The tokens that are moved, as they stand before `more`. -/
def rendering (all more : List Token) (offset : Nat)
    (halts : ∀ token ∈ more.head?, endsOperand token.kind = true) : Rendering all where
  span := place.span
  offset
  square _ := false
  more
  through := place.through
  meets := place.meets
  detached _ h := nomatch h
  apart _ h := nomatch h
  halts

variable {place}

theorem token_rendering {all more : List Token} {offset : Nat}
    {halts : ∀ token ∈ more.head?, endsOperand token.kind = true} (x : Taken all) :
    (place.rendering all more offset halts).token x =
      { x.token with span := place.span x.token.span } := by
  cases x <;> rfl

end Placement

/-! ## Reading them there -/

/-- `tokens` are what comes, no problem was found yet, and no statement loop has made a turn. -/
structure State.Awaits (limit : Nat) (s : State) (tokens : List Token) : Prop
    extends s.Faces tokens where
  silent : s.diagnostics = []
  fresh : s.iterations = 0
  unturned : s.turns = []
  limited : limit ≤ s.iterationLimit

namespace State.Awaits

variable {limit : Nat} {s t : State} {token : Token} {tokens rest : List Token}

theorem of_drops (h : s.Awaits limit tokens) (hdrops : s.Drops t) (ht : t.Faces rest) :
    t.Awaits limit rest where
  toFaces := ht
  silent := hdrops.diagnostics.trans h.silent
  fresh := hdrops.iterations.trans h.fresh
  unturned := hdrops.turns.trans h.unturned
  limited := hdrops.iterationLimit ▸ h.limited

theorem next (h : s.Awaits limit (token :: tokens)) : s.next.Awaits limit tokens :=
  h.of_drops (Travel.next s) h.toFaces.next

theorem numbered (h : s.Awaits limit tokens) (nextId : Nat) :
    { s with nextId }.Awaits limit tokens :=
  ⟨h.toFaces.numbered nextId, h.silent, h.fresh, h.unturned, h.limited⟩

theorem paced (h : s.Awaits limit tokens) (hlimit : tokens.length ≤ limit) :
    s.Paced tokens.length where
  within := Nat.le_of_eq (congrArg List.length h.rest)
  limited := hlimit.trans h.limited
  counted := by rw [h.fresh, h.unturned]; rfl
  distinct := h.unturned ▸ List.nodup_nil
  behind := by rw [h.unturned]; nofun
  reported := by rw [h.silent]; exact Nat.zero_le _
  unlimited := by rw [h.silent]; nofun

end State.Awaits

section Elsewhere

variable {α : Type} [Renderable α] {tokens more : List Token} {s : State}
variable {W : Rendering tokens → Prop} {m : α → List Span} {B : List Span}
variable {F : Follow} {G : Front} {p : Parse α} {a : α}

/-- What is read by itself is read where it stands elsewhere, before what ends it. -/
theorem ReadsAs.exists_run (h : ReadsAs p tokens a) (hwhole : Renderable.whole a)
    (hrenders : Renders W m B F G p (fun _ => p) (.start tokens))
    (hF : F.Holds ([] : List (Taken tokens))) (place : Placement)
    (halts : ∀ token ∈ more.head?, endsOperand token.kind = true)
    (hW : W (place.rendering tokens more s.nextId halts))
    (hs : s.Awaits (State.start tokens).iterationLimit (place.tokens tokens ++ more)) :
    ∃ t, p s = (pure (reread (place.rendering tokens more s.nextId halts) a) : Parse α) t ∧
      t.Faces more ∧ t.diagnostics = [] := by
  have hstart := h.sound.rest_start
  have hfits : State.Fits tokens (.start tokens) := ⟨hstart.symm ▸ List.suffix_refl tokens, nofun⟩
  obtain ⟨hproceeds, -, hconveys⟩ := (hrenders hfits).good_of_ok h.ok
  obtain ⟨taken, -, -, hrest, hreads⟩ := hconveys h.silent hwhole
  rw [h.rest, List.append_nil] at hrest
  -- The tokens that are taken are all of them, and they come next where they are moved to.
  have hmoved : place.tokens tokens =
      taken.map (place.rendering tokens more s.nextId halts).token := by
    have htaken : tokens = taken.map Taken.token := hstart.symm.trans hrest
    refine (congrArg (List.map _) htaken).trans ?_
    rw [List.map_map]
    exact List.map_congr_left fun x _ => (Placement.token_rendering x).symm
  have hsees : (place.rendering tokens more s.nextId halts).Sees (taken ++ [])
      (.start tokens) s := by
    rw [List.append_nil]
    exact ⟨hrest, by rw [hs.rest, hmoved]; rfl, nofun, hs.inHead, (Nat.zero_add _).symm, hs.fresh,
      hs.limited, hs.silent⟩
  obtain ⟨t, hrun, ht⟩ := hreads _ hW [] s hF h.rest hsees
  exact ⟨t, hrun, ⟨ht.rest', ht.inHead.trans hproceeds.inHead⟩, ht.silent⟩

/-- An expression is read before what ends it. -/
theorem ReadsAs.exists_expression {e : Expr} (h : ReadsAs expression tokens e) {limit : Nat}
    (hlimit : (tokens.length + 1) * 64 + 1024 ≤ limit) (place : Placement)
    (hs : s.Awaits limit (place.tokens tokens ++ more))
    (halts : endsOperand (headKind more) = true) :
    ∃ e' t, expression s = (pure e' : Parse Expr) t ∧ e'.shape = e.shape ∧ t.Awaits limit more := by
  have hmore : ∀ token ∈ more.head?, endsOperand token.kind = true := by
    cases more with
    | nil => rintro _ ⟨⟩
    | cons token more => rintro _ ⟨⟩; exact halts
  obtain ⟨t, hrun, ht, -⟩ := h.exists_run (W := fun _ => True) (B := []) (G := .any) trivial
    (renders_expression rfl) (by rintro _ _ _ _ _ ⟨⟩) place hmore trivial
    ⟨hs.toFaces, hs.silent, hs.fresh, hs.unturned,
      h.sound.limit_start ▸ hlimit.trans hs.limited⟩
  have hdrops : s.Drops t := by
    have hskims : Skims State.Drops expression s := skims_expression
    have hends := (hskims.good_of_ok (congrArg Prod.fst hrun)).1
    rwa [show (expression.run s).2 = t from congrArg Prod.snd hrun] at hends
  exact ⟨_, t, hrun, Expr.shape_remap _ _ e, hs.of_drops hdrops ht⟩

/-- The rules of statements read alike at whatever depth is enough. -/
theorem shifts_stmtRules {k n n' depth : Nat} {old : List Diagnostic} :
    Shifts k old n n' depth statement (stmtRules depth).statement where
  beside {s t} hst hlt := by
    have hrules : (stmtRules (s.rest.length + 1)).Shift k old n n' (s.rest.length + 1)
        (stmtRules depth) :=
      shift_stmtRules (Nat.le_refl _) hlt
    exact (hrules.statement.beside hst (Nat.lt_succ_self _)).of_eq rfl rfl
  skims _ _ _ := skims_statement
  skims' _ s hlt := (keep_stmtRules depth).statement s hlt

/-- A body is read at the end of the tokens, at whatever depth is enough. -/
theorem ReadsAs.exists_body {b : Block} (h : ReadsAs (body statement) tokens b) {limit : Nat}
    (hlimit : (tokens.length + 1) * 64 + 1024 ≤ limit) (place : Placement)
    (hs : s.Awaits limit (place.tokens tokens)) {depth : Nat} (hdepth : tokens.length ≤ depth) :
    ∃ b' t, body (stmtRules depth).statement s = (pure b' : Parse Block) t ∧ b'.shape = b.shape ∧
      t.rest = [] ∧ t.diagnostics = [] := by
  have hall : s.Awaits (State.start tokens).iterationLimit (place.tokens tokens ++ []) := by
    rw [List.append_nil]
    exact ⟨hs.toFaces, hs.silent, hs.fresh, hs.unturned,
      h.sound.limit_start ▸ hlimit.trans hs.limited⟩
  obtain ⟨t, hrun, ht, hsilent⟩ := h.exists_run (B := []) trivial
    (renders_body restating_statement) trivial place (by rintro _ ⟨⟩) rfl hall
  have hlength : (place.tokens tokens).length ≤ limit := by
    rw [place.length_tokens]
    omega
  have hpaced := hs.paced hlength
  have hrest : s.rest.length ≤ depth := by
    rw [hs.rest, place.length_tokens]
    exact hdepth
  have hbeside := beside_body (shifts_stmtRules : Shifts 0 [] _ _ _ _ _)
    ⟨⟨rfl, rfl, rfl, rfl, rfl, (List.append_nil _).symm⟩, hpaced, hpaced⟩ hrest
  have hrun' : (body statement).run s = (.ok _, t) := hrun
  have hnumbers : shift 0 = id := rfl
  unfold Beside at hbeside
  rw [hrun', hnumbers] at hbeside
  generalize hother : (body (stmtRules depth).statement).run s = other at hbeside
  cases hbeside with
  | @ok _ t' _ ht' _ =>
    refine ⟨_, t', hother, ?_, ht'.rest.trans ht.rest, ?_⟩
    · rw [Relabel.block_id]
      exact Block.shape_remap _ _ b
    · rw [ht'.diagnostics, hsilent]
      rfl

end Elsewhere

end ComponentLang.Grammar
