import ComponentLang.Proofs.Grammar.Declaration
import ComponentLang.Proofs.Grammar.Provenance
import ComponentLang.Proofs.Tree.WellFormed
import Mathlib.Data.List.Chain

/-!
# The texts of tags, and the forms of parts

A text in a tag is made from tokens that follow each other directly, and texts that follow each
other directly are one text. This is so in a tag when its last child has been read, and then in
every tree that it becomes a part of, also if there are problems elsewhere. In the same way a part
is well formed by itself, and the names in its type expressions are words of the tokens, from when
it has been read.

`Sees tokens Q p` says that `p` takes its tokens from the end of `tokens` and that what it gives
satisfies `Q`.
-/
namespace ComponentLang

def TreePart.tag? : TreePart → Option Tag
  | .tag t => some t
  | _ => none

namespace Markup

def IsText : Markup → Prop
  | .text .. => True
  | .tag _ | .expr _ => False

def content? : Markup → Option String
  | .text content _ => some content
  | .tag _ | .expr _ => none

end Markup

namespace Grammar

open Parse ComponentLang.TreePart

/-! ## Texts made from tokens -/

/-- The words make up a text, with a space wherever there was something between them. -/
inductive Joins : List Token → String → Span → Prop
  | one {t : Token} : t.kind = .text → Joins [t] t.lexeme t.span
  | more {words : List Token} {content : String} {span : Span} {t : Token} :
      Joins words content span → t.kind = .text →
      Joins (words ++ [t])
        (content ++ (if t.span.start = span.stop then "" else " ") ++ t.lexeme)
        (span.through t.span)

/-- No two neighbours among the children are texts, and each text is made from words that are
neighbours among the tokens. -/
structure Textual (tokens : List Token) (children : List Markup) : Prop where
  apart : children.IsChain fun a b => ¬ (a.IsText ∧ b.IsText)
  texts : ∀ content span, .text content span ∈ children →
    ∃ words, Joins words content span ∧ words <:+: tokens

/-- What is known of a type expression by itself: it is well formed, and a name is a word of the
tokens. -/
structure Drawn (tokens : List Token) (a : TypeExpr) : Prop where
  wellFormed : a.WellFormed
  word : ∀ span name, a = .named span name →
    ∃ t ∈ tokens, (t.kind = .identifier ∨ t.kind = .null) ∧ t.lexeme = name

/-- The type expression has been read from the tokens. -/
abbrev Written (tokens : List Token) (a : TypeExpr) : Prop := a.Everywhere (Drawn tokens)

/-- What is known of a part by itself: it is well formed, its type expressions are written in the
tokens, and the children of a tag are textual. -/
structure Fitting (tokens : List Token) (part : TreePart) : Prop where
  wellFormed : part.WellFormed
  written : ∀ a ∈ part.annotations, Written tokens a
  textual : ∀ t, part = .tag t → Textual tokens t.children

/-- This is known of everything in a part. -/
abbrev Tidy (tokens : List Token) (part : TreePart) : Prop := part.Everywhere (Fitting tokens)

variable {tokens : List Token}

/-! ### The forms of tidy parts -/

theorem tidy_iff {part : TreePart} :
    Tidy tokens part ↔ Fitting tokens part ∧ ∀ child ∈ part.children, Tidy tokens child :=
  everywhere_iff

theorem tidy_plain {part : TreePart} (h : Fitting tokens part) :
    Tidy tokens part ↔ ∀ child ∈ part.children, Tidy tokens child :=
  tidy_iff.trans (and_iff_right h)

theorem fitting_stmt {s : Stmt} :
    Fitting tokens (.stmt s) ↔
      s.WellFormed ∧ ∀ a ∈ (TreePart.stmt s).annotations, Written tokens a :=
  ⟨fun h => ⟨h.wellFormed, h.written⟩, fun h => ⟨h.1, h.2, nofun⟩⟩

theorem tidy_stmt {s : Stmt} :
    Tidy tokens (.stmt s) ↔
      (s.WellFormed ∧ ∀ a ∈ (TreePart.stmt s).annotations, Written tokens a) ∧
        ∀ child ∈ s.children, Tidy tokens child :=
  tidy_iff.trans (and_congr_left' fitting_stmt)

theorem tidy_tag {t : Tag} :
    Tidy tokens (.tag t) ↔ (Textual tokens t.children ∧ (t.selfClosing = true → t.children = [])) ∧
      (∀ item ∈ t.attributes, Tidy tokens (.attribute item)) ∧
        ∀ child ∈ t.children, Tidy tokens (.markup child) := by
  have hfitting : Fitting tokens (.tag t) ↔
      Textual tokens t.children ∧ (t.selfClosing = true → t.children = []) := by
    constructor
    · exact fun h => ⟨h.textual t rfl, h.wellFormed⟩
    · rintro ⟨htextual, hclosing⟩
      exact ⟨hclosing, List.forall_mem_nil _, fun _ heq => TreePart.tag.inj heq ▸ htextual⟩
  rw [tidy_iff, hfitting]
  simp only [children, List.forall_mem_append, List.forall_mem_map]

theorem tidy_function {f : Function} :
    Tidy tokens (.function f) ↔ (("async" ∈ f.modifiers → f.isAsync = true) ∧
      ∀ a ∈ f.annotations, Written tokens a) ∧ Tidy tokens (.block f.body) := by
  have hfitting : Fitting tokens (.function f) ↔
      ("async" ∈ f.modifiers → f.isAsync = true) ∧ ∀ a ∈ f.annotations, Written tokens a :=
    ⟨fun h => ⟨h.wellFormed, h.written⟩, fun h => ⟨h.1, h.2, nofun⟩⟩
  rw [tidy_iff, hfitting]
  exact and_congr_right' List.forall_mem_singleton

theorem tidy_importDecl {item : Import} :
    Tidy tokens (.importDecl item) ↔ (item.default.isSome → item.names = []) := by
  rw [tidy_iff]
  exact ⟨fun h => h.1.wellFormed, fun h => ⟨⟨h, List.forall_mem_nil _, nofun⟩, nofun⟩⟩

@[simp] theorem tidy_expr {e : Expr} :
    Tidy tokens (.expr e) ↔ ∀ child ∈ e.children, Tidy tokens child :=
  tidy_plain ⟨trivial, List.forall_mem_nil _, nofun⟩

@[simp] theorem tidy_block {b : Block} :
    Tidy tokens (.block b) ↔ ∀ s ∈ b.statements, Tidy tokens (.stmt s) := by
  have hfitting : Fitting tokens (.block b) := ⟨trivial, List.forall_mem_nil _, nofun⟩
  exact (tidy_plain hfitting).trans List.forall_mem_map

@[simp] theorem tidy_component {c : Component} :
    Tidy tokens (.component c) ↔ (∀ s ∈ c.statements, Tidy tokens (.stmt s)) ∧
      ∀ m ∈ c.body, Tidy tokens (.markup m) := by
  have hfitting : Fitting tokens (.component c) := ⟨trivial, List.forall_mem_nil _, nofun⟩
  rw [tidy_plain hfitting]
  simp only [children, List.forall_mem_append, List.forall_mem_map]

@[simp] theorem tidy_exportDecl {item : Export} :
    Tidy tokens (.exportDecl item) ↔ Tidy tokens item.item.part := by
  have hfitting : Fitting tokens (.exportDecl item) := ⟨trivial, List.forall_mem_nil _, nofun⟩
  exact (tidy_plain hfitting).trans List.forall_mem_singleton

@[simp] theorem tidy_attribute {item : Attribute} :
    Tidy tokens (.attribute item) ↔ ∀ value ∈ item.value, Tidy tokens (.expr value) := by
  have hfitting : Fitting tokens (.attribute item) := ⟨trivial, List.forall_mem_nil _, nofun⟩
  rw [tidy_plain hfitting]
  simp [children]

@[simp] theorem tidy_markup {m : Markup} :
    Tidy tokens (.markup m) ↔ ∀ child ∈ m.children, Tidy tokens child :=
  tidy_plain ⟨trivial, List.forall_mem_nil _, nofun⟩

@[simp] theorem tidy_identifier {node : Node} {name : String} :
    Tidy tokens (.identifier node name) :=
  tidy_iff.2 ⟨⟨trivial, List.forall_mem_nil _, nofun⟩, nofun⟩

@[simp] theorem tidy_valueBinding {node : Node} {name : String} :
    Tidy tokens (.valueBinding node name) :=
  tidy_iff.2 ⟨⟨trivial, List.forall_mem_nil _, nofun⟩, nofun⟩

@[simp] theorem tidy_text {content : String} {span : Span} : Tidy tokens (.text content span) :=
  tidy_iff.2 ⟨⟨trivial, List.forall_mem_nil _, nofun⟩, nofun⟩

@[simp] theorem tidy_program {p : Program} :
    Tidy tokens (.program p) ↔ (∀ item ∈ p.imports, Tidy tokens (.importDecl item)) ∧
      (∀ item ∈ p.exports, Tidy tokens (.exportDecl item)) ∧
      (∀ f ∈ p.functions, Tidy tokens (.function f)) ∧
      (∀ c ∈ p.components, Tidy tokens (.component c)) ∧
      ∀ s ∈ p.statements, Tidy tokens (.stmt s) := by
  have hfitting : Fitting tokens (.program p) := ⟨trivial, List.forall_mem_nil _, nofun⟩
  rw [tidy_plain hfitting]
  simp only [children, List.forall_mem_append, List.forall_mem_map]

/-! ### Textual children -/

theorem textual_nil : Textual tokens [] := ⟨List.isChain_nil, nofun⟩

theorem Textual.concat {children : List Markup} {child : Markup} (h : Textual tokens children)
    (hapart : ∀ last ∈ children.getLast?, ¬ (last.IsText ∧ child.IsText))
    (htext : ∀ content span, child = .text content span →
      ∃ words, Joins words content span ∧ words <:+: tokens) :
    Textual tokens (children ++ [child]) where
  apart := by
    refine List.isChain_append.2 ⟨h.apart, List.isChain_singleton _, ?_⟩
    rintro last hlast _ ⟨⟩
    exact hapart last hlast
  texts content span hmem := by
    rcases List.mem_append.1 hmem with hmem | hmem
    · exact h.texts content span hmem
    · exact htext content span (List.mem_singleton.1 hmem).symm

theorem Textual.concat_other {children : List Markup} {child : Markup}
    (h : Textual tokens children) (hother : ¬ child.IsText) :
    Textual tokens (children ++ [child]) := by
  refine h.concat (fun _ _ hboth => hother hboth.2) ?_
  rintro content span rfl
  exact absurd trivial hother

theorem Textual.of_append {children more : List Markup} (h : Textual tokens (children ++ more)) :
    Textual tokens children where
  apart := (List.isChain_append.1 h.apart).1
  texts content span hmem := h.texts content span (List.mem_append_left _ hmem)

/-- The words of the last child, if it is a text, stand directly before the tokens to come. -/
def OpenText (tokens : List Token) (children : List Markup) (rest : List Token) : Prop :=
  ∀ content span, children.getLast? = some (.text content span) →
    ∃ words, Joins words content span ∧ words ++ rest <:+ tokens

theorem openText_concat_other {children : List Markup} {child : Markup} {rest : List Token}
    (hother : ¬ child.IsText) : OpenText tokens (children ++ [child]) rest := by
  intro content span hlast
  rw [List.getLast?_concat] at hlast
  cases hlast
  exact absurd trivial hother

/-- A word goes on with the text before it or is a text of its own. -/
theorem Textual.appendText {children : List Markup} {word : Token} {rest : List Token}
    (h : Textual tokens children) (hopen : OpenText tokens children (word :: rest))
    (hword : word.kind = .text) (hrest : word :: rest <:+ tokens) :
    Textual tokens (Grammar.appendText children word) ∧
      OpenText tokens (Grammar.appendText children word) rest := by
  have hinfix (words : List Token) (hsuffix : words ++ word :: rest <:+ tokens) :
      words ++ [word] <:+: tokens := by
    obtain ⟨before, hbefore⟩ := hsuffix
    exact ⟨before, rest, by simp [← hbefore]⟩
  unfold Grammar.appendText
  split
  next content span hlast =>
    obtain ⟨before, rfl⟩ := List.getLast?_eq_some_iff.1 hlast
    obtain ⟨words, hjoins, hwords⟩ := hopen content span hlast
    rw [List.dropLast_concat]
    have hmore := Joins.more hjoins hword
    refine ⟨h.of_append.concat ?_ ?_, ?_⟩
    · -- What stands before the text is no text, as it is not now.
      intro last hbefore
      have happend := List.isChain_append.1 h.apart
      exact happend.2.2 last hbefore (.text content span) rfl
    · rintro _ _ ⟨⟩
      exact ⟨words ++ [word], hmore, hinfix words hwords⟩
    · intro content' span' hlast'
      rw [List.getLast?_concat] at hlast'
      cases hlast'
      exact ⟨words ++ [word], hmore, by simpa using hwords⟩
  next hlast =>
    refine ⟨h.concat ?_ ?_, ?_⟩
    · intro last hmem hboth
      cases last with
      | text content span => exact hlast content span hmem
      | tag _ => exact hboth.1
      | expr _ => exact hboth.1
    · rintro _ _ ⟨⟩
      exact ⟨[word], .one hword, hinfix [] hrest⟩
    · intro content span hlast'
      rw [List.getLast?_concat] at hlast'
      cases hlast'
      exact ⟨[word], .one hword, hrest⟩

/-! ## Readers that give tidy trees -/

namespace Parse

variable {α β : Type} {Q : α → Prop} {P : β → Prop}

/-- From the end of `tokens` on `p` stays within them, and what it gives satisfies `Q`. -/
def Sees (tokens : List Token) (Q : α → Prop) (p : Parse α) : Prop :=
  ∀ s : State, s.rest <:+ tokens →
    Ends (fun a t => t.rest <:+ tokens ∧ Q a) (fun _ t => t.rest <:+ tokens) p s

theorem sees_pure {a : α} (h : Q a) : Sees tokens Q (pure a) := fun _ hs => ⟨hs, h⟩

theorem sees_throw {e : Problem} : Sees tokens Q (throw e : Parse α) := fun _ hs => hs

theorem sees_bind {p : Parse β} {f : β → Parse α} (hp : Sees tokens P p)
    (hf : ∀ b, P b → Sees tokens Q (f b)) : Sees tokens Q (p >>= f) := by
  intro s hs
  rw [ends_bind]
  exact (hp s hs).mono (fun b t ⟨ht, hb⟩ => hf b hb t ht) fun _ _ ht => ht

theorem sees_mono {p : Parse α} {Q' : α → Prop} (hp : Sees tokens Q p) (h : ∀ a, Q a → Q' a) :
    Sees tokens Q' p :=
  fun s hs => (hp s hs).mono (fun a _ ht => ⟨ht.1, h a ht.2⟩) fun _ _ ht => ht

theorem sees_map {p : Parse β} {f : β → α} (hp : Sees tokens P p) (h : ∀ b, P b → Q (f b)) :
    Sees tokens Q (f <$> p) := by
  rw [map_eq_pure_bind]
  exact sees_bind hp fun b hb => sees_pure (h b hb)

/-- A reader that is chosen by looking at the state sees what the chosen one does. -/
theorem sees_of_eq {p : Parse α} {choose : State → Parse α} (h : ∀ s, Sees tokens Q (choose s))
    (heq : ∀ s, p s = choose s s) : Sees tokens Q p := by
  intro s hs
  have hrun : p.run s = (choose s).run s := heq s
  have hends := h s s hs
  unfold Ends at *
  rw [hrun]
  exact hends

/-- What only takes tokens stays within them. -/
theorem sees_of_skims {p : Parse α} (h : ∀ s, Skims State.Drops p s) :
    Sees tokens (fun _ => True) p := by
  intro s hs
  exact (h s).mono (fun _ t ht => ⟨ht.1.rest.trans hs, trivial⟩) fun _ t ht => ht.1.rest.trans hs

theorem sees_idle_bind {p : Parse β} {f : β → Parse α} (hp : ∀ s, Skims State.Drops p s)
    (hf : ∀ b, Sees tokens Q (f b)) : Sees tokens Q (p >>= f) :=
  sees_bind (sees_of_skims hp) fun b _ => hf b

/-! ### Single steps -/

@[simp] theorem ends_peek_bind {good : α → State → Prop} {bad : Problem → State → Prop}
    {f : Token → Parse α} {s : State} :
    Ends good bad (peek >>= f) s ↔ Ends good bad (f s.peek) s := Iff.rfl

theorem sees_get_bind {f : State → Parse α} (h : ∀ t, Sees tokens Q (f t)) :
    Sees tokens Q (get >>= f) :=
  fun s => h s s

theorem sees_peek_bind {f : Token → Parse α} (h : ∀ t, Sees tokens Q (f t)) :
    Sees tokens Q (peek >>= f) :=
  fun s => h s.peek s

theorem sees_kind_bind {f : TokenKind → Parse α} (h : ∀ k, Sees tokens Q (f k)) :
    Sees tokens Q (kind >>= f) :=
  fun s => h s.kind s

theorem sees_here_bind {f : Span → Parse α} (h : ∀ span, Sees tokens Q (f span)) :
    Sees tokens Q (here >>= f) :=
  fun s => h s.here s

theorem sees_spanFrom_bind {start : Span} {f : Span → Parse α}
    (h : ∀ span, Sees tokens Q (f span)) : Sees tokens Q (spanFrom start >>= f) :=
  fun s => h (s.spanFrom start) s

theorem sees_fail {cause : Cause} : Sees tokens Q (fail cause : Parse α) :=
  sees_get_bind fun _ => sees_throw

theorem sees_unexpected {expected : Expected} : Sees tokens Q (unexpected expected : Parse α) :=
  sees_get_bind fun _ => sees_fail

/-- The next token is one of the tokens, unless it is the end of the input. -/
theorem sees_token_bind {f : Token → Parse α}
    (h : ∀ t, (t.kind ≠ .eof → t ∈ tokens) → Sees tokens Q (f t)) :
    Sees tokens Q (peek >>= f) := by
  intro s hs
  refine h s.peek (fun hkind => ?_) s hs
  have hrest : s.rest = s.peek :: s.next.rest := State.rest_of_kind hkind
  exact hs.subset (hrest ▸ List.mem_cons_self)

theorem sees_advance_bind {f : Token → Parse α} (h : ∀ t, Sees tokens Q (f t)) :
    Sees tokens Q (advance >>= f) :=
  fun s hs => h s.peek s.next (s.suffix_next.trans hs)

theorem sees_node_bind {span : Span} {f : Node → Parse α} (h : ∀ node, Sees tokens Q (f node)) :
    Sees tokens Q (node span >>= f) :=
  fun s => h ⟨s.nextId, span⟩ { s with nextId := s.nextId + 1 }

theorem sees_node {span : Span} {finish : Node → α} (h : ∀ node, Q (finish node)) :
    Sees tokens Q (do return finish (← node span)) :=
  sees_node_bind fun node => sees_pure (h node)

theorem sees_eat_bind {kind : TokenKind} {f : Bool → Parse α} (h : ∀ b, Sees tokens Q (f b)) :
    Sees tokens Q (eat kind >>= f) :=
  sees_idle_bind (fun _ => skims_eat) h

theorem sees_eat_if {kind : TokenKind} {p q : Parse α} (hp : Sees tokens Q p)
    (hq : Sees tokens Q q) :
    Sees tokens Q (eat kind >>= fun taken => if taken = true then p else q) := by
  apply sees_eat_bind
  intro taken
  split
  · exact hp
  · exact hq

theorem sees_expect_bind {kind : TokenKind} {expected : Expected} {f : Token → Parse α}
    (h : ∀ t, Sees tokens Q (f t)) : Sees tokens Q (expect kind expected >>= f) :=
  sees_idle_bind (fun _ => takes_expect.2 fun _ => trivial) h

theorem sees_expectIdentifier_bind {expected : Expected} {f : String → Parse α}
    (h : ∀ name, Sees tokens Q (f name)) : Sees tokens Q (expectIdentifier expected >>= f) :=
  sees_idle_bind (fun _ => takes_expectIdentifier.2 fun _ => trivial) h

/-! ### Readers made from readers -/

theorem sees_ite_bind {c : Prop} [Decidable c] {p q : Parse β} {f : β → Parse α}
    (hp : Sees tokens P p) (hq : Sees tokens P q) (hf : ∀ b, P b → Sees tokens Q (f b)) :
    Sees tokens Q (if c then p >>= f else q >>= f) := by
  split
  · exact sees_bind hp hf
  · exact sees_bind hq hf

/-- One of two readers by a condition that is known behind it. -/
theorem sees_cases_bind {c : Prop} [Decidable c] {p q : Parse β} {f : β → Parse α}
    (hp : c → Sees tokens P p) (hq : ¬ c → Sees tokens P q) (hf : ∀ b, P b → Sees tokens Q (f b)) :
    Sees tokens Q (if c then p >>= f else q >>= f) := by
  split
  next h => exact sees_bind (hp h) hf
  next h => exact sees_bind (hq h) hf

theorem sees_some {p : Parse β} (hp : Sees tokens P p) :
    Sees tokens (fun o => ∀ b ∈ o, P b) (some <$> p) :=
  sees_map hp fun _ hb => by simpa using hb

theorem sees_none : Sees tokens (fun o => ∀ b ∈ o, P b) (pure none : Parse (Option β)) :=
  sees_pure nofun

theorem sees_withHead {inHead : Bool} {p : Parse α} (h : Sees tokens Q p) :
    Sees tokens Q (withHead inHead p) := by
  intro s hs
  rw [ends_withHead]
  exact h { s with inHead } hs

theorem sees_nested {p : Parse α} (h : Sees tokens Q p) : Sees tokens Q (nested p) :=
  sees_withHead h

theorem sees_attempt_bind {p : Parse β} {f : Except Problem β → Parse α} (hp : Sees tokens P p)
    (hok : ∀ b, P b → Sees tokens Q (f (.ok b))) (herror : ∀ e, Sees tokens Q (f (.error e))) :
    Sees tokens Q (attempt p >>= f) :=
  fun s hs => ends_attempt_bind (hp s hs) (fun b t ht => hok b ht.2 t ht.1)
    fun e t ht => herror e t ht

/-- What a turn of a loop comes to, and where. -/
def TurnEnds (J : β → State → Prop) (good : α → State → Prop) : Turn β α → State → Prop
  | .again b, t => J b t
  | .done a, t => good a t

/-- A loop keeps what each of its turns does. -/
theorem ends_iterate_of {good : α → State → Prop} {bad : Problem → State → Prop}
    {J : β → State → Prop} {turn : β → Parse (Turn β α)}
    (hturn : ∀ b t, J b t → Ends (TurnEnds J good) bad (turn b) t)
    (hlimit : ∀ b t, J b t → bad (.ofSpan .iterationLimit t.here) t) (b : β) {s : State}
    (h : J b s) :
    Ends good bad (iterate turn b) s := by
  have hfor : ∀ turns b t, J b t → Ends good bad (iterateFor turn turns b) t := by
    intro turns
    induction turns with
    | zero => exact fun b t ht => hlimit b t ht
    | succ turns ih =>
        intro b t ht
        unfold iterateFor
        rw [ends_bind]
        refine (hturn b t ht).mono (fun r u hu => ?_) fun _ _ hbad => hbad
        cases r with
        | again b => exact ih b u hu
        | done a => exact hu
  exact hfor _ b s h

/-- What a turn of a loop comes to. -/
def TurnIs (P : β → Prop) (Q : α → Prop) : Turn β α → Prop
  | .again b => P b
  | .done a => Q a

theorem sees_iterate {turn : β → Parse (Turn β α)}
    (hturn : ∀ b, P b → Sees tokens (TurnIs P Q) (turn b)) {b : β} (hb : P b) :
    Sees tokens Q (iterate turn b) := by
  intro s hs
  refine ends_iterate_of (J := fun b t => t.rest <:+ tokens ∧ P b) (fun b t ht => ?_)
    (fun _ _ ht => ht.1) b ⟨hs, hb⟩
  refine (hturn b ht.2 t ht.1).mono (fun r u hu => ?_) fun _ _ hu => hu
  cases r with
  | again b => exact hu
  | done a => exact hu

theorem sees_commaSeparated {close : TokenKind} {item : Parse β} (hitem : Sees tokens P item) :
    Sees tokens (fun items => ∀ b ∈ items, P b) (commaSeparated close item) := by
  unfold commaSeparated
  refine sees_iterate (P := fun items => ∀ b ∈ items, P b) (fun items hitems => ?_)
    (List.forall_mem_nil _)
  apply sees_get_bind
  intro t
  split
  · exact sees_pure hitems
  · apply sees_bind hitem
    intro b hb
    have hadd : ∀ b' ∈ items ++ [b], P b' :=
      List.forall_mem_append.2 ⟨hitems, List.forall_mem_singleton.2 hb⟩
    exact sees_eat_if (sees_pure hadd) (sees_pure hadd)

end Parse

/-! ## Recovery -/

variable {statement : Parse Stmt}

theorem sees_ensureProgress {before : Nat} :
    Sees tokens (fun _ => True) (ensureProgress before) := by
  intro s hs
  unfold ensureProgress
  rw [ends_modify_bind, ends_get_bind]
  split
  · exact ⟨List.nil_suffix, trivial⟩
  · split
    · exact ⟨(State.suffix_next _).trans hs, trivial⟩
    · exact ⟨hs, trivial⟩

/-- A placeholder has nothing in it. -/
theorem sees_recover {problem : Problem} :
    Sees tokens (fun s => Tidy tokens (.stmt s)) (recover problem) := by
  intro s hs
  unfold recover
  rw [ends_here_bind, ends_modify_bind, ends_bind]
  refine Ends.mono gives_synchronize (fun _ t ht => ?_) fun _ _ hfalse => hfalse.elim
  exact ⟨ht.rest.trans hs, tidy_stmt.2 ⟨⟨trivial, List.forall_mem_nil _⟩, List.forall_mem_nil _⟩⟩

theorem sees_recovering (h : Sees tokens (fun s => Tidy tokens (.stmt s)) statement) :
    Sees tokens (fun s => Tidy tokens (.stmt s)) (recovering statement) := by
  unfold recovering
  apply sees_attempt_bind h
  · exact fun stmt hstmt => sees_pure hstmt
  · exact fun problem => sees_recover

end Grammar

end ComponentLang
