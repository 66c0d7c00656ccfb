import ComponentLang.Proofs.Grammar.Ledger

/-!
# What becomes of the tokens that are taken

Of the tokens that it is read from a tree keeps the names that it uses and the values that it takes
from outside. Brackets are not kept, but each of them was closed before the tree was complete.

A hand says which brackets are open and what the trees in hand keep. It tallies with the tokens
taken since some state if all that is in it was among them, with the values in the order of the
tokens. When something that was read is dropped, the hand is no longer whole; as long as it is
whole, no value is missing from it and every bracket is accounted for.
-/
namespace ComponentLang.Grammar

/-! ## Brackets -/

/-- A bracket that waits for the one that closes it. -/
inductive Opening where
  | paren
  | brace
  | square
  | expression
  | tag (name : String)
  deriving DecidableEq, Repr

namespace Opening

/-- What a token of this kind and with this text opens. -/
def ofKind? (kind : TokenKind) (lexeme : String) : Option Opening :=
  match kind with
  | .lparen => some .paren
  | .lbrace => some .brace
  | .lbracket => some .square
  | .expressionStart => some .expression
  | .tagOpen => some (.tag lexeme)
  | _ => none

/-- Whether a token of this kind and with this text closes the bracket. A tag closes itself or is
closed by its own name. -/
def closedBy (o : Opening) (kind : TokenKind) (lexeme : String) : Bool :=
  match o, kind with
  | .paren, .rparen => true
  | .brace, .rbrace => true
  | .square, .rbracket => true
  | .expression, .expressionEnd => true
  | .tag _, .tagSelfClose => true
  | .tag name, .tagClose => lexeme == name
  | _, _ => false

end Opening

def isBracket : TokenKind → Bool
  | .lparen | .rparen | .lbrace | .rbrace | .lbracket | .rbracket | .expressionStart
  | .expressionEnd | .tagOpen | .tagSelfClose | .tagClose => true
  | _ => false

/-- One token turns the brackets that are open, the innermost first, into others. -/
inductive Stacks (t : Token) : List Opening → List Opening → Prop
  | opens {o : Opening} {opened : List Opening} :
      Opening.ofKind? t.kind t.lexeme = some o → Stacks t opened (o :: opened)
  | closes {o : Opening} {opened : List Opening} :
      o.closedBy t.kind t.lexeme = true → Stacks t (o :: opened) opened
  | passes {opened : List Opening} : isBracket t.kind = false → Stacks t opened opened

/-- The brackets in the tokens match as far as they are closed, and these are the others, the
innermost first. -/
inductive Unclosed : List Opening → List Token → Prop
  | nil : Unclosed [] []
  | concat {opened opened' : List Opening} {taken : List Token} {t : Token} :
      Unclosed opened taken → Stacks t opened opened' → Unclosed opened' (taken ++ [t])

theorem Stacks.below {t : Token} {opened opened' : List Opening} (h : Stacks t opened opened')
    (below : List Opening) : Stacks t (opened ++ below) (opened' ++ below) := by
  cases h with
  | opens ho => exact .opens ho
  | closes ho => exact .closes ho
  | passes ht => exact .passes ht

theorem Unclosed.append {opened more : List Opening} {taken later : List Token}
    (h : Unclosed opened taken) (h' : Unclosed more later) :
    Unclosed (more ++ opened) (taken ++ later) := by
  induction h' with
  | nil => rwa [List.append_nil]
  | concat _ ht ih =>
      rw [← List.append_assoc]
      exact .concat ih (ht.below opened)

/-! ### Single tokens -/

/-- Whether a token of this kind is no bracket, no value from outside and not the end. -/
def isSilent : TokenKind → Bool
  | .valueBinding | .eof => false
  | kind => !isBracket kind

/-- The token is no value from outside, and it is not the end. -/
structure Passed (t : Token) (opened opened' : List Opening) : Prop where
  read : t.kind ≠ .eof
  plain : t.kind ≠ .valueBinding
  step : Stacks t opened opened'

section Passed

variable {t : Token} {kind : TokenKind} {o : Opening} {opened : List Opening}

theorem passed_silent (hkind : t.kind = kind) (h : isSilent kind = true) :
    Passed t opened opened := by
  subst hkind
  constructor
  · intro heof
    rw [heof] at h
    cases h
  · intro hvalue
    rw [hvalue] at h
    cases h
  · refine .passes ?_
    unfold isSilent at h
    split at h
    · cases h
    · cases h
    · exact Bool.not_eq_true' _ ▸ h

theorem passed_opening (hkind : t.kind = kind) (h : Opening.ofKind? kind t.lexeme = some o) :
    Passed t opened (o :: opened) := by
  subst hkind
  constructor
  · intro heof
    rw [heof] at h
    cases h
  · intro hvalue
    rw [hvalue] at h
    cases h
  · exact .opens h

theorem passed_closing (hkind : t.kind = kind) (h : o.closedBy kind t.lexeme = true) :
    Passed t (o :: opened) opened := by
  subst hkind
  constructor
  · intro heof
    rw [heof] at h
    cases o <;> cases h
  · intro hvalue
    rw [hvalue] at h
    cases o <;> cases h
  · exact .closes h

end Passed

/-! ## What a tree keeps -/

/-- A text and its place. -/
abbrev Word := String × Span

/-- The texts and places of the tokens of one kind. -/
def words (kind : TokenKind) (tokens : List Token) : List Word :=
  (tokens.filter fun t => t.kind = kind).map fun t => (t.lexeme, t.span)

@[simp] theorem words_append (kind : TokenKind) (tokens others : List Token) :
    words kind (tokens ++ others) = words kind tokens ++ words kind others := by
  simp [words]

theorem words_singleton {kind : TokenKind} {t : Token} (h : t.kind = kind) :
    words kind [t] = [(t.lexeme, t.span)] := by
  simp [words, h]

theorem words_of_ne {kind : TokenKind} {t : Token} (h : t.kind ≠ kind) : words kind [t] = [] := by
  simp [words, h]

/-- A use of a value from outside: its node and its name. -/
abbrev ValueUse := Node × String

def ValueUse.word (u : ValueUse) : Word := (u.2, u.1.span)

/-- What trees keep of the tokens that they were read from. They are whole if nothing that was read
was dropped. -/
@[ext] structure Yield where
  values : Multiset ValueUse
  names : Multiset Word
  whole : Bool

namespace Yield

instance : Zero Yield := ⟨⟨0, 0, true⟩⟩

instance : Add Yield :=
  ⟨fun g h => ⟨g.values + h.values, g.names + h.names, g.whole && h.whole⟩⟩

@[simp] theorem zero_values : (0 : Yield).values = 0 := rfl

@[simp] theorem zero_names : (0 : Yield).names = 0 := rfl

@[simp] theorem zero_whole : (0 : Yield).whole = true := rfl

@[simp] theorem add_values (g h : Yield) : (g + h).values = g.values + h.values := rfl

@[simp] theorem add_names (g h : Yield) : (g + h).names = g.names + h.names := rfl

@[simp] theorem add_whole (g h : Yield) : (g + h).whole = (g.whole && h.whole) := rfl

instance : AddCommMonoid Yield where
  add_assoc f g h :=
    Yield.ext (add_assoc _ _ _) (add_assoc _ _ _) (Bool.and_assoc _ _ _)
  zero_add g := Yield.ext (zero_add _) (zero_add _) (Bool.true_and _)
  add_zero g := Yield.ext (add_zero _) (add_zero _) (Bool.and_true _)
  add_comm g h := Yield.ext (add_comm _ _) (add_comm _ _) (Bool.and_comm _ _)
  nsmul := nsmulRec

def ofValue (u : ValueUse) : Yield := ⟨{u}, 0, true⟩

def ofName (w : Word) : Yield := ⟨0, {w}, true⟩

/-- Something was dropped. -/
def damage : Yield := ⟨0, 0, false⟩

/-- The same when something may have been dropped. -/
def torn (g : Yield) : Yield := ⟨g.values, g.names, false⟩

theorem torn_eq_add_damage (g : Yield) : g.torn = g + damage :=
  Yield.ext (add_zero _).symm (add_zero _).symm (Bool.and_false _).symm

theorem torn_of_whole {g : Yield} (h : g.whole = false) : g.torn = g :=
  Yield.ext rfl rfl h.symm

end Yield

/-- What a part keeps apart from what is in it. -/
def partYield : TreePart → Yield
  | .expr (.valueBinding node name) => .ofValue (node, name)
  | .expr (.identifier node name) => .ofName (name, node.span)
  | .stmt (.error ..) => .damage
  | _ => 0

/-- What a part keeps. -/
def yield (part : TreePart) : Yield := (part.walk.map partYield).sum

def yields (parts : List TreePart) : Yield := (parts.map yield).sum

@[simp] theorem yields_nil : yields [] = 0 := rfl

@[simp] theorem yields_cons (part : TreePart) (parts : List TreePart) :
    yields (part :: parts) = yield part + yields parts := by
  simp [yields]

@[simp] theorem yields_append (parts others : List TreePart) :
    yields (parts ++ others) = yields parts + yields others := by
  simp [yields]

/-- A part keeps what is kept by the parts in it. -/
theorem yield_eq (part : TreePart) : yield part = partYield part + yields part.children := by
  have hinside (parts : List TreePart) :
      ((parts.flatMap TreePart.walk).map partYield).sum = yields parts := by
    induction parts with
    | nil => rfl
    | cons first rest ih =>
        rw [List.flatMap_cons, List.map_append, List.sum_append, ih, yields_cons]
        rfl
  unfold yield
  rw [TreePart.walk_eq, List.map_cons, List.sum_cons, hinside]

/-- What a part keeps that is neither a use nor a placeholder. -/
theorem yield_of_children {part : TreePart} (h : partYield part = 0) :
    yield part = yields part.children := by
  rw [yield_eq, h, zero_add]

theorem yield_name (node : Node) (name : String) :
    yield (.expr (.identifier node name)) = .ofName (name, node.span) := by
  have hinner : yield (.identifier node name) = 0 := yield_of_children rfl
  rw [yield_eq]
  simp [partYield, TreePart.children, Expr.children, hinner]

theorem yield_value (node : Node) (name : String) :
    yield (.expr (.valueBinding node name)) = .ofValue (node, name) := by
  have hinner : yield (.valueBinding node name) = 0 := yield_of_children rfl
  rw [yield_eq]
  simp [partYield, TreePart.children, Expr.children, hinner]

/-! ## Tallies -/

/-- The brackets that are open and what the trees in hand keep. -/
structure Hand where
  opened : List Opening
  content : Yield

/-- A part is in hand when what is in it was. -/
theorem hand_eq {opened : List Opening} {g : Yield} {part : TreePart} (h : partYield part = 0)
    (hg : g = yields part.children) : (⟨opened, g⟩ : Hand) = ⟨opened, yield part⟩ := by
  rw [yield_of_children h, hg]

namespace State

/-- The second state comes later: no token comes back, and no number and no problem is taken
back. -/
structure Precedes (s t : State) : Prop where
  rest : t.rest <:+ s.rest
  numbers : s.nextId ≤ t.nextId
  diagnostics : s.diagnostics <:+ t.diagnostics

variable {s t u : State} {h : Hand} {opened : List Opening} {g : Yield}

theorem Precedes.refl (s : State) : s.Precedes s :=
  ⟨List.suffix_refl _, Nat.le_refl _, List.suffix_refl _⟩

theorem Precedes.trans (h : s.Precedes t) (h' : t.Precedes u) : s.Precedes u where
  rest := h'.rest.trans h.rest
  numbers := Nat.le_trans h.numbers h'.numbers
  diagnostics := h'.diagnostics |> h.diagnostics.trans

theorem Limited.later (hs : s.Limited) (hst : s.Precedes t) : t.Limited := by
  obtain ⟨d, hd, hmessage⟩ := hs
  exact ⟨d, problem_mem_entries.2 (hst.diagnostics.subset (problem_mem_entries.1 hd)), hmessage⟩

/-- From `s` to `t` the tokens `taken` were taken, and `log` are the values from outside in hand, by
the numbers of their nodes. All names and values in hand were tokens, and the values in the order
of the tokens. If the hand is whole, no value is missing and all brackets are accounted for. -/
structure Counts (h : Hand) (s t : State) (taken : List Token) (log : List ValueUse) : Prop where
  rest : s.rest = taken ++ t.rest
  numbers : s.nextId ≤ t.nextId
  diagnostics : s.diagnostics <:+ t.diagnostics
  values : (↑log : Multiset ValueUse) = h.content.values
  ordered : log.Pairwise fun u v => u.1.id < v.1.id
  numbered : ∀ u ∈ log, s.nextId ≤ u.1.id ∧ u.1.id < t.nextId
  kept : (log.map ValueUse.word).Sublist (words .valueBinding taken)
  names : ∀ w ∈ h.content.names, w ∈ words .identifier taken
  exact : h.content.whole = true → t.Limited ∨
    (log.map ValueUse.word = words .valueBinding taken ∧ Unclosed h.opened taken)

/-- The hand tallies with what was taken from `s` to `t`. -/
def Tallies (h : Hand) (s t : State) : Prop := ∃ taken log, Counts h s t taken log

theorem Counts.precedes {taken : List Token} {log : List ValueUse} (h' : Counts h s t taken log) :
    s.Precedes t :=
  ⟨⟨taken, h'.rest.symm⟩, h'.numbers, h'.diagnostics⟩

theorem tallies_refl (s : State) : Tallies ⟨[], 0⟩ s s :=
  ⟨[], [], {
    rest := rfl
    numbers := Nat.le_refl _
    diagnostics := List.suffix_refl _
    values := rfl
    ordered := .nil
    numbered := List.forall_mem_nil _
    kept := List.Sublist.refl _
    names := by simp
    exact := fun _ => .inr ⟨rfl, .nil⟩ }⟩

theorem Tallies.trans {more : List Opening} {g' : Yield} (hst : Tallies ⟨opened, g⟩ s t)
    (htu : Tallies ⟨more, g'⟩ t u) : Tallies ⟨more ++ opened, g + g'⟩ s u := by
  obtain ⟨taken, log, hst⟩ := hst
  obtain ⟨later, log', htu⟩ := htu
  refine ⟨taken ++ later, log ++ log', ?_⟩
  constructor
  case rest => rw [hst.rest, htu.rest, List.append_assoc]
  case numbers => exact hst.numbers.trans htu.numbers
  case diagnostics => exact hst.diagnostics.trans htu.diagnostics
  case values =>
    rw [← Multiset.coe_add, hst.values, htu.values]
    rfl
  case ordered =>
    -- What is in the second log was numbered after all that is in the first.
    refine List.pairwise_append.2 ⟨hst.ordered, htu.ordered, fun v hv w hw => ?_⟩
    exact Nat.lt_of_lt_of_le (hst.numbered v hv).2 (htu.numbered w hw).1
  case numbered =>
    intro v hv
    rcases List.mem_append.1 hv with hv | hv
    · exact ⟨(hst.numbered v hv).1, Nat.lt_of_lt_of_le (hst.numbered v hv).2 htu.numbers⟩
    · exact ⟨hst.numbers.trans (htu.numbered v hv).1, (htu.numbered v hv).2⟩
  case kept =>
    rw [List.map_append, words_append]
    exact hst.kept.append htu.kept
  case names =>
    intro w hw
    rw [words_append, List.mem_append]
    exact (Multiset.mem_add.1 hw).imp (hst.names w) (htu.names w)
  case exact =>
    intro hwhole
    have hboth : g.whole = true ∧ g'.whole = true := Bool.and_eq_true_iff.1 hwhole
    rcases htu.exact hboth.2 with hlimited | ⟨hlater, hmore⟩
    · exact .inl hlimited
    · rcases hst.exact hboth.1 with hlimited | ⟨htaken, hopened⟩
      · exact .inl (hlimited.later htu.precedes)
      · right
        rw [List.map_append, words_append, htaken, hlater]
        exact ⟨rfl, hopened.append hmore⟩

/-- The hand still tallies when nothing but other parts of the state have changed. -/
theorem Tallies.of_same (hst : Tallies h s t) (hrest : u.rest = t.rest)
    (hnumbers : t.nextId ≤ u.nextId) (hdiagnostics : u.diagnostics = t.diagnostics) :
    Tallies h s u := by
  have htu : t.Precedes u :=
    ⟨hrest ▸ List.suffix_refl _, hnumbers, hdiagnostics ▸ List.suffix_refl _⟩
  obtain ⟨taken, log, hst⟩ := hst
  exact ⟨taken, log, { hst with
    rest := hrest ▸ hst.rest
    numbers := hst.numbers.trans hnumbers
    diagnostics := hdiagnostics ▸ hst.diagnostics
    numbered := fun v hv =>
      ⟨(hst.numbered v hv).1, Nat.lt_of_lt_of_le (hst.numbered v hv).2 hnumbers⟩
    exact := fun hwhole => (hst.exact hwhole).imp_left fun hlimited => hlimited.later htu }⟩

/-- Whatever comes after, what is in hand was taken, though it need no longer be all. -/
theorem Tallies.torn (hst : Tallies ⟨opened, g⟩ s t) (htu : t.Precedes u) (opened' : List Opening) :
    Tallies ⟨opened', g.torn⟩ s u := by
  obtain ⟨taken, log, hst⟩ := hst
  obtain ⟨dropped, hdropped⟩ := htu.rest
  refine ⟨taken ++ dropped, log, { hst with
    rest := by rw [hst.rest, ← hdropped, List.append_assoc]
    numbers := hst.numbers.trans htu.numbers
    diagnostics := hst.diagnostics.trans htu.diagnostics
    numbered := fun v hv =>
      ⟨(hst.numbered v hv).1, Nat.lt_of_lt_of_le (hst.numbered v hv).2 htu.numbers⟩
    kept := ?_
    names := ?_
    exact := fun hwhole => nomatch hwhole }⟩
  · rw [words_append]
    exact hst.kept.trans (List.sublist_append_left _ _)
  · intro w hw
    rw [words_append]
    exact List.mem_append_left _ (hst.names w hw)

/-- The limit makes up for everything. -/
theorem Tallies.limited (hst : Tallies ⟨opened, g⟩ s t) (htu : t.Precedes u) (hu : u.Limited)
    (opened' : List Opening) : Tallies ⟨opened', g⟩ s u := by
  obtain ⟨taken, log, htorn⟩ := hst.torn htu opened'
  exact ⟨taken, log, { htorn with exact := fun _ => .inl hu }⟩

/-! ### One token -/

theorem rest_of_kind (hs : s.kind ≠ .eof) : s.rest = [s.peek] ++ s.next.rest := by
  cases hrest : s.rest with
  | nil => exact absurd (by simp [kind, peek, hrest, Token.ofKind]) hs
  | cons first rest => simp [peek, next, hrest]

theorem precedes_next (s : State) : s.Precedes s.next := by
  unfold next
  split
  next first rest hrest => exact ⟨⟨[first], hrest.symm⟩, Nat.le_refl _, List.suffix_refl _⟩
  next => exact .refl s

theorem nextId_next (s : State) : s.next.nextId = s.nextId := by
  unfold next
  split <;> rfl

theorem diagnostics_next (s : State) : s.next.diagnostics = s.diagnostics := by
  unfold next
  split <;> rfl


/-- The token need not be the end and may count for any number of names. -/
theorem Tallies.take {opened' : List Opening} {names : Multiset Word}
    (hst : Tallies ⟨opened, g⟩ s t) (ht : Passed t.peek opened opened')
    (hnames : ∀ w ∈ names, t.kind = .identifier ∧ w = (t.peek.lexeme, t.peek.span)) :
    Tallies ⟨opened', g + ⟨0, names, true⟩⟩ s t.next := by
  obtain ⟨taken, log, hst⟩ := hst
  have hwords : words .valueBinding (taken ++ [t.peek]) = words .valueBinding taken := by
    rw [words_append, words_of_ne ht.plain, List.append_nil]
  refine ⟨taken ++ [t.peek], log, ?_⟩
  constructor
  case rest => rw [hst.rest, rest_of_kind ht.read, List.append_assoc]
  case numbers => exact t.nextId_next ▸ hst.numbers
  case diagnostics => exact t.diagnostics_next ▸ hst.diagnostics
  case values => exact hst.values.trans (add_zero _).symm
  case ordered => exact hst.ordered
  case numbered => exact t.nextId_next ▸ hst.numbered
  case kept => exact hwords ▸ hst.kept
  case names =>
    intro w hw
    rw [words_append, List.mem_append]
    rcases Multiset.mem_add.1 hw with hw | hw
    · exact .inl (hst.names w hw)
    · obtain ⟨hkind, rfl⟩ := hnames w hw
      right
      rw [words_singleton (t := t.peek) hkind]
      exact List.mem_singleton_self _
  case exact =>
    intro hwhole
    have hwhole : g.whole = true := by simpa using hwhole
    rcases hst.exact hwhole with hlimited | ⟨htaken, hunclosed⟩
    · exact .inl (hlimited.later t.precedes_next)
    · exact .inr ⟨hwords ▸ htaken, .concat hunclosed ht.step⟩

/-- A name need not be kept. -/
theorem Tallies.drop {names : Multiset Word} (hst : Tallies ⟨opened, g + ⟨0, names, true⟩⟩ s t) :
    Tallies ⟨opened, g⟩ s t := by
  obtain ⟨taken, log, hst⟩ := hst
  exact ⟨taken, log, { hst with
    values := hst.values.trans (add_zero _)
    names := fun w hw => hst.names w (Multiset.mem_add.2 (.inl hw))
    exact := fun hwhole => hst.exact (by simpa using hwhole) }⟩

/-- A value from outside is taken and gets a node. -/
theorem tallies_value (hs : s.peek.kind = .valueBinding) :
    Tallies ⟨[], .ofValue (⟨s.nextId, s.peek.span⟩, s.peek.lexeme)⟩ s
      { s.next with nextId := s.next.nextId + 1 } := by
  have hid := s.nextId_next
  refine ⟨[s.peek], [(⟨s.nextId, s.peek.span⟩, s.peek.lexeme)], ?_⟩
  constructor
  case rest => exact rest_of_kind (by rw [kind, hs]; decide)
  case numbers => exact hid ▸ Nat.le_succ _
  case diagnostics => exact s.diagnostics_next ▸ List.suffix_refl _
  case values => rfl
  case ordered => exact List.pairwise_singleton _ _
  case numbered =>
    refine List.forall_mem_singleton.2 ⟨Nat.le_refl _, ?_⟩
    show s.nextId < s.next.nextId + 1
    omega
  case kept =>
    rw [words_singleton hs]
    exact List.Sublist.refl _
  case names => simp [Yield.ofValue]
  case exact =>
    have hunclosed : Unclosed [] ([] ++ [s.peek]) := .concat .nil (.passes (by rw [hs]; rfl))
    rw [words_singleton hs]
    exact fun _ => .inr ⟨rfl, hunclosed⟩

end State

end ComponentLang.Grammar
