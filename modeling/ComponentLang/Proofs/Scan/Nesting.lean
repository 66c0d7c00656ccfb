import ComponentLang.Proofs.Scan.Moves

/-!
# Modes and tokens

The modes of a scan can be told from its tokens, apart from a style value that is pending. What may
stand on what keeps this true: the mode that a closing token leaves is always the one that its
opening token entered. So openings and closings in the tokens account for every mode that is still
in force at the end, whether the source is well formed or not.
-/
namespace ComponentLang.Scan

/-- Openings and closings account for every mode that markup has entered and not left. -/
structure Balanced (kinds : List TokenKind) (modes : List Mode) : Prop where
  expressions : kinds.count .expressionStart =
    kinds.count .expressionEnd + modes.count .expression
  tags : kinds.count .tagOpen = kinds.count .tagSelfClose + kinds.count .tagClose +
    (modes.count .tagAttribute + modes.count .tagContent)

theorem Balanced.append_neutral {kinds more : List TokenKind} {modes : List Mode}
    (h : Balanced kinds modes) (hmore : ∀ kind ∈ more, kind.isNeutral = true) :
    Balanced (kinds ++ more) modes := by
  have hnone : ∀ kind : TokenKind, kind.isNeutral = false → more.count kind = 0 := by
    intro kind hkind
    refine List.count_eq_zero.mpr fun hmem => ?_
    rw [hmore kind hmem] at hkind
    cases hkind
  constructor
  · simp only [List.count_append, hnone .expressionStart rfl, hnone .expressionEnd rfl]
    exact h.expressions
  · simp only [List.count_append, hnone .tagOpen rfl, hnone .tagSelfClose rfl,
      hnone .tagClose rfl]
    exact h.tags

/-- The frames that are counted are the same before and after a token that counts none of them. -/
theorem Balanced.of_counts {kinds kinds' : List TokenKind} {modes modes' : List Mode}
    (h : Balanced kinds modes)
    (hexpressions : kinds'.count .expressionStart + kinds.count .expressionEnd +
      modes.count .expression = kinds.count .expressionStart + kinds'.count .expressionEnd +
      modes'.count .expression)
    (htags : kinds'.count .tagOpen + (kinds.count .tagSelfClose + kinds.count .tagClose) +
      (modes.count .tagAttribute + modes.count .tagContent) =
      kinds.count .tagOpen + (kinds'.count .tagSelfClose + kinds'.count .tagClose) +
      (modes'.count .tagAttribute + modes'.count .tagContent)) : Balanced kinds' modes' := by
  have he := h.expressions
  have ht := h.tags
  exact ⟨by omega, by omega⟩

/-- A mode is entered with the token that stands for it. -/
theorem Balanced.push {kinds : List TokenKind} {modes : ModeStack}
    (h : Balanced kinds modes.toList) {kind : TokenKind} {mode : Mode}
    (hkind : kind.enters? = some mode) : Balanced (kinds ++ [kind]) (modes.push mode).toList := by
  unfold TokenKind.enters? at hkind
  split at hkind
  case h_4 => cases hkind
  all_goals
    obtain rfl := Option.some.inj hkind
    apply h.of_counts
    all_goals
      simp [ModeStack.toList_push, List.count_append]
      try omega

/-- A mode is left with the token that stands for its end. -/
theorem Balanced.pop {kinds : List TokenKind} {modes : ModeStack}
    (h : Balanced kinds modes.toList) {kind : TokenKind}
    (hkind : kind.leaves? = some modes.top) : Balanced (kinds ++ [kind]) modes.pop.toList := by
  unfold TokenKind.leaves? at hkind
  split at hkind
  case h_5 => cases hkind
  all_goals
    have htop := Option.some.inj hkind
    apply h.of_counts
    all_goals
      simp [ModeStack.count_pop, ModeStack.count_toList modes, ← htop, List.count_append]
      try omega

namespace State

/-- The kinds of the tokens made so far, oldest first. -/
def kinds (st : State) : List TokenKind := st.emitted.reverse.map Token.kind

variable (config : ScanConfig)

@[simp] theorem kinds_place_skip (st : State) (width : Nat) :
    (st.place config (.skip width)).kinds = st.kinds := rfl

@[simp] theorem kinds_place_token (st : State) (kind : TokenKind) (width : Nat)
    (lexeme : String) :
    (st.place config (.token kind width lexeme)).kinds = st.kinds ++ [kind] := by
  simp [kinds, place, Token.ofKind]

/-- Pieces that leave the modes alone add kinds that do. -/
theorem kinds_placeAll_neutral (st : State) {pieces : List Piece}
    (h : ∀ piece ∈ pieces, piece.Neutral) :
    ∃ more, (st.placeAll config pieces).kinds = st.kinds ++ more ∧
      ∀ kind ∈ more, kind.isNeutral = true := by
  induction pieces generalizing st with
  | nil => exact ⟨[], by simp⟩
  | cons piece rest ih =>
      obtain ⟨more, hmore, hneutral⟩ := ih (st.place config piece) fun q hq =>
        h q (List.mem_cons_of_mem _ hq)
      rw [placeAll_cons, hmore]
      have hpiece := h piece List.mem_cons_self
      cases piece with
      | skip width => exact ⟨more, by simp, hneutral⟩
      | token kind width lexeme =>
          refine ⟨kind :: more, by simp, ?_⟩
          exact List.forall_mem_cons.mpr ⟨hpiece, hneutral⟩
      | error problem width lexeme =>
          by_cases hcap : st.errors + 1 > config.maxErrors
          · refine ⟨.error :: .error :: more, ?_, ?_⟩
            · simp [kinds, place, hcap, Token.ofError]
            · simpa [TokenKind.isNeutral] using hneutral
          · refine ⟨.error :: more, ?_, ?_⟩
            · simp [kinds, place, hcap, Token.ofError]
            · simpa [TokenKind.isNeutral] using hneutral

@[simp] theorem kinds_step (st : State) :
    (st.step config).kinds = (st.placeAll config (st.reading config).pieces).kinds := by
  simp [kinds]

end State

/-- The modes of a state are those that its tokens tell, apart from a style value that is pending,
and each stands where it may. -/
structure Agrees (st : State) : Prop where
  nested : st.modes.Nested
  settled : st.modes.top ≠ .styleValue → st.modes = .replay st.kinds
  pending : st.modes.top = .styleValue → st.modes = (ModeStack.replay st.kinds).push .styleValue
  balanced : Balanced st.kinds st.modes.toList

theorem agrees_start (s : Source) : Agrees (.start s) where
  nested := ModeStack.nested_initial
  settled := fun _ => rfl
  pending := fun h => by cases h
  balanced := ⟨rfl, rfl⟩

variable {config : ScanConfig} {st next : State}

theorem Agrees.neutral (h : Agrees st) {more : List TokenKind}
    (hmore : ∀ kind ∈ more, kind.isNeutral = true) (hkinds : next.kinds = st.kinds ++ more)
    (hmodes : next.modes = st.modes) : Agrees next := by
  have hreplay : ModeStack.replay next.kinds = .replay st.kinds := by
    rw [hkinds, ModeStack.replay_append_neutral _ hmore]
  constructor
  · rw [hmodes]
    exact h.nested
  · rw [hmodes, hreplay]
    exact h.settled
  · rw [hmodes, hreplay]
    exact h.pending
  · rw [hmodes, hkinds]
    exact h.balanced.append_neutral hmore

/-- One token that moves the modes as its kind says. -/
theorem Agrees.onKind (h : Agrees st) {kind : TokenKind} (htop : st.modes.top ≠ .styleValue)
    (hkinds : next.kinds = st.kinds ++ [kind]) (hmodes : next.modes = st.modes.onKind kind)
    (hnested : next.modes.Nested) (hnext : next.modes.top ≠ .styleValue)
    (hbalanced : Balanced next.kinds next.modes.toList) : Agrees next where
  nested := hnested
  settled := fun _ => by
    rw [hmodes, hkinds, ModeStack.replay_append_singleton, h.settled htop]
  pending := fun hstyle => absurd hstyle hnext
  balanced := hbalanced

/-- A token that enters a mode. -/
theorem Agrees.push (h : Agrees st) {kind : TokenKind} {mode : Mode}
    (hkind : kind.enters? = some mode) (hmay : mode.mayStandOn st.modes.top = true)
    (hkinds : next.kinds = st.kinds ++ [kind]) (hmodes : next.modes = st.modes.push mode) :
    Agrees next := by
  refine h.onKind ?_ hkinds ?_ ?_ ?_ ?_
  · intro htop
    rw [htop] at hmay
    cases mode <;> cases hmay
  · rw [hmodes, ModeStack.onKind_of_enters _ hkind]
  · rw [hmodes]
    exact h.nested.push hmay
  · rw [hmodes]
    rintro rfl
    exact absurd hkind (by cases kind <;> simp [TokenKind.enters?])
  · rw [hkinds, hmodes]
    exact h.balanced.push hkind

/-- A token that leaves the mode it belongs to. -/
theorem Agrees.pop (h : Agrees st) {kind : TokenKind}
    (hkind : kind.leaves? = some st.modes.top)
    (hkinds : next.kinds = st.kinds ++ [kind]) (hmodes : next.modes = st.modes.pop) :
    Agrees next := by
  refine h.onKind ?_ hkinds ?_ ?_ ?_ ?_
  · intro htop
    rw [htop] at hkind
    exact absurd hkind (by cases kind <;> simp [TokenKind.leaves?])
  · rw [hmodes, ModeStack.onKind_of_leaves _ hkind]
  · rw [hmodes]
    exact h.nested.pop
  · rw [hmodes]
    exact h.nested.top_pop_ne
  · rw [hkinds, hmodes]
    exact h.balanced.pop hkind

/-- The end of an opening tag exchanges the mode in force. -/
theorem Agrees.replace (h : Agrees st) (htop : st.modes.top = .tagAttribute)
    (hkinds : next.kinds = st.kinds ++ [.tagEnd])
    (hmodes : next.modes = st.modes.replace .tagContent) : Agrees next := by
  obtain ⟨lower, below, hbelow, hmay, hnested⟩ := h.nested.exists_below (by simp [htop])
  have hreplaced : next.modes = st.modes.onKind .tagEnd := by
    rw [hmodes]
    simp [ModeStack.replace, ModeStack.onKind, hbelow]
  apply h.onKind (by simp [htop]) hkinds hreplaced
  · rw [hreplaced]
    simp only [ModeStack.onKind, ModeStack.Nested, hbelow]
    refine .on ?_ hnested
    rw [htop] at hmay
    cases lower <;> first | rfl | cases hmay
  · simp [hreplaced, ModeStack.onKind]
  · rw [hkinds, hreplaced]
    apply h.balanced.of_counts
    all_goals
      simp [ModeStack.onKind, ModeStack.count_toList, htop, List.count_append]
      try omega

/-- A style value is pending once its mark is read. -/
theorem Agrees.pushStyle (h : Agrees st) (htop : st.modes.top = .tagAttribute)
    (hkinds : next.kinds = st.kinds) (hmodes : next.modes = st.modes.push .styleValue) :
    Agrees next := by
  have hsettled := h.settled (by simp [htop])
  refine ⟨?_, ?_, ?_, ?_⟩
  · rw [hmodes]
    exact h.nested.push (by rw [htop]; rfl)
  · intro hne
    rw [hmodes] at hne
    exact absurd rfl hne
  · intro _
    rw [hmodes, hkinds, ← hsettled]
  · rw [hmodes, hkinds]
    refine h.balanced.of_counts ?_ ?_ <;> simp [ModeStack.toList_push]

/-- A pending style value is left by whatever is read for it. -/
theorem Agrees.popStyle (h : Agrees st) (htop : st.modes.top = .styleValue)
    {more : List TokenKind} (hmore : ∀ kind ∈ more, kind.isNeutral = true)
    (hkinds : next.kinds = st.kinds ++ more) (hmodes : next.modes = st.modes.pop) :
    Agrees next := by
  have hreplay : next.modes = .replay next.kinds := by
    rw [hmodes, h.pending htop, hkinds, ModeStack.replay_append_neutral _ hmore]
    rfl
  refine ⟨?_, fun _ => hreplay, ?_, ?_⟩
  · rw [hmodes]
    exact h.nested.pop
  · rw [hmodes]
    exact fun hstyle => absurd hstyle h.nested.top_pop_ne
  · rw [hmodes, hkinds]
    refine Balanced.append_neutral (h.balanced.of_counts ?_ ?_) hmore
    all_goals simp [ModeStack.count_toList st.modes, ModeStack.count_pop, htop]

/-- What one reading does to the modes keeps them as its tokens tell. -/
theorem Agrees.of_moves (h : Agrees st) {r : Reading} (hmoves : r.Moves st.modes.top)
    (hkinds : next.kinds = (st.placeAll config r.pieces).kinds)
    (hmodes : next.modes = r.change.apply st.modes) : Agrees next := by
  generalize htop : st.modes.top = mode at hmoves
  cases hmoves with
  | neutral hr =>
      obtain ⟨more, hmore, hneutral⟩ := State.kinds_placeAll_neutral config st hr.2
      rw [hr.1] at hmodes
      exact h.neutral hneutral (hkinds.trans hmore) hmodes
  | brace width lexeme hmay =>
      exact h.push rfl (htop ▸ hmay) (hkinds.trans (State.kinds_place_token config st ..)) hmodes
  | expression width lexeme hmay =>
      exact h.push rfl (htop ▸ hmay) (hkinds.trans (State.kinds_place_token config st ..)) hmodes
  | tag width lexeme hmay =>
      exact h.push rfl (htop ▸ hmay) (hkinds.trans (State.kinds_place_token config st ..)) hmodes
  | content width lexeme =>
      exact h.replace htop (hkinds.trans (State.kinds_place_token config st ..)) hmodes
  | style width => exact h.pushStyle htop hkinds hmodes
  | endBrace width lexeme =>
      exact h.pop (htop ▸ rfl) (hkinds.trans (State.kinds_place_token config st ..)) hmodes
  | endExpression width lexeme =>
      exact h.pop (htop ▸ rfl) (hkinds.trans (State.kinds_place_token config st ..)) hmodes
  | selfClose width lexeme =>
      exact h.pop (htop ▸ rfl) (hkinds.trans (State.kinds_place_token config st ..)) hmodes
  | @close pieces width lexeme hpieces =>
      -- The closing token leaves the mode; what is wrong with it comes after and changes nothing.
      let placed := st.place config (.token .tagClose width lexeme)
      have hclosed : Agrees { placed with modes := st.modes.pop } :=
        h.pop (htop ▸ rfl) (State.kinds_place_token config st ..) rfl
      obtain ⟨more, hmore, hneutral⟩ := State.kinds_placeAll_neutral config placed hpieces
      exact hclosed.neutral hneutral (hkinds.trans hmore) hmodes
  | endStyle hpieces =>
      obtain ⟨more, hmore, hneutral⟩ := State.kinds_placeAll_neutral config st hpieces
      exact h.popStyle htop hneutral (hkinds.trans hmore) hmodes

/-- The modes of every reached state are those that its tokens tell. -/
theorem Reached.agrees {s : Source} (h : Reached config s st) : Agrees st := by
  induction h with
  | start => exact agrees_start s
  | @step st _ _ ih =>
      exact ih.of_moves (moves_read ..) (State.kinds_step config st) (State.modes_step config st)

/-- Whatever the source is, the modes are at every state of the scan nested with `normal` outermost
and style values only on top, they are what the kinds of the tokens tell, up to a style value that
is pending, and the tokens account for the frames of markup, at every state and at the end. -/
theorem modes_replay_tokens (config : ScanConfig) (s : Source) :
    (∀ st, Reached config s st →
      st.modes.Nested ∧ Mode.styleValue ∉ st.modes.below ∧
      (st.modes.top ≠ .styleValue → st.modes = .replay st.kinds) ∧
      (st.modes.top = .styleValue → st.modes = (ModeStack.replay st.kinds).push .styleValue) ∧
      Balanced st.kinds st.modes.toList) ∧
    ∀ scanned, scan config s = some scanned →
      Balanced (scanned.tokens.map Token.kind) scanned.modes.toList := by
  constructor
  · intro st h
    exact ⟨h.agrees.nested, h.agrees.nested.styleValue_notMem_below, h.agrees.settled,
      h.agrees.pending, h.agrees.balanced⟩
  · intro scanned hscan
    obtain ⟨st, h, -, rfl⟩ := exists_reached_of_scan hscan
    have hkinds : (Scanned.ofState st).tokens.map Token.kind = st.kinds ++ [.eof] := by
      simp [Scanned.ofState, State.kinds, Token.ofKind]
    rw [hkinds]
    refine h.agrees.balanced.of_counts ?_ ?_ <;> simp [List.count_append, Scanned.ofState]

/-- After `<a style:` a style value is pending on the attributes of a tag, of which the tokens tell
only the tag. At the end of `<a style:x>` the tag is still open. -/
theorem modes_replay_open_tag :
    (∃ st, Reached {} (.ofString "<a style:x>") st ∧
      st.modes = (ModeStack.replay [.tagOpen]).push .styleValue ∧
      Balanced [.tagOpen] [.normal, .tagAttribute, .styleValue]) ∧
    ∃ scanned, scan {} (.ofString "<a style:x>") = some scanned ∧
      scanned.modes.toList = [.normal, .tagContent] ∧
      Balanced (scanned.tokens.map Token.kind) [.normal, .tagContent] := by
  have hall := modes_replay_tokens {} (.ofString "<a style:x>")
  constructor
  · have hreached : Reached {} (.ofString "<a style:x>")
        ((((State.start (.ofString "<a style:x>")).step {}).step {}).step {}) :=
      .step (.step (.step .start (by decide)) (by decide)) (by decide)
    obtain ⟨-, -, -, hpending, hbalanced⟩ := hall.1 _ hreached
    exact ⟨_, hreached, hpending (by decide), hbalanced⟩
  · obtain ⟨scanned, hscan⟩ := Option.isSome_iff_exists.mp
      (show (scan {} (.ofString "<a style:x>")).isSome = true by decide)
    have hmodes : scanned.modes.toList = [.normal, .tagContent] := by
      have := congrArg (Option.map fun r => r.modes.toList) hscan
      exact (Option.some.inj this).symm.trans (by decide)
    exact ⟨scanned, hscan, hmodes, hmodes ▸ hall.2 scanned hscan⟩

end ComponentLang.Scan
