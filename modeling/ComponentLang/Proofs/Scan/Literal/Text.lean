import ComponentLang.Proofs.Scan.Literal

/-!
# String literals

A string literal denotes a text if plain units and escapes lead from its opening quote to the same
quote. `Denotes` says so apart from the scan, and `EndsAfter` says where any literal ends: a scan
makes a string token of the text exactly where there is one, and an error up to that end elsewhere.
Every text is denoted by some literal, with either quote.
-/
namespace ComponentLang.Scan

/-- What a backslash may stand before, and what the two are together. -/
def escapes : List (Char × Char) :=
  [('n', '\n'), ('t', '\t'), ('r', '\r'), ('0', '\x00'), ('\\', '\\'), ('"', '"'), ('\'', '\'')]

/-- Between two quotes, `body` denotes the text. -/
inductive Denotes (quote : Char) : Source → List Char → Prop
  | nil : Denotes quote [] []
  | plain {c : Char} {body : Source} {text : List Char} : c ≠ quote → c ≠ '\\' → c ≠ '\n' →
      Denotes quote body text → Denotes quote (.char c :: body) (c :: text)
  | escape {c d : Char} {body : Source} {text : List Char} : (c, d) ∈ escapes →
      Denotes quote body text → Denotes quote (.char '\\' :: .char c :: body) (d :: text)

/-- Nothing in `body` ends a literal that began with `quote`. A backslash takes the unit after it
into the literal, whatever that is. -/
inductive Inner (quote : Char) : Source → Prop
  | nil : Inner quote []
  | unit {u : SourceUnit} {body : Source} : u ≠ .char quote → u ≠ .char '\\' → u ≠ .char '\n' →
      Inner quote body → Inner quote (u :: body)
  | escaped {u : SourceUnit} {body : Source} : Inner quote body →
      Inner quote (.char '\\' :: u :: body)

/-- Where a literal ends of which `rest` follows the opening quote: so many units on, with or
without its closing quote. -/
inductive EndsAfter (quote : Char) (rest : Source) : Bool → Nat → Prop
  | closed (body tail : Source) : Inner quote body → rest = body ++ .char quote :: tail →
      EndsAfter quote rest true (body.length + 1)
  | atLineEnd (body tail : Source) : Inner quote body → rest = body ++ .char '\n' :: tail →
      EndsAfter quote rest false body.length
  | atEnd (body : Source) : Inner quote body → rest = body ∨ rest = body ++ [.char '\\'] →
      EndsAfter quote rest false rest.length

variable {quote : Char} {rest body tail : Source} {text : List Char}

theorem mem_escapes_iff {c d : Char} : (c, d) ∈ escapes ↔ unescape? c = some d := by
  constructor
  · intro h
    simp only [escapes, List.mem_cons, List.not_mem_nil, or_false, Prod.mk.injEq] at h
    rcases h with ⟨rfl, rfl⟩ | ⟨rfl, rfl⟩ | ⟨rfl, rfl⟩ | ⟨rfl, rfl⟩ | ⟨rfl, rfl⟩ | ⟨rfl, rfl⟩ |
      ⟨rfl, rfl⟩ <;> rfl
  · intro h
    unfold unescape? at h
    split at h
    case h_8 => cases h
    all_goals
      cases h
      decide

/-! ## Where a literal ends -/

theorem EndsAfter.unit {closed : Bool} {width : Nat} {u : SourceUnit} (hquote : u ≠ .char quote)
    (hslash : u ≠ .char '\\') (hline : u ≠ .char '\n') (h : EndsAfter quote rest closed width) :
    EndsAfter quote (u :: rest) closed (width + 1) := by
  cases h with
  | closed body tail hinner hrest =>
      exact .closed (u :: body) tail (.unit hquote hslash hline hinner) (by rw [hrest]; rfl)
  | atLineEnd body tail hinner hrest =>
      exact .atLineEnd (u :: body) tail (.unit hquote hslash hline hinner) (by rw [hrest]; rfl)
  | atEnd body hinner hrest =>
      exact .atEnd (u :: body) (.unit hquote hslash hline hinner)
        (hrest.imp (congrArg (u :: ·)) (congrArg (u :: ·)))

theorem EndsAfter.escaped {closed : Bool} {width : Nat} (u : SourceUnit)
    (h : EndsAfter quote rest closed width) :
    EndsAfter quote (.char '\\' :: u :: rest) closed (width + 2) := by
  cases h with
  | closed body tail hinner hrest =>
      exact .closed (.char '\\' :: u :: body) tail (.escaped hinner) (by rw [hrest]; rfl)
  | atLineEnd body tail hinner hrest =>
      exact .atLineEnd (.char '\\' :: u :: body) tail (.escaped hinner) (by rw [hrest]; rfl)
  | atEnd body hinner hrest =>
      exact .atEnd (.char '\\' :: u :: body) (.escaped hinner)
        (hrest.imp (congrArg (.char '\\' :: u :: ·)) (congrArg (.char '\\' :: u :: ·)))

theorem endsAfter_quotedBody (quote : Char) (rest : Source) :
    EndsAfter quote rest (quotedBody quote rest).closed (quotedBody quote rest).width := by
  fun_induction quotedBody quote rest with
  | case1 => exact .atEnd [] .nil (.inl rfl)
  | case2 b rest ih =>
      have hunit := ih.unit (u := .invalid b) nofun nofun nofun
      rw [Nat.add_comm] at hunit
      exact hunit
  | case3 rest => exact .atLineEnd [] rest .nil rfl
  | case4 rest => exact .closed [] rest .nil rfl
  | case5 => exact .atEnd [] .nil (.inr rfl)
  | case6 u rest d hd hline hquote ih =>
      have hescaped := ih.escaped u
      rw [Nat.add_comm] at hescaped
      exact hescaped
  | case7 u rest hnone hline hquote ih =>
      have hescaped := ih.escaped u
      rw [Nat.add_comm] at hescaped
      exact hescaped
  | case8 c rest hline hquote hslash ih =>
      have hunit := ih.unit (u := .char c) (by simpa using hquote) (by simpa using hslash)
        (by simpa using hline)
      rw [Nat.add_comm] at hunit
      exact hunit

/-! ## What a literal denotes -/

theorem quotedBody_closing (hquote : quote ≠ '\n') (tail : Source) :
    quotedBody quote (.char quote :: tail) = ⟨1, [], none, true⟩ := by
  unfold quotedBody
  simp [hquote]

theorem quotedBody_plain {c : Char} (hquote : c ≠ quote) (hslash : c ≠ '\\') (hline : c ≠ '\n')
    (rest : Source) :
    quotedBody quote (.char c :: rest) = (quotedBody quote rest).cons c 1 none := by
  rw [quotedBody.eq_def]
  simp [hquote, hslash, hline]

theorem quotedBody_escape {c d : Char} (hquote : quote ≠ '\\') (h : (c, d) ∈ escapes)
    (rest : Source) :
    quotedBody quote (.char '\\' :: .char c :: rest) = (quotedBody quote rest).cons d 2 none := by
  rw [quotedBody.eq_def]
  simp [hquote.symm, mem_escapes_iff.1 h]

theorem quotedBody_of_denotes (hquote : quote = '"' ∨ quote = '\'')
    (h : Denotes quote body text) (tail : Source) :
    quotedBody quote (body ++ .char quote :: tail) = ⟨body.length + 1, text, none, true⟩ := by
  induction h with
  | nil =>
      refine quotedBody_closing ?_ tail
      rcases hquote with rfl | rfl <;> decide
  | plain hclosing hslash hline h ih =>
      rw [List.cons_append, quotedBody_plain hclosing hslash hline, ih]
      simp [QuotedBody.cons, Nat.add_comm]
  | escape hmem h ih =>
      have hslash : quote ≠ '\\' := by rcases hquote with rfl | rfl <;> decide
      rw [List.cons_append, List.cons_append, quotedBody_escape hslash hmem, ih]
      simp [QuotedBody.cons, Nat.add_comm, Nat.add_left_comm]

theorem exists_escape_of_unescape? {u : SourceUnit} {d : Char} (h : unescape? u.toChar = some d) :
    ∃ c, u = .char c ∧ (c, d) ∈ escapes := by
  cases u with
  | char c => exact ⟨c, rfl, mem_escapes_iff.2 h⟩
  | invalid b => cases h

theorem denotes_of_quotedBody (hclosed : (quotedBody quote rest).closed = true)
    (hproblem : (quotedBody quote rest).problem = none) :
    ∃ body tail, Denotes quote body (quotedBody quote rest).value ∧
      rest = body ++ .char quote :: tail := by
  fun_induction quotedBody quote rest with
  | case1 => cases hclosed
  | case2 b rest ih => cases hproblem
  | case3 rest => cases hclosed
  | case4 rest => exact ⟨[], rest, .nil, rfl⟩
  | case5 => cases hclosed
  | case6 u rest d hd hline hquote ih =>
      obtain ⟨body, tail, hdenotes, hrest⟩ := ih hclosed hproblem
      obtain ⟨c, rfl, hmem⟩ := exists_escape_of_unescape? hd
      exact ⟨.char '\\' :: .char c :: body, tail, .escape hmem hdenotes, by rw [hrest]; rfl⟩
  | case7 u rest hnone hline hquote ih => cases hproblem
  | case8 c rest hline hquote hslash ih =>
      obtain ⟨body, tail, hdenotes, hrest⟩ := ih hclosed hproblem
      exact ⟨.char c :: body, tail, .plain hquote hslash hline hdenotes, by rw [hrest]; rfl⟩

/-! ## A literal for every text -/

/-- A character of a text as it is written between two quotes. -/
def spelled (quote c : Char) : List Char :=
  if c = '\n' then ['\\', 'n'] else if c = quote ∨ c = '\\' then ['\\', c] else [c]

theorem denotes_spelled (hquote : quote = '"' ∨ quote = '\'') (text : List Char) :
    Denotes quote ((text.flatMap (spelled quote)).map .char) text := by
  induction text with
  | nil => exact .nil
  | cons c text ih =>
      rw [List.flatMap_cons, List.map_append]
      unfold spelled
      split
      next hline =>
        rw [hline]
        exact .escape (by decide) ih
      next hline =>
        split
        next hspecial =>
          refine .escape ?_ ih
          rcases hspecial with rfl | rfl
          · rcases hquote with rfl | rfl <;> decide
          · decide
        next hspecial =>
          rw [not_or] at hspecial
          exact .plain hspecial.1 hspecial.2 hline ih

/-! ## Literals in a scan -/

theorem readString_of_denotes (hquote : quote = '"' ∨ quote = '\'') (h : Denotes quote body text)
    (tail : Source) :
    readString quote (body ++ .char quote :: tail) =
      .token .string (body.length + 2) (String.ofList text) := by
  unfold readString
  rw [quotedBody_of_denotes hquote h tail]
  rfl

/-- A literal that denotes nothing is one error, of which the width is that of the literal. -/
theorem readString_of_not_denotes
    (h : ¬ ∃ text body tail, Denotes quote body text ∧ rest = body ++ .char quote :: tail) :
    ∃ closed width problem lexeme, EndsAfter quote rest closed width ∧
      (closed = false → problem = .unterminatedString) ∧
      readString quote rest = .error problem (width + 1) lexeme := by
  refine ⟨(quotedBody quote rest).closed, (quotedBody quote rest).width, ?_⟩
  have hends := endsAfter_quotedBody quote rest
  unfold readString
  dsimp only
  split
  next hclosed =>
    split
    next hproblem =>
      obtain ⟨body, tail, hdenotes, hrest⟩ := denotes_of_quotedBody hclosed hproblem
      exact (h ⟨_, body, tail, hdenotes, hrest⟩).elim
    next problem hproblem =>
      exact ⟨problem, _, hends, fun hopen => (nomatch hclosed.symm.trans hopen), rfl⟩
  next hopen => exact ⟨_, _, hends, fun _ => rfl, rfl⟩

theorem step_of_denotes (config : ScanConfig) {st : State}
    (hmode : st.modes.top.holdsLiterals = true) (hquote : quote = '"' ∨ quote = '\'')
    (hrest : st.cursor.rest = .char quote :: (body ++ .char quote :: tail))
    (h : Denotes quote body text) :
    st.step config = st.place config (.token .string (body.length + 2) (String.ofList text)) := by
  refine State.step_of_piece ?_
  rw [State.reading_of_quote hmode hquote hrest, readString_of_denotes hquote h tail]
  rfl

theorem step_of_not_denotes (config : ScanConfig) {st : State}
    (hmode : st.modes.top.holdsLiterals = true) (hquote : quote = '"' ∨ quote = '\'')
    (hrest : st.cursor.rest = .char quote :: rest)
    (h : ¬ ∃ text body tail, Denotes quote body text ∧ rest = body ++ .char quote :: tail) :
    ∃ closed width problem lexeme, EndsAfter quote rest closed width ∧
      (closed = false → problem = .unterminatedString) ∧
      (st.step config).cursor = st.cursor.advance (width + 1) ∧
      (st.step config).emitted = st.note config (st.step config).cursor ++
        .ofError problem lexeme (st.cursor.spanTo (st.step config).cursor) :: st.emitted := by
  obtain ⟨closed, width, problem, lexeme, hends, hopen, hread⟩ := readString_of_not_denotes h
  have hstep : st.step config = st.place config (.error problem (width + 1) lexeme) := by
    refine State.step_of_piece ?_
    rw [State.reading_of_quote hmode hquote hrest, hread]
    rfl
  refine ⟨closed, width, problem, lexeme, hends, hopen, ?_⟩
  rw [hstep, State.cursor_place]
  exact ⟨rfl, State.emitted_place_error problem (width + 1) lexeme⟩

/-- A literal that is all of a source is scanned in one step. -/
theorem scan_of_denotes (config : ScanConfig) (hquote : quote = '"' ∨ quote = '\'')
    (h : Denotes quote body text) :
    ∃ scanned, scan config (.char quote :: (body ++ [.char quote])) = some scanned ∧
      scanned.tokens.map (fun t => (t.kind, t.lexeme)) =
        [(.string, String.ofList text), (.eof, "")] := by
  let s : Source := .char quote :: (body ++ [.char quote])
  let last := (State.start s).place config (.token .string (body.length + 2) (String.ofList text))
  have hstep : (State.start s).step config = last := step_of_denotes config rfl hquote rfl h
  have hfinished : last.finished = true := by
    have hrest : last.cursor.rest = [] := by
      rw [State.cursor_place, Cursor.rest_advance]
      exact List.drop_eq_nil_of_le (by simp [State.start, Cursor.start, s, Piece.width])
    rw [State.finished, hrest]
    exact Bool.or_true _
  have hrun : State.run config (2 * s.length + 1) (.start s) = some last := by
    have hfuel : 2 * s.length + 1 = (2 * (body.length + 1) + 1) + 1 + 1 := by simp [s]; omega
    have hstart : (State.start s).finished = false := rfl
    rw [hfuel, State.run, hstart, if_neg Bool.false_ne_true, hstep, State.run, if_pos hfinished]
  refine ⟨.ofState last, by rw [scan, hrun]; rfl, rfl⟩

/-- Where a quote begins a literal, the next step makes a string token of a text exactly if plain
units and escapes between this quote and the next denote the text, and goes on behind them. It makes
one error otherwise, up to the end of the literal, and a note if that is one error too many. With
this quote every text has a literal. -/
theorem step_quote (config : ScanConfig) (st : State)
    (hmode : st.modes.top.holdsLiterals = true) (hquote : quote = '"' ∨ quote = '\'')
    (hrest : st.cursor.rest = .char quote :: rest) :
    (∀ value : String,
      (st.step config).emitted =
          .ofKind .string value (st.cursor.spanTo (st.step config).cursor) :: st.emitted ↔
        ∃ body tail, Denotes quote body value.toList ∧ rest = body ++ .char quote :: tail ∧
          (st.step config).cursor = st.cursor.advance (body.length + 2)) ∧
    ((¬ ∃ text body tail, Denotes quote body text ∧ rest = body ++ .char quote :: tail) →
      ∃ closed width problem lexeme, EndsAfter quote rest closed width ∧
        (closed = false → problem = .unterminatedString) ∧
        (st.step config).cursor = st.cursor.advance (width + 1) ∧
        (st.step config).emitted = st.note config (st.step config).cursor ++
          .ofError problem lexeme (st.cursor.spanTo (st.step config).cursor) :: st.emitted) ∧
    ∀ value : String, ∃ body : List Char, Denotes quote (body.map .char) value.toList ∧
      ∃ scanned, scan config (.char quote :: (body.map .char ++ [.char quote])) = some scanned ∧
        scanned.tokens.map (fun t => (t.kind, t.lexeme)) = [(.string, value), (.eof, "")] := by
  refine ⟨fun value => ⟨fun htoken => ?_, ?_⟩, step_of_not_denotes config hmode hquote hrest, ?_⟩
  · by_cases h : ∃ text body tail, Denotes quote body text ∧ rest = body ++ .char quote :: tail
    · obtain ⟨text, body, tail, hdenotes, rfl⟩ := h
      have hstep := step_of_denotes config hmode hquote hrest hdenotes
      rw [hstep] at htoken ⊢
      have hvalue : String.ofList text = value :=
        congrArg Token.lexeme (List.cons.inj htoken).1
      refine ⟨body, tail, ?_, rfl, rfl⟩
      rw [← hvalue, String.toList_ofList]
      exact hdenotes
    · obtain ⟨-, -, problem, lexeme, -, -, -, hemitted⟩ :=
        step_of_not_denotes config hmode hquote hrest h
      obtain ⟨newest, older, hnewest, hkind⟩ := State.exists_newest_error config st
        (st.step config).cursor problem lexeme (st.cursor.spanTo (st.step config).cursor) st.emitted
      rw [htoken, hnewest] at hemitted
      rw [← (List.cons.inj hemitted).1] at hkind
      cases hkind
  · rintro ⟨body, tail, hdenotes, rfl, -⟩
    rw [step_of_denotes config hmode hquote hrest hdenotes, String.ofList_toList]
    rfl
  · intro value
    have hdenotes := denotes_spelled hquote value.toList
    obtain ⟨scanned, hscan, htokens⟩ := scan_of_denotes config hquote hdenotes
    rw [String.ofList_toList] at htokens
    exact ⟨_, hdenotes, scanned, hscan, htokens⟩

/-- `"a` -/
def unclosed : Source := .ofString "\"a"

/-- One error and nothing else: no closing quote follows. -/
theorem step_quote_unclosed :
    (State.start unclosed).modes.top.holdsLiterals = true ∧
      (State.start unclosed).cursor.rest = .char '"' :: [.char 'a'] ∧
      (¬ ∃ text body tail, Denotes '"' body text ∧ [.char 'a'] = body ++ .char '"' :: tail) ∧
      (∃ closed width problem lexeme, EndsAfter '"' [.char 'a'] closed width ∧
        (closed = false → problem = .unterminatedString) ∧
        ((State.start unclosed).step {}).cursor =
          (State.start unclosed).cursor.advance (width + 1) ∧
        ((State.start unclosed).step {}).emitted =
          (State.start unclosed).note {} ((State.start unclosed).step {}).cursor ++
            .ofError problem lexeme ((State.start unclosed).cursor.spanTo
              ((State.start unclosed).step {}).cursor) :: (State.start unclosed).emitted) := by
  have hnot : ¬ ∃ text body tail, Denotes '"' body text ∧
      [.char 'a'] = body ++ .char '"' :: tail := by
    rintro ⟨text, body, tail, hdenotes, hrest⟩
    have hbody := quotedBody_of_denotes (.inl rfl) hdenotes tail
    rw [← hrest] at hbody
    exact Bool.false_ne_true (congrArg QuotedBody.closed hbody)
  exact ⟨rfl, rfl, hnot, (step_quote {} (State.start unclosed) rfl (.inl rfl) rfl).2.1 hnot⟩

/-- If no error is allowed, the note is a second error token for the same literal. -/
theorem scan_unclosed_notes :
    (scan { maxErrors := 0 } unclosed).map (fun scanned =>
      scanned.tokens.map fun t => (t.kind, t.problem)) =
      some [(.error, some .unterminatedString), (.error, some (.tooManyErrors 1)),
        (.eof, none)] := by
  decide

end ComponentLang.Scan
