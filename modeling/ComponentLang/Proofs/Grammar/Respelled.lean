import ComponentLang.Analysis
import ComponentLang.Proofs.Grammar.Abreast.Program
import ComponentLang.Proofs.Scan.Recased

/-!
# Programs whose words are in another case

The reader asks of a word of the language what it is, and not how it is spelled, except where the
word is a name or says which of the two boolean values it is. So words that are no names may be put
into another case, and the program stays the same, unless a boolean value is spelled `true` in one
case and not in the other.
-/
namespace ComponentLang

namespace Grammar

open Parse
open State (Abreast)

variable {word : String → Prop} {tokens tokens' : List Token}

/-! ## Other texts of words -/

theorem forall₂_takeWhile {α β : Type} {R : α → β → Prop} {p : α → Bool} {q : β → Bool}
    (hpq : ∀ a b, R a b → q b = p a) {as : List α} {bs : List β} (h : List.Forall₂ R as bs) :
    List.Forall₂ R (as.takeWhile p) (bs.takeWhile q) := by
  induction h with
  | nil => exact .nil
  | @cons a b as bs hab _ ih =>
      rw [List.takeWhile_cons, List.takeWhile_cons, hpq a b hab]
      split
      · exact .cons hab ih
      · exact .nil

theorem map_eq_of_forall₂ {α β γ : Type} {R : α → β → Prop} {f : α → γ} {g : β → γ}
    (hfg : ∀ a b, R a b → g b = f a) {as : List α} {bs : List β} (h : List.Forall₂ R as bs) :
    bs.map g = as.map f := by
  induction h with
  | nil => rfl
  | cons hab _ ih => rw [List.map_cons, List.map_cons, hfg _ _ hab, ih]

/-- Readers of tokens and of their respellings begin abreast and come to the same end. -/
theorem abreast_start (h : List.Forall₂ (Token.Respells word) tokens tokens') :
    Abreast word (.nothing (State.start tokens').stop) (.start tokens) (.start tokens') := by
  have hvalid : List.Forall₂ (Token.Respells word) (tokens.filter fun t => !t.kind.isError)
      (tokens'.filter fun t => !t.kind.isError) := by
    refine List.rel_filter ?_ h
    intro t t' ht
    simp only [ht.kind]
  unfold State.start
  dsimp only
  generalize tokens.filter (fun t => !t.kind.isError) = valid at *
  generalize tokens'.filter (fun t => !t.kind.isError) = valid' at *
  have hrest : List.Forall₂ (Token.Respells word) (valid.takeWhile fun t => t.kind != .eof)
      (valid'.takeWhile fun t => t.kind != .eof) :=
    forall₂_takeWhile (fun t t' ht => by rw [ht.kind]) hvalid
  generalize valid.takeWhile (fun t => t.kind != .eof) = rest at *
  generalize valid'.takeWhile (fun t => t.kind != .eof) = rest' at *
  have hlast : rest'.getLast?.map Token.span = rest.getLast?.map Token.span := by
    rw [← List.getLast?_map, ← List.getLast?_map, map_eq_of_forall₂ (fun t t' ht => ht.span) hrest]
  have hkind : valid'.getLast?.map Token.kind = valid.getLast?.map Token.kind := by
    rw [← List.getLast?_map, ← List.getLast?_map, map_eq_of_forall₂ (fun t t' ht => ht.kind) hvalid]
  refine ⟨⟨rest', (List.append_nil _).symm, hrest⟩, False.elim, ⟨rfl, fun _ => ?_⟩, rfl, rfl, rfl,
    rfl, ?_, rfl, rfl⟩
  · have hbehind := List.forall₂_drop rest.length hvalid
    rw [hrest.length_eq] at hbehind ⊢
    dsimp only [Beyond.nothing]
    rw [hlast]
    generalize valid.drop rest'.length = behind at hbehind ⊢
    generalize valid'.drop rest'.length = behind' at hbehind ⊢
    cases hbehind with
    | nil => rfl
    | cons ht _ => exact ht.span.symm
  · rw [hkind, hvalid.length_eq]

/-- Tokens that are read in silence may have other texts as words. -/
theorem parse_respelled (h : List.Forall₂ (Token.Respells word) tokens tokens')
    (hsilent : (parse tokens).diagnostics = []) :
    (parse tokens').diagnostics = [] ∧
      (parse tokens).program.Agrees word (parse tokens').program := by
  obtain ⟨read, v, hreaches, hagrees, hrest, -, -, hdiagnostics, -⟩ :=
    exists_reaches_of_silent (abreast_start h) hsilent fun hnothing => nomatch hnothing
  rw [hreaches.parse_eq hrest, hdiagnostics]
  exact ⟨rfl, hagrees⟩

end Grammar

/-! ## Words in another case -/

namespace Token

variable {word : String → Prop} {mark : String} {s' : Source} {t : Token}

/-- The token with `mark` as its text if it is put into another case. -/
def veiled (mark : String) (s' : Source) (t : Token) : Token :=
  if t.recased s' = t then t else { t with lexeme := mark }

/-- A token stays what it is, or it is a word that has another text. -/
theorem recased_cases (mark : String) (s' : Source) (t : Token) :
    (t.veiled mark s' = t ∧ t.recased s' = t) ∨
      ∃ text, t.kind.isWord = true ∧ text ≠ t.lexeme ∧
        t.veiled mark s' = { t with lexeme := mark } ∧
        t.recased s' = { t with lexeme := text } := by
  by_cases hsame : t.recased s' = t
  · exact .inl ⟨if_pos hsame, hsame⟩
  · cases hword : t.kind.isWord with
    | false => exact absurd (recased_of_not_isWord hword) hsame
    | true =>
        refine .inr ⟨_, rfl, fun hlexeme => hsame ?_, if_neg hsame, recased_of_isWord hword⟩
        rw [recased_of_isWord hword, hlexeme]

/-- A word has another text, and neither text is one that is looked for. -/
theorem respells_text {text text' : String} (hword : t.kind.isWord = true) (htext : word text)
    (harray : text ≠ "Array" ∧ text' ≠ "Array")
    (htrue : t.kind = .boolean → text ≠ "true" ∧ text' ≠ "true") :
    Respells word { t with lexeme := text } { t with lexeme := text' } where
  kind := rfl
  span := rfl
  lexeme := fun _ => ⟨hword, htext⟩
  array := by
    show (text' == "Array") = (text == "Array")
    rw [beq_false_of_ne harray.1, beq_false_of_ne harray.2]
  value := by
    intro hkind
    show (text' == "true") = (text == "true")
    rw [beq_false_of_ne (htrue hkind).1, beq_false_of_ne (htrue hkind).2]

/-- A text that is not looked for may stand in the place of a word that is put into another case,
before and after, unless the word comes to be another boolean value. -/
theorem respells_veiled (hmark : mark ≠ "Array") (hmark' : mark ≠ "true")
    (harray : t.kind.isWord = true → t.lexeme ≠ "Array" ∧ (t.recased s').lexeme ≠ "Array")
    (hvalue : t.kind = .boolean → ((t.recased s').lexeme = "true" ↔ t.lexeme = "true")) :
    t.Respells (fun _ => True) (t.veiled mark s') ∧ (t.veiled mark s').Respells (· = mark) t ∧
      (t.veiled mark s').Respells (· = mark) (t.recased s') := by
  obtain ⟨hveiled, hrecased⟩ | ⟨text, hword, hne, hveiled, hrecased⟩ := t.recased_cases mark s'
  · rw [hveiled, hrecased]
    exact ⟨.refl t, .refl t, .refl t⟩
  · rw [hrecased] at harray hvalue
    obtain ⟨hold, hnew⟩ := harray hword
    have htrue : t.kind = .boolean → t.lexeme ≠ "true" ∧ text ≠ "true" := by
      intro hkind
      have hiff : text = "true" ↔ t.lexeme = "true" := hvalue hkind
      constructor
      · exact fun hlexeme => hne ((hiff.2 hlexeme).trans hlexeme.symm)
      · exact fun htext => hne (htext.trans (hiff.1 htext).symm)
    rw [hveiled, hrecased]
    refine ⟨?_, ?_, ?_⟩
    · exact respells_text hword trivial ⟨hold, hmark⟩ fun hkind => ⟨(htrue hkind).1, hmark'⟩
    · exact respells_text hword rfl ⟨hmark, hold⟩ fun hkind => ⟨hmark', (htrue hkind).1⟩
    · exact respells_text hword rfl ⟨hmark, hnew⟩ fun hkind => ⟨hmark', (htrue hkind).2⟩

end Token

namespace Grammar

variable {tokens : List Token} {s' : Source}

/-- No word that is put into another case is a name: of a property, of a key of an object or of a
type. Some text is none of these names when it stands in the place of such words. -/
def Nameless (tokens : List Token) (s' : Source) : Prop :=
  ∃ mark, mark ≠ "Array" ∧ mark ≠ "true" ∧
    mark ∉ (parse (tokens.map (Token.veiled mark s'))).program.names

/-- Tokens that are read in silence may have words in another case, if no such word is a name or
comes to be another boolean value. -/
theorem parse_recased (hsilent : (parse tokens).diagnostics = [])
    (harray : ∀ t ∈ tokens, t.kind.isWord = true →
      t.lexeme ≠ "Array" ∧ (t.recased s').lexeme ≠ "Array")
    (hnames : Nameless tokens s')
    (hvalue : ∀ t ∈ tokens, t.kind = .boolean →
      ((t.recased s').lexeme = "true" ↔ t.lexeme = "true")) :
    parse (tokens.map (Token.recased s')) = parse tokens := by
  obtain ⟨mark, hmark, hmark', hfresh⟩ := hnames
  have hcases := fun t ht => Token.respells_veiled hmark hmark' (harray t ht) (hvalue t ht)
  have hveil : List.Forall₂ (Token.Respells fun _ => True) tokens
      (tokens.map (Token.veiled mark s')) :=
    List.forall₂_map_right_iff.2 (List.forall₂_same.2 fun t ht => (hcases t ht).1)
  have hback : List.Forall₂ (Token.Respells (· = mark)) (tokens.map (Token.veiled mark s'))
      tokens :=
    List.forall₂_map_left_iff.2 (List.forall₂_same.2 fun t ht => (hcases t ht).2.1)
  have hother : List.Forall₂ (Token.Respells (· = mark)) (tokens.map (Token.veiled mark s'))
      (tokens.map (Token.recased s')) :=
    List.forall₂_map_left_iff.2 <| List.forall₂_map_right_iff.2 <|
      List.forall₂_same.2 fun t ht => (hcases t ht).2.2
  have hquiet := (parse_respelled hveil hsilent).1
  obtain ⟨-, hsame⟩ := parse_respelled hback hquiet
  obtain ⟨hsilent', hsame'⟩ := parse_respelled hother hquiet
  have hclear : ∀ name ∈ (parse (tokens.map (Token.veiled mark s'))).program.names, ¬ name = mark :=
    fun name hname heq => hfresh (heq ▸ hname)
  have hprogram := (hsame'.eq hclear).trans (hsame.eq hclear).symm
  show Parsed.mk _ (parse (tokens.map (Token.recased s'))).diagnostics =
    ⟨(parse tokens).program, (parse tokens).diagnostics⟩
  rw [hsilent, hsilent']
  exact congrArg (Parsed.mk · []) hprogram

end Grammar

/-! ## Analysis -/

/-- If case is ignored, words of a source without mistakes may be put into another case. As long as
no such word is a name, and each boolean value is spelled `true` in both cases or in neither, the
same program is read with the same numbers and places, the same is found about it, and even the
tokens are the same but for the texts of words. -/
theorem analysis_recased {config : ScanConfig} {external : List TypedName} {s s' : Source}
    {a : Analysis} (hconfig : config.keywordCase = .insensitive)
    (ha : Analysis.ofSource? config external s = some a) (hscan : a.scanned.diagnostics = [])
    (hparse : a.parsed.diagnostics = []) (hrecases : s.Recases a.scanned.tokens s')
    (hnames : Grammar.Nameless a.scanned.tokens s')
    (hvalue : ∀ t ∈ a.scanned.tokens, t.kind = .boolean →
      ((t.recased s').lexeme = "true" ↔ t.lexeme = "true")) :
    Analysis.ofSource? config external s' = some { a with
      scanned := { a.scanned with tokens := a.scanned.tokens.map (Token.recased s') } } := by
  unfold Analysis.ofSource? at ha ⊢
  obtain ⟨scanned, hscanned, rfl⟩ := Option.map_eq_some_iff.1 ha
  have hscanned' := Scan.scan_recased hconfig hscanned hscan hrecases
  have harray : ∀ t ∈ scanned.tokens, t.kind.isWord = true →
      t.lexeme ≠ "Array" ∧ (t.recased s').lexeme ≠ "Array" := by
    intro t ht hword
    have hother := List.mem_map_of_mem (f := Token.recased s') ht
    exact ⟨Scan.ne_array_of_scan hconfig hscanned ht hword,
      Scan.ne_array_of_scan hconfig hscanned' hother (by rwa [Token.kind_recased])⟩
  have hparsed := Grammar.parse_recased hparse harray hnames hvalue
  rw [hscanned', Option.map_some]
  unfold Analysis.ofScanned
  dsimp only
  rw [hparsed]

/-- The configuration that ignores the case of words. -/
def ignoringCase : ScanConfig := { keywordCase := .insensitive }

theorem analysis_recased_assignment :
    ∃ a, Analysis.ofSource? ignoringCase [] (.ofString "if a { x.if = False }") = some a ∧
      a.scanned.diagnostics = [] ∧ a.parsed.diagnostics = [] ∧
      Source.Recases (.ofString "if a { x.if = False }") a.scanned.tokens
        (.ofString "IF a { x.if = fALSE }") ∧
      Grammar.Nameless a.scanned.tokens (.ofString "IF a { x.if = fALSE }") ∧
      (∀ t ∈ a.scanned.tokens, t.kind = .boolean →
        ((t.recased (.ofString "IF a { x.if = fALSE }")).lexeme = "true" ↔ t.lexeme = "true")) ∧
      Analysis.ofSource? ignoringCase [] (.ofString "IF a { x.if = fALSE }") = some { a with
        scanned := { a.scanned with
          tokens := a.scanned.tokens.map
            (Token.recased (.ofString "IF a { x.if = fALSE }")) } } := by
  generalize hs : Source.ofString "if a { x.if = False }" = s
  generalize hs' : Source.ofString "IF a { x.if = fALSE }" = s'
  have hresult : (Analysis.ofSource? ignoringCase [] s).isSome = true := by
    subst hs
    decide +kernel
  have hholds : ∀ a ∈ Analysis.ofSource? ignoringCase [] s, a.scanned.diagnostics = [] ∧
      a.parsed.diagnostics = [] ∧
      (∀ i < s.length, s'[i]? ≠ s[i]? →
        ∃ t ∈ a.scanned.tokens, t.kind.isWord = true ∧ t.Covers i) ∧
      "" ∉ (Grammar.parse (a.scanned.tokens.map (Token.veiled "" s'))).program.names ∧
      ∀ t ∈ a.scanned.tokens, t.kind = .boolean →
        ((t.recased s').lexeme = "true" ↔ t.lexeme = "true") := by
    subst hs hs'
    decide +kernel
  have hlower : s'.map SourceUnit.lower = s.map SourceUnit.lower := by
    subst hs hs'
    decide
  obtain ⟨a, ha⟩ := Option.isSome_iff_exists.1 hresult
  obtain ⟨hscan, hparse, hwords, hnames, hvalue⟩ := hholds a ha
  have hrecases := Source.recases_of_lower hlower hwords
  have hnameless : Grammar.Nameless a.scanned.tokens s' := ⟨"", by decide, by decide, hnames⟩
  exact ⟨a, ha, hscan, hparse, hrecases, hnameless, hvalue,
    analysis_recased rfl ha hscan hparse hrecases hnameless hvalue⟩

/-- The values that are written in a program. -/
def Program.literals (p : Program) : List Literal :=
  p.parts.filterMap fun
    | .expr (.literal _ value) => some value
    | _ => none

/-- A boolean value that is spelled `true` becomes another value when it is put into another case,
though it is no name. -/
theorem analysis_recased_true :
    ∃ a a', Analysis.ofSource? ignoringCase [] (.ofString "let x = true") = some a ∧
      a.scanned.diagnostics = [] ∧ a.parsed.diagnostics = [] ∧
      Source.Recases (.ofString "let x = true") a.scanned.tokens (.ofString "let x = TRUE") ∧
      Grammar.Nameless a.scanned.tokens (.ofString "let x = TRUE") ∧
      Analysis.ofSource? ignoringCase [] (.ofString "let x = TRUE") = some a' ∧
      a.parsed.program.literals = [.bool true] ∧ a'.parsed.program.literals = [.bool false] := by
  generalize hs : Source.ofString "let x = true" = s
  generalize hs' : Source.ofString "let x = TRUE" = s'
  have hresults : (Analysis.ofSource? ignoringCase [] s).isSome = true ∧
      (Analysis.ofSource? ignoringCase [] s').isSome = true := by
    subst hs hs'
    decide +kernel
  have hholds : ∀ a ∈ Analysis.ofSource? ignoringCase [] s, a.scanned.diagnostics = [] ∧
      a.parsed.diagnostics = [] ∧
      (∀ i < s.length, s'[i]? ≠ s[i]? →
        ∃ t ∈ a.scanned.tokens, t.kind.isWord = true ∧ t.Covers i) ∧
      "" ∉ (Grammar.parse (a.scanned.tokens.map (Token.veiled "" s'))).program.names ∧
      a.parsed.program.literals = [.bool true] := by
    subst hs hs'
    decide +kernel
  have hholds' : ∀ a' ∈ Analysis.ofSource? ignoringCase [] s',
      a'.parsed.program.literals = [.bool false] := by
    subst hs'
    decide +kernel
  have hlower : s'.map SourceUnit.lower = s.map SourceUnit.lower := by
    subst hs hs'
    decide
  obtain ⟨a, ha⟩ := Option.isSome_iff_exists.1 hresults.1
  obtain ⟨a', ha'⟩ := Option.isSome_iff_exists.1 hresults.2
  obtain ⟨hscan, hparse, hwords, hnames, hliterals⟩ := hholds a ha
  exact ⟨a, a', ha, hscan, hparse, Source.recases_of_lower hlower hwords,
    ⟨"", by decide, by decide, hnames⟩, ha', hliterals, hholds' a' ha'⟩

end ComponentLang
