import ComponentLang.CommandLine
import ComponentLang.Proofs.Grammar.Quoting.Program
import ComponentLang.Proofs.Scan.Lines
import ComponentLang.Proofs.Source.Utf8
import ComponentLang.Proofs.Typing.Spelled

/-!
# The lines of the command line

The output of a command has one line for each token, and the error output one for each diagnostic,
as long as no message has a line end in it. There are three ways for a message to have one. An
escape that is none is shown with the character behind its backslash, which may be a line end. A
problem of the form shows the text of the token that is found, which for a string is its value. And
a type is shown with the keys of its fields, which may be strings as well.
-/
namespace ComponentLang

open Text

/-! ## Problems of the form -/

namespace Grammar

theorem oneLine_expected {expected : Expected} (h : ∀ name ∈ expected.tag?, OneLine name) :
    OneLine expected.text := by
  cases expected with
  | attributeOrEnd name =>
      exact oneLine_append.2 ⟨oneLine_append.2 ⟨by decide, h name rfl⟩, by decide⟩
  | content name =>
      exact oneLine_append.2 ⟨oneLine_append.2 ⟨by decide, h name rfl⟩, by decide⟩
  | blockEnd bracket => cases bracket <;> decide
  | _ => decide

/-- If the names of tags in it do, a problem fits on one line exactly if the text does that is
found. -/
theorem oneLine_cause {cause : Cause} (h : ∀ name ∈ cause.tags, OneLine name) :
    OneLine cause.message ↔ ∀ lexeme ∈ cause.quoted?, OneLine lexeme := by
  cases cause with
  | unexpected expected found =>
      have hexpected : OneLine ("expected " ++ expected.text ++ ", found ") :=
        oneLine_append.2 ⟨oneLine_append.2 ⟨by decide, oneLine_expected fun name hname =>
          h name (Option.mem_toList.2 hname)⟩, by decide⟩
      have hmessage : OneLine (Cause.unexpected expected found).message ↔ OneLine found.text :=
        oneLine_append.trans (and_iff_right hexpected)
      rw [hmessage]
      cases found with
      | endOfInput => exact iff_of_true (by decide) nofun
      | token lexeme =>
          have hfound : OneLine (Found.token lexeme).text ↔ OneLine lexeme :=
            oneLine_append.trans ((and_iff_left (by decide)).trans
              (oneLine_append.trans (and_iff_right (by decide))))
          rw [hfound]
          exact ⟨fun hline _ hlexeme => Option.some.inj hlexeme ▸ hline, fun hline => hline lexeme rfl⟩
  | mismatchedTag opened closed =>
      rw [Cause.tags, List.forall_mem_cons, List.forall_mem_singleton] at h
      refine iff_of_true ?_ nofun
      exact oneLine_append.2 ⟨oneLine_append.2 ⟨oneLine_append.2 ⟨oneLine_append.2
        ⟨by decide, h.1⟩, by decide⟩, h.2⟩, by decide⟩
  | unclosedTag name =>
      rw [Cause.tags, List.forall_mem_singleton] at h
      exact iff_of_true (oneLine_append.2 ⟨oneLine_append.2 ⟨by decide, h⟩, by decide⟩) nofun
  | invalidTarget | iterationLimit => exact iff_of_true (by decide) nofun

/-- The diagnostic says that the token stands where something else is expected. -/
def Rejects (d : Diagnostic) (t : Token) : Prop :=
  ∃ expected : Expected, d = (Problem.ofSpan (.unexpected expected (.token t.lexeme)) t.span).diagnostic

theorem spansLines_of_isName {kind : TokenKind} (h : kind.isName = true) :
    kind.spansLines = false := by
  cases kind <;> first | rfl | cases h

variable {tokens : List Token} (hlined : ∀ t ∈ tokens, t.Lined)

include hlined

theorem oneLine_of_isName {name : String} (h : IsName tokens name) : OneLine name := by
  obtain ⟨t, ht, hkind, rfl⟩ := h
  exact (hlined t ht).lexeme (spansLines_of_isName hkind)

/-- A problem of the form has a line end in it exactly if it rejects a token whose text has. -/
theorem oneLine_parse {d : Diagnostic} (hd : d ∈ (parse tokens).diagnostics) :
    OneLine d.message ↔ ∀ t ∈ tokens, Rejects d t → OneLine t.lexeme := by
  obtain ⟨p, hp, rfl⟩ := (quotes_parse tokens).2 d hd
  have htags : ∀ name ∈ p.cause.tags, OneLine name := fun name hname =>
    oneLine_of_isName hlined (hp.tags name hname)
  constructor
  · rintro hline t - ⟨expected, heq⟩
    have hmessage : p.diagnostic.message =
        (Cause.unexpected expected (.token t.lexeme)).message := congrArg Diagnostic.message heq
    rw [hmessage] at hline
    exact (oneLine_append.1 (oneLine_append.1 (oneLine_append.1 hline).2).1).2
  · intro h
    refine (oneLine_cause htags).2 fun lexeme hlexeme => ?_
    obtain ⟨t, ht, rfl, hline, hcolumn⟩ := hp.quoted lexeme hlexeme
    refine h t ht ?_
    obtain ⟨cause, line, column⟩ := p
    obtain rfl : t.span.line = line := hline
    obtain rfl : t.span.column = column := hcolumn
    match cause, hlexeme with
    | .unexpected expected (.token _), rfl => exact ⟨expected, rfl⟩

/-- A token that stands where something else is expected has its text on one line. -/
def RejectsWithinLines (tokens : List Token) : Prop :=
  ∀ d ∈ (parse tokens).diagnostics, ∀ t ∈ tokens, Rejects d t → OneLine t.lexeme

theorem oneLine_parse_diagnostics :
    (∀ d ∈ (parse tokens).diagnostics, OneLine d.message) ↔ RejectsWithinLines tokens :=
  forall₂_congr fun _ hd => oneLine_parse hlined hd

/-- The keys of properties are the only texts from the program that may bring a line end into a
report about the types. -/
theorem oneLine_check_of_keys (h : ∀ key ∈ (parse tokens).program.keys, OneLine key) :
    ∀ d ∈ ((parse tokens).program.check []).diagnostics, OneLine d.message :=
  oneLine_check ((quotes_parse tokens).1.mono (fun _ => oneLine_of_isName hlined)
    fun key hkey _ => h key hkey)

end Grammar

namespace CommandLine

open Grammar

/-! ## Single lines -/

theorem oneLine_kindName (kind : TokenKind) : OneLine kind.name := by
  cases kind with
  | number kind => cases kind <;> decide
  | keyword word => cases word <;> decide
  | _ => decide

theorem oneLine_tokenLine {t : Token} :
    OneLine (tokenLine t) ↔ ∀ p ∈ t.problem, OneLine p.message := by
  have hstart : OneLine (toString t.span.line ++ ":" ++ toString t.span.column ++ "\t" ++
      t.kind.name ++ "\t" ++ quote t.lexeme) := by
    simp only [oneLine_append, oneLine_toString, oneLine_quote, oneLine_kindName, and_true, true_and]
    decide
  refine oneLine_append.trans ((and_iff_right hstart).trans ?_)
  cases t.problem with
  | none => simp [OneLine]
  | some p =>
      rw [Option.map_some, Option.getD_some, oneLine_append, and_iff_right (by decide)]
      simp

theorem oneLine_diagnosticLine {path : String} (hpath : OneLine path) {d : Diagnostic} :
    OneLine (diagnosticLine path d) ↔ OneLine d.message := by
  have hstage : OneLine d.stage.name := by
    cases d.stage <;> decide
  have hstart : OneLine (path ++ ":" ++ toString d.line ++ ":" ++ toString d.column ++ ": " ++
      d.stage.name ++ " error: ") := by
    simp only [oneLine_append, oneLine_toString, and_true]
    exact ⟨⟨⟨⟨⟨hpath, by decide⟩, by decide⟩, by decide⟩, hstage⟩, by decide⟩
  exact oneLine_append.trans (and_iff_right hstart)

/-! ## Outputs -/

variable {path : String} {config : ScanConfig} {bytes : List UInt8} {scanned : Scan.Scanned}

theorem readLines_tokens (h : Scan.scan config (Source.ofBytes bytes) = some scanned) :
    readLines (lines (scanned.tokens.map tokenLine)) = scanned.tokens.map tokenLine ↔
      scanned.EscapesNoLineEnd := by
  refine (readLines_join_eq_iff _).trans ?_
  rw [List.forall_mem_map, ← Scan.oneLine_problems h]
  exact forall₂_congr fun _ _ => oneLine_tokenLine

theorem readLines_diagnostics (hpath : OneLine path) (diagnostics : List Diagnostic) :
    readLines (lines (diagnostics.map (diagnosticLine path))) =
        diagnostics.map (diagnosticLine path) ↔
      ∀ d ∈ diagnostics, OneLine d.message := by
  refine (readLines_join_eq_iff _).trans ?_
  rw [List.forall_mem_map]
  exact forall₂_congr fun _ _ => oneLine_diagnosticLine hpath

/-- What a check says on the error output, line by line. -/
def checkLines (path : String) (a : Analysis) : List String :=
  if a.diagnostics = [] then ["OK: " ++ path] else a.diagnostics.map (diagnosticLine path)

theorem readLines_showCheck (hpath : OneLine path) (a : Analysis) :
    readLines (showCheck path false a).errors = checkLines path a ↔
      ∀ d ∈ a.diagnostics, OneLine d.message := by
  unfold showCheck checkLines Analysis.hasErrors
  by_cases hclean : a.diagnostics = []
  · have hline : OneLine ("OK: " ++ path) := oneLine_append.2 ⟨by decide, hpath⟩
    have hread : readLines (lines ["OK: " ++ path]) = ["OK: " ++ path] :=
      (readLines_join_eq_iff _).2 (List.forall_mem_singleton.2 hline)
    simpa [hclean, lines] using hread
  · simpa [hclean, withDiagnostics] using readLines_diagnostics hpath a.diagnostics

/-- What the commands print about a file is read back line by line, a token or a diagnostic a line,
exactly if no line end is shown: none behind a backslash, none in a token that stands where
something else is expected, and none in a report about types, where only the key of a property can
bring one in. -/
theorem run_lines (hpath : OneLine path)
    (hscan : Scan.scan config (Source.ofBytes bytes) = some scanned) :
    let a := Analysis.ofScanned [] scanned
    let tokens := (Command.tokens path config false).run (.ok bytes)
    let tree := (Command.parse path config).run (.ok bytes)
    let check := (Command.check path config false).run (.ok bytes)
    (readLines tokens.output = scanned.tokens.map tokenLine ↔ scanned.EscapesNoLineEnd) ∧
      (readLines tokens.errors = scanned.diagnostics.map (diagnosticLine path) ↔
        scanned.EscapesNoLineEnd) ∧
      (readLines tree.errors =
          (scanned.diagnostics ++ a.parsed.diagnostics).map (diagnosticLine path) ↔
        scanned.EscapesNoLineEnd ∧ RejectsWithinLines scanned.tokens) ∧
      (readLines check.errors = checkLines path a ↔
        scanned.EscapesNoLineEnd ∧ RejectsWithinLines scanned.tokens ∧
          ∀ d ∈ a.checked.diagnostics, OneLine d.message) ∧
      ((∀ key ∈ a.parsed.program.keys, OneLine key) →
        ∀ d ∈ a.checked.diagnostics, OneLine d.message) := by
  have hlined := Scan.lined_of_scan hscan
  have hlexical := Scan.oneLine_diagnostics hscan
  have hparsed := oneLine_parse_diagnostics hlined
  intro a
  simp only [Command.run, answer, hscan]
  refine ⟨readLines_tokens hscan, ?_, ?_, ?_, oneLine_check_of_keys hlined⟩
  · exact (readLines_diagnostics hpath _).trans hlexical
  · refine (readLines_diagnostics hpath _).trans ?_
    rw [List.forall_mem_append, hlexical]
    exact and_congr_right fun _ => hparsed
  · refine (readLines_showCheck hpath a).trans ?_
    unfold Analysis.diagnostics
    rw [List.forall_mem_append, List.forall_mem_append, and_assoc]
    exact and_congr hlexical (and_congr_left fun _ => hparsed)

/-- A file with a mistake for each stage, none of which shows a line end. -/
def mistaken : List UInt8 :=
  (Source.ofString "'\\q' let 'b' let x: Int = \x7b 'e': 1 \x7d").bytes

theorem run_lines_mistaken :
    OneLine "input.alt" ∧ ∃ scanned, Scan.scan {} (Source.ofBytes mistaken) = some scanned ∧
      let a := Analysis.ofScanned [] scanned
      let tokens := (Command.tokens "input.alt" {} false).run (.ok mistaken)
      let tree := (Command.parse "input.alt" {}).run (.ok mistaken)
      let check := (Command.check "input.alt" {} false).run (.ok mistaken)
      a.diagnostics.length = 3 ∧
        readLines tokens.output = scanned.tokens.map tokenLine ∧
        readLines tokens.errors = scanned.diagnostics.map (diagnosticLine "input.alt") ∧
        readLines tree.errors =
          (scanned.diagnostics ++ a.parsed.diagnostics).map (diagnosticLine "input.alt") ∧
        readLines check.errors = a.diagnostics.map (diagnosticLine "input.alt") := by
  have hpath : OneLine "input.alt" := by decide
  have hruns : (Scan.scan {} (Source.ofBytes mistaken)).any (fun scanned =>
      decide (scanned.EscapesNoLineEnd ∧ (∀ t ∈ scanned.tokens, OneLine t.lexeme) ∧
        (∀ key ∈ (parse scanned.tokens).program.keys, OneLine key) ∧
        (Analysis.ofScanned [] scanned).diagnostics.length = 3)) = true := by
    decide +kernel
  obtain ⟨scanned, hscan, hfacts⟩ := (Option.any_eq_true _ _).1 hruns
  obtain ⟨hescape, hlexemes, hkeys, hcount⟩ := of_decide_eq_true hfacts
  have hreject : RejectsWithinLines scanned.tokens := fun _ _ t ht _ => hlexemes t ht
  have hmistakes : checkLines "input.alt" (.ofScanned [] scanned) =
      (Analysis.ofScanned [] scanned).diagnostics.map (diagnosticLine "input.alt") :=
    if_neg fun hclean => by
      rw [hclean] at hcount
      cases hcount
  obtain ⟨htokens, hlexical, htree, hcheck, htypes⟩ := run_lines hpath hscan
  exact ⟨hpath, scanned, hscan, hcount, htokens.2 hescape, hlexical.2 hescape,
    htree.2 ⟨hescape, hreject⟩,
    (hcheck.2 ⟨hescape, hreject, htypes hkeys⟩).trans hmistakes⟩

/-- A string in which a backslash stands before a line end. -/
def escapedLineEnd : List UInt8 := (Source.ofString "\"\\\n\"").bytes

/-- A string with a line end in its value, in the place of a name. -/
def misplacedString : List UInt8 := (Source.ofString "let \"a\\nb\"").bytes

/-- A value of the wrong type, in which the key of a property has a line end. -/
def misfitObject : List UInt8 := (Source.ofString "let x: Int = \x7b \"a\\nb\": 1 \x7d").bytes

/-- The numbers of tokens and diagnostics that a file has. -/
def counts (bytes : List UInt8) : Option (Nat × Nat) :=
  (Scan.scan {} (Source.ofBytes bytes)).map fun scanned =>
    (scanned.tokens.length, (Analysis.ofScanned [] scanned).diagnostics.length)

/-- Each of the three files has one diagnostic, which takes two lines. In the first file the token
takes two lines as well. -/
theorem run_breaks_lines :
    (counts escapedLineEnd = some (2, 1) ∧
      let tokens := (Command.tokens "input.alt" {} false).run (.ok escapedLineEnd)
      (readLines tokens.output).length = 3 ∧ (readLines tokens.errors).length = 2) ∧
    (counts misplacedString = some (3, 1) ∧
      let tree := (Command.parse "input.alt" {}).run (.ok misplacedString)
      let check := (Command.check "input.alt" {} false).run (.ok misplacedString)
      (readLines tree.errors).length = 2 ∧ (readLines check.errors).length = 2) ∧
    counts misfitObject = some (11, 1) ∧
      let check := (Command.check "input.alt" {} false).run (.ok misfitObject)
      (readLines check.errors).length = 2 := by
  refine ⟨⟨?_, ?_, ?_⟩, ⟨?_, ?_, ?_⟩, ?_, ?_⟩ <;> decide +kernel

end CommandLine

end ComponentLang
