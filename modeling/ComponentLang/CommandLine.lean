import ComponentLang.Report.Summary
import ComponentLang.Report.Tree
import ComponentLang.Source.Utf8

/-!
# The command line

Three commands read a file and show its tokens, its tree or the result of a check. What they show
goes to the output and the diagnostics go to the error output, one to a line, but for a check in
JSON, which holds them. The exit status tells a clean file from one with diagnostics and from one
that cannot be read.
-/
namespace ComponentLang.CommandLine

inductive Command where
  | version
  | tokens (path : String) (config : ScanConfig) (json : Bool)
  | parse (path : String) (config : ScanConfig)
  | check (path : String) (config : ScanConfig) (json : Bool)
  deriving DecidableEq, Repr

def Command.path? : Command → Option String
  | .version => none
  | .tokens path _ _ => some path
  | .parse path _ => some path
  | .check path _ _ => some path

/-! ## Arguments -/

/-- The arguments of a command, as far as they are read. Each may be given once. -/
structure Arguments where
  path : Option String
  maxErrors : Option Nat
  ignoreCase : Bool
  noScientific : Bool
  json : Bool
  deriving DecidableEq, Repr

namespace Arguments

def empty : Arguments := ⟨none, none, false, false, false⟩

/-- A number of at most 64 bits, perhaps with a plus. -/
def number? (text : String) : Option Nat :=
  let digits := match text.toList with
    | '+' :: rest => rest
    | other => other
  if digits.isEmpty || !digits.all Char.isDigit then none
  else
    let n := digits.foldl (fun n c => 10 * n + (c.toNat - '0'.toNat)) 0
    if n < UInt64.size then some n else none

def setPath? (a : Arguments) (path : String) : Option Arguments :=
  if a.path.isNone && path ≠ "" then some { a with path := some path } else none

def setMaxErrors? (a : Arguments) (text : String) : Option Arguments :=
  if a.maxErrors.isNone then (number? text).map fun n => { a with maxErrors := some n } else none

/-- What follows `start` in a text that begins with it. -/
def after? (start : String) (text : String) : Option String :=
  if start.toList.isPrefixOf text.toList then
    some (String.ofList (text.toList.drop start.toList.length))
  else none

/-- Set the switch that an option names. -/
def setSwitch? (a : Arguments) (option : String) : Option Arguments :=
  if option = "--case-insensitive-keywords" then
    if a.ignoreCase then none else some { a with ignoreCase := true }
  else if option = "--no-scientific" then
    if a.noScientific then none else some { a with noScientific := true }
  else if option = "--json" then
    if a.json then none else some { a with json := true }
  else none

/-- What follows the hyphen in an argument with one hyphen and letters after it. -/
def letters? (text : String) : Option (List Char) :=
  match text.toList with
  | '-' :: '-' :: _ => none
  | '-' :: c :: rest => some (c :: rest)
  | _ => none

/-- Whether an argument asks for a log, which may be asked for again and again to get more of it.
The log is no part of what a command shows. -/
def isVerbose (text : String) : Bool :=
  text == "--verbose" || (letters? text).any fun letters => letters.all (· == 'v')

/-- Whether an argument before the command asks for the version: the word, or its letter first in
a row of letters but for those that ask for a log. -/
def asksVersion (text : String) : Bool :=
  text == "--version" ||
    (letters? text).any fun letters => (letters.dropWhile (· == 'v')).head? == some 'V'

/-- Whether an argument is an option and no path. A single hyphen is a path. -/
def isOption (text : String) : Bool :=
  match text.toList with
  | '-' :: _ :: _ => true
  | _ => false

/-- Paths alone, as after two hyphens. -/
def readPaths? (a : Arguments) : List String → Option Arguments
  | [] => some a
  | path :: rest => (a.setPath? path).bind fun a => readPaths? a rest

/-- An argument that stands for itself: a path, a switch or an option with its value. -/
def readOne? (a : Arguments) (text : String) : Option Arguments :=
  if !isOption text then a.setPath? text
  else if isVerbose text then some a
  else match after? "--max-errors=" text with
    | some value => a.setMaxErrors? value
    | none => a.setSwitch? text

/-- Options and paths in any order. -/
def read? (a : Arguments) : List String → Option Arguments
  | [] => some a
  | text :: rest =>
    if text = "--" then readPaths? a rest
    else if text = "--max-errors" then
      match rest with
      | [] => none
      | value :: rest => (a.setMaxErrors? value).bind fun a => read? a rest
    else (a.readOne? text).bind fun a => read? a rest

def config (a : Arguments) : ScanConfig :=
  let default : ScanConfig := {}
  { maxErrors := a.maxErrors.getD default.maxErrors
    keywordCase := if a.ignoreCase then .insensitive else .sensitive
    scientificNotation := !a.noScientific }

end Arguments

/-- The command of a word and the arguments after it. -/
def Command.ofWord? (word : String) (rest : List String) : Option Command := do
  let a ← Arguments.empty.read? rest
  let path ← a.path
  match word with
  | "tokens" => return .tokens path a.config a.json
  | "parse" => if a.json then none else return .parse path a.config
  | "check" => return .check path a.config a.json
  | _ => none

/-- The command that the arguments of the program give, if they give one. Options for the log may
stand before the command, and the first to ask for the version wins over all that follows. -/
def Command.ofArgs? : List String → Option Command
  | [] => none
  | word :: rest =>
    if Arguments.asksVersion word then some .version
    else if Arguments.isVerbose word then ofArgs? rest
    else ofWord? word rest

/-! ## Answers -/

/-- What the program leaves behind. -/
structure Outcome where
  exit : Nat
  output : String
  errors : String
  deriving DecidableEq, Repr

/-- Why a file cannot be read. -/
inductive ReadError where
  | noSuchFile
  | permissionDenied
  | notADirectory
  | isADirectory
  | nameTooLong
  | tooManyLinks
  | other (reason : String)
  deriving DecidableEq, Repr

/-- The words of the system, with the number that it gives the error. -/
def ReadError.message : ReadError → String
  | .noSuchFile => "No such file or directory (os error 2)"
  | .permissionDenied => "Permission denied (os error 13)"
  | .notADirectory => "Not a directory (os error 20)"
  | .isADirectory => "Is a directory (os error 21)"
  | .nameTooLong => "File name too long (os error 36)"
  | .tooManyLinks => "Too many levels of symbolic links (os error 40)"
  | .other reason => reason

/-- Why a command cannot do its work. -/
inductive Failure where
  | usage
  | unreadable (path : String) (error : ReadError)
  | endlessScan (path : String)
  deriving DecidableEq, Repr

def Failure.message : Failure → String
  | .usage => "expected tokens, parse or check and the path of a file"
  | .unreadable path error => "cannot read " ++ path ++ ": " ++ error.message
  | .endlessScan path => "the scan of " ++ path ++ " does not end"

namespace Outcome

def ofFailure (f : Failure) : Outcome := ⟨2, "", "Error: " ++ f.message ++ "\n"⟩

end Outcome

def lines (items : List String) : String := String.join (items.map fun line => line ++ "\n")

/-- A diagnostic of a file, on one line. -/
def diagnosticLine (path : String) (d : Diagnostic) : String :=
  path ++ ":" ++ toString d.line ++ ":" ++ toString d.column ++ ": " ++ d.stage.name ++ " error: " ++
    d.message

/-- A token on one line, its parts with tabs between them. -/
def tokenLine (t : Token) : String :=
  toString t.span.line ++ ":" ++ toString t.span.column ++ "\t" ++ t.kind.name ++ "\t" ++
    Text.quote t.lexeme ++ ((t.problem.map fun p => "\t" ++ p.message).getD "")

def status (diagnostics : List Diagnostic) : Nat := if diagnostics.isEmpty then 0 else 1

/-- An output with the diagnostics of a file on the error output. -/
def withDiagnostics (path output : String) (diagnostics : List Diagnostic) : Outcome :=
  ⟨status diagnostics, output, lines (diagnostics.map (diagnosticLine path))⟩

def showTokens (path : String) (json : Bool) (scanned : Scan.Scanned) : Outcome :=
  let output :=
    if json then (Report.tokensJson scanned.tokens).render 0 ++ "\n"
    else lines (scanned.tokens.map tokenLine)
  withDiagnostics path output scanned.diagnostics

def showTree (path : String) (scanned : Scan.Scanned) : Outcome :=
  let parsed := Grammar.parse scanned.tokens
  withDiagnostics path ((Report.program parsed.program).render 0 ++ "\n")
    (scanned.diagnostics ++ parsed.diagnostics)

def showCheck (path : String) (json : Bool) (a : Analysis) : Outcome :=
  if json then ⟨status a.diagnostics, (Report.checkJson path a).render 0 ++ "\n", ""⟩
  else if a.hasErrors then withDiagnostics path "" a.diagnostics
  else ⟨0, "", "OK: " ++ path ++ "\n"⟩

/-- The answer about a file with the given bytes. -/
def answer (path : String) (config : ScanConfig) (bytes : List UInt8)
    (present : Scan.Scanned → Outcome) : Outcome :=
  match Scan.scan config (Source.ofBytes bytes) with
  | some scanned => present scanned
  | none => .ofFailure (.endlessScan path)

def versionText : String := "alterion 0.3.0\n"

/-- Carry out a command, given the bytes of its file or the reason why it cannot be read. -/
def Command.run (command : Command) (file : Except ReadError (List UInt8)) : Outcome :=
  match command, file with
  | .version, _ => ⟨0, versionText, ""⟩
  | .tokens path config json, .ok bytes => answer path config bytes (showTokens path json)
  | .parse path config, .ok bytes => answer path config bytes (showTree path)
  | .check path config json, .ok bytes =>
    answer path config bytes fun scanned => showCheck path json (.ofScanned [] scanned)
  | .tokens path _ _, .error error => .ofFailure (.unreadable path error)
  | .parse path _, .error error => .ofFailure (.unreadable path error)
  | .check path _ _, .error error => .ofFailure (.unreadable path error)

end ComponentLang.CommandLine
