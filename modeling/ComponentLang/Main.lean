import ComponentLang.CommandLine

/-!
# The program

Reading the file of a command and printing what the command leaves behind.
-/
namespace ComponentLang.CommandLine

/-- The number that the system gives an error, which may come as its negative in 32 bits. -/
def errorNumber (code : UInt32) : Nat := if code < 0x80000000 then code.toNat else (-code).toNat

def ReadError.ofNumber (code : UInt32) (details : String) : ReadError :=
  match errorNumber code with
  | 2 => .noSuchFile
  | 13 => .permissionDenied
  | 20 => .notADirectory
  | 21 => .isADirectory
  | 36 => .nameTooLong
  | 40 => .tooManyLinks
  | number => .other (details ++ " (os error " ++ toString number ++ ")")

def ReadError.ofSystemError : IO.Error → ReadError
  | .noFileOrDirectory _ code details | .interrupted _ code details
  | .alreadyExists _ code details | .invalidArgument _ code details
  | .permissionDenied _ code details | .resourceExhausted _ code details
  | .inappropriateType _ code details | .noSuchThing _ code details
  | .otherError code details | .resourceBusy code details | .resourceVanished code details
  | .unsupportedOperation code details | .hardwareFault code details
  | .unsatisfiedConstraints code details | .illegalOperation code details
  | .protocolError code details | .timeExpired code details => .ofNumber code details
  | .unexpectedEof => .other "unexpected end of file"
  | .userError message => .other message

def readFile (path : String) : IO (Except ReadError (List UInt8)) := do
  match ← (IO.FS.readBinFile path).toBaseIO with
  | .ok bytes => return .ok bytes.toList
  | .error error => return .error (.ofSystemError error)

/-- What the program does for its arguments. -/
def outcome (arguments : List String) : IO Outcome := do
  match Command.ofArgs? arguments with
  | none => return .ofFailure .usage
  | some command =>
    let file ← match command.path? with
      | some path => readFile path
      | none => pure (.ok [])
    return command.run file

end ComponentLang.CommandLine

def main (arguments : List String) : IO UInt32 := do
  let outcome ← ComponentLang.CommandLine.outcome arguments
  (← IO.getStdout).putStr outcome.output
  (← IO.getStderr).putStr outcome.errors
  return outcome.exit.toUInt32
