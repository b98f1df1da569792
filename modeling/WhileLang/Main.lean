import WhileLang.CommandLine

/-!
# The interpreter as a program

Reads the file or the standard input that the command line asks for and writes the
report.  A session answers each line before it reads the next one.
-/

namespace WhileLang.Console

/-- More steps than any run will take. -/
def budget : Nat := Nat.pow 10 18

/-- The words of the system for what opening and reading a file may meet, by its codes. -/
def systemWords : List (UInt32 × String) :=
  [(1, "Operation not permitted"), (2, "No such file or directory"), (5, "Input/output error"),
    (6, "No such device or address"), (12, "Cannot allocate memory"), (13, "Permission denied"),
    (16, "Device or resource busy"), (19, "No such device"), (20, "Not a directory"),
    (21, "Is a directory"), (22, "Invalid argument"), (23, "Too many open files in system"),
    (24, "Too many open files"), (27, "File too large"), (36, "File name too long"),
    (40, "Too many levels of symbolic links"), (75, "Value too large for defined data type")]

/-- Why a file cannot be read, unless it is its contents that are no text.  A code may come with
its sign changed. -/
def reason? : IO.Error → Option String
  | .otherError code details | .resourceBusy code details | .resourceVanished code details
  | .unsupportedOperation code details | .hardwareFault code details
  | .unsatisfiedConstraints code details | .illegalOperation code details
  | .protocolError code details | .timeExpired code details | .alreadyExists _ code details
  | .interrupted _ code details | .noFileOrDirectory _ code details
  | .invalidArgument _ code details | .permissionDenied _ code details
  | .resourceExhausted _ code details | .inappropriateType _ code details
  | .noSuchThing _ code details =>
    some ((systemWords.lookup (min code (-code))).getD details)
  | .unexpectedEof | .userError _ => none

def readFile (path : String) : IO (Except String String) := do
  try
    return .ok (← IO.FS.readFile path)
  catch e =>
    match reason? e with
    | some reason => return .error reason
    | none => throw e

def write (report : Option CommandLine.Report) : IO UInt32 := do
  match report with
  | none => return 1
  | some report =>
    IO.eprint report.stderr
    IO.print report.stdout
    if let some e := report.escaped then
      throw (IO.userError e.message)
    return UInt32.ofNat report.exit

def converse (settings : CommandLine.Settings) : IO UInt32 := do
  let stdin ← IO.getStdin
  let stdout ← IO.getStdout
  stdout.putStr CommandLine.intro
  let mut st : Store := ∅
  repeat
    stdout.putStr CommandLine.prompt
    stdout.flush
    let typed ← stdin.getLine
    match st.answer budget (if typed.isEmpty then "EOF" else typed) with
    | none => return 1
    | some reply =>
      IO.eprint (Event.log settings.verbosity reply.events)
      stdout.putStr reply.output
      if let some e := reply.escaped then
        throw (IO.userError e.message)
      if reply.stop then
        return 0
      st := reply.store
  return 0

end WhileLang.Console

open WhileLang Console in
def main (arguments : List String) : IO UInt32 := do
  match CommandLine.Settings.ofArguments arguments with
  | .error refusal => write (some refusal.report)
  | .ok settings =>
    match settings.file with
    | some file => write (settings.reportFile file (← readFile file) budget)
    | none => converse settings
