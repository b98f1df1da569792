import WhileLang.CommandLine.Arguments
import WhileLang.File
import WhileLang.Outline
import WhileLang.Session
import WhileLang.Text.Newline

/-!
# The command line

Called with a file, the interpreter reads the program in it and runs it, or prints it in
another form.  Called without one, it holds a session on the standard input.

What a call does is worked out as a `Report`, an exit code and the texts for the two
outputs.  Exit code 0 is success, 1 an error of the file, of the program text or of the
run, 2 a program that the gate rejects and also a call that makes no sense.

Without the gate an unbound name is an error of the run like any other.  Behind the gate it
is not expected, and it escapes as it does from a session.
-/

namespace WhileLang.CommandLine

structure Report where
  exit : Nat
  stdout : String
  stderr : String
  /-- The error that escapes from the call, if one does. -/
  escaped : Option RunError
  deriving DecidableEq

def usageText : String :=
  "usage: while-interp [-h] [--emit \x7bast,analysis,source\x7d] [--unchecked] [-v]\n"
    ++ "                    [file]\n"

def helpText : String :=
  usageText
    ++ "\nWHILE interpreter\n\n"
    ++ "positional arguments:\n"
    ++ "  file                  WHILE source file to execute (omit for an interactive\n"
    ++ "                        session)\n\n"
    ++ "options:\n"
    ++ "  -h, --help            show this help message and exit\n"
    ++ "  --emit \x7bast,analysis,source\x7d\n"
    ++ "                        print an intermediate form instead of executing\n"
    ++ "  --unchecked           skip the definite-assignment check and run anyway\n"
    ++ "  -v, --verbose         -v for info, -vv for debug logging on stderr\n"

def Refusal.report : Refusal → Report
  | .help => ⟨0, helpText, "", none⟩
  | .usage e => ⟨2, "", usageText ++ "while-interp: error: " ++ e.message ++ "\n", none⟩

/-- Lines, each with its end. -/
def printLines (lines : List String) : String := "\n".intercalate lines ++ "\n"

def Form.print (program : Stmt) : Form → String
  | .ast => printLines (program.outlineText 0)
  | .analysis => printLines program.report
  | .source => program.render ++ "\n"

namespace Settings

/-- The report on a run that stopped early, after what the log holds. -/
def stoppedReport (log : String) (e : RunError) : Report :=
  ⟨1, "", log ++ "Runtime error: " ++ e.message ++ "\n", none⟩

def reportUnchecked (log : String) (program : Stmt) (budget : Nat) : Option Report :=
  (program.run budget ∅).map fun
    | .finished st => ⟨0, st.printout, log, none⟩
    | .stopped e => stoppedReport log e

/-- The report on a program that is run if the gate accepts it. -/
def reportChecked (log : String) (program : Stmt) (budget : Nat) : Option Report :=
  (program.interpret budget).map fun
    | .rejected names => ⟨2, "", log ++ rejection names, none⟩
    | .ran (.finished st) => ⟨0, st.printout, log, none⟩
    | .ran (.stopped (.failed f)) => stoppedReport log (.failed f)
    | .ran (.stopped (.unbound name)) => ⟨1, "", log, some (.unbound name)⟩

def reportProgram (s : Settings) (program : Stmt) (budget : Nat) : Option Report :=
  let parsed := Event.parsed program.flatten.length
  match s.emit with
  | some form => some ⟨0, form.print program, Event.log s.verbosity [parsed], none⟩
  | none =>
    if s.unchecked then reportUnchecked (Event.log s.verbosity [parsed]) program budget
    else reportChecked (Event.log s.verbosity [parsed, program.gateEvent]) program budget

/-- The report on a file, given what it holds, or in the words of the system why it cannot be
read. -/
def reportFile (s : Settings) (file : String) (contents : Except String String)
    (budget : Nat) : Option Report :=
  match contents with
  | .error reason => some ⟨1, "", "Cannot read " ++ file ++ ": " ++ reason ++ "\n", none⟩
  | .ok text =>
    match Stmt.parseFile text with
    | .error e => some ⟨1, "", file ++ ": " ++ e.message ++ "\n", none⟩
    | .ok program => s.reportProgram program budget

end Settings

def intro : String := "WHILE interpreter. Type help or ? to list commands.\n\n"

def prompt : String := "while> "

/-- Holds the rest of a session on the given lines; the end of the lines acts as the line `EOF`. -/
def converse (budget verbosity : Nat) (st : Store) : List String → Option Report
  | [] =>
    (st.answer budget "EOF").map fun reply =>
      ⟨0, prompt ++ reply.output, Event.log verbosity reply.events, none⟩
  | line :: rest => do
    let reply ← st.answer budget line
    let stdout := prompt ++ reply.output
    let stderr := Event.log verbosity reply.events
    if let some e := reply.escaped then return ⟨1, stdout, stderr, some e⟩
    if reply.stop then return ⟨0, stdout, stderr, none⟩
    let report ← converse budget verbosity reply.store rest
    return { report with stdout := stdout ++ report.stdout, stderr := stderr ++ report.stderr }

def reportSession (s : Settings) (stdin : String) (budget : Nat) : Option Report :=
  (converse budget s.verbosity ∅ (textLines stdin)).map fun report =>
    { report with stdout := intro ++ report.stdout }

def run (arguments : List String) (read : String → Except String String) (stdin : String)
    (budget : Nat) : Option Report :=
  match Settings.ofArguments arguments with
  | .error refusal => some refusal.report
  | .ok settings =>
    match settings.file with
    | some file => settings.reportFile file (read file) budget
    | none => reportSession settings stdin budget

end WhileLang.CommandLine
