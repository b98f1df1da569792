import WhileLang.Analysis
import WhileLang.Log
import WhileLang.Run
import WhileLang.Stmt.Parser
import WhileLang.Text.Blank

/-!
# Interactive sessions

A session has a store and takes one line after another.  A line is a command or a
program.  A program is run from the store if it reads no name that is unbound in it,
and when it comes to its end the final store is that of the session; otherwise the
store stays as it is.  A run that fails is reported; a run that meets an unbound name
has no answer, and its error escapes from the session.

The first word of a line decides what it is (`TypedLine.ofString`), with one exception:
a word in capitals with more text behind it begins a program, so that `EOF := 1` is an
assignment and not the end of the session.
-/

namespace WhileLang

/-- A line split into its first word and the rest.  Without a word there is no rest either. -/
structure TypedLine where
  command : Option String
  argument : Option String
  /-- The line without the blanks at its ends. -/
  line : String
  deriving DecidableEq

/-- Whether a character may stand in the first word of a line. -/
def isWordChar (c : Char) : Bool := c.isAlphanum || c == '_'

/-- Whether a word has a capital letter and no small one. -/
def isCapital (word : String) : Bool :=
  word.toList.any Char.isUpper && !word.toList.any Char.isLower

namespace TypedLine

/-- Splits a line that has no blanks at its ends. -/
def split (line : String) : TypedLine :=
  let word := String.ofList (line.toList.takeWhile isWordChar)
  let rest := strip (String.ofList (line.toList.dropWhile isWordChar))
  if isCapital word && rest != "" then ⟨none, none, line⟩ else ⟨some word, some rest, line⟩

/-- Splits a line as it was typed.  A question mark in front asks for help. -/
def ofString (text : String) : TypedLine :=
  let line := strip text
  match line.toList with
  | [] => ⟨none, none, line⟩
  | '?' :: rest => split ("help " ++ String.ofList rest)
  | '!' :: _ => ⟨none, none, line⟩
  | _ => split line

end TypedLine

inductive Request where
  | nothing
  | help (topic : String)
  | showStore
  | reset
  | leave
  | program (text : String)
  deriving DecidableEq

def TypedLine.request (l : TypedLine) : Request :=
  if l.line = "" then .nothing
  else
    match l.command, l.argument with
    | some "help", some topic => .help topic
    | some "store", _ => .showStore
    | some "reset", _ => .reset
    | some "EOF", _ => .leave
    | _, _ => .program l.line

def helpOn : String → String
  | "" =>
    "\nDocumented commands (type help <topic>):\n========================================\n"
      ++ "EOF  help  reset  store\n\n"
  | "EOF" => "Leave the session (Ctrl-D).\n"
  | "help" => "List available commands with \"help\" or detailed help with \"help cmd\".\n"
  | "reset" => "Forget every variable.\n"
  | "store" => "Show the current store.\n"
  | topic => "*** No help on " ++ topic ++ "\n"

structure Reply where
  output : String
  /-- Whether the session ends here. -/
  stop : Bool
  /-- The store of the session from now on. -/
  store : Store
  events : List Event
  /-- The error that escapes from the session, if one does. -/
  escaped : Option RunError
  deriving DecidableEq

/-- Runs a line that is a program, or says why it is not run. -/
def Store.answerProgram (st : Store) (budget : Nat) (text : String) : Option Reply :=
  match Stmt.parse text with
  | .error e => some ⟨"Parse error: " ++ e.message ++ "\n", false, st, [], none⟩
  | .ok program =>
    let events := [Event.parsed program.flatten.length]
    let unbound := program.exposedFrom st.keys
    if unbound.isEmpty then
      (program.run budget st).map fun
        | .finished st' => ⟨st'.render ++ "\n", false, st', events, none⟩
        | .stopped (.failed f) => ⟨"Error: " ++ f.message ++ "\n", false, st, events, none⟩
        | .stopped (.unbound name) => ⟨"", false, st, events, some (.unbound name)⟩
    else
      some ⟨"Rejected: may read before assignment: " ++ unbound.listed ++ "\n", false, st, events,
        none⟩

def Store.answer (st : Store) (budget : Nat) (text : String) : Option Reply :=
  match (TypedLine.ofString text).request with
  | .nothing => some ⟨"", false, st, [], none⟩
  | .help topic => some ⟨helpOn topic, false, st, [], none⟩
  | .showStore => some ⟨st.render ++ "\n", false, st, [], none⟩
  | .reset => some ⟨"\x7b\x7d\n", false, ∅, [], none⟩
  | .leave => some ⟨"\n", true, st, [], none⟩
  | .program text => st.answerProgram budget text

/-- The answers to all lines, also to those behind the end of the session. -/
def Store.answers (st : Store) (budget : Nat) : List String → Option (List Reply)
  | [] => some []
  | line :: rest => do
    let reply ← st.answer budget line
    let replies ← reply.store.answers budget rest
    return reply :: replies

end WhileLang
