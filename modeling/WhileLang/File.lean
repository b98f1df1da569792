import WhileLang.Interpret
import WhileLang.Stmt.Parser
import WhileLang.Text.Newline

/-!
# Programs in files

A file is read with every line break as a line feed, and what it then holds is a program.
`printFile` interprets it and prints what became of it.  Nothing is printed before the
program has come to its end or has been rejected, so an error leaves no text behind.
-/

namespace WhileLang

def Stmt.parseFile (contents : String) : Except ParseError Stmt :=
  parse (String.ofList (unifyNewlines contents.toList))

inductive FileError where
  | parse (e : ParseError)
  | run (e : RunError)
  deriving DecidableEq

def FileError.message : FileError → String
  | .parse e => e.message
  | .run e => e.message

/-- What printing a file leaves behind: the text, and either whether the program ran to its
end or the error that was raised. -/
structure FilePrinting where
  text : String
  result : Except FileError Bool

/-- Interprets the program in a file with the given contents and prints what became of it. -/
def printFile (contents : String) (budget : Nat) : Option FilePrinting :=
  match Stmt.parseFile contents with
  | .error e => some ⟨"", .error (.parse e)⟩
  | .ok program => (program.printout budget).map fun
    | .ok printed => ⟨printed.text, .ok printed.ran⟩
    | .error e => ⟨"", .error (.run e)⟩

end WhileLang
