import WhileLang.TokenStream

/-!
# Errors in the text of a program

Reading a program stops at the first place where the text cannot go on: a place that
holds no token, a token that does not fit, or an end that comes too early.  The error
keeps that cause and the offset of the place.

To the reader of a message a place is a line and a column, both counted from one.  Every
character moves it one column on, except a line feed, which moves it to the beginning of the
next line.
-/

namespace WhileLang

/-- A line and a column, counted from one. -/
structure Position where
  line : Nat
  column : Nat
  deriving DecidableEq

namespace Position

def start : Position := ⟨1, 1⟩

def advance (p : Position) (c : Char) : Position :=
  if c = '\n' then ⟨p.line + 1, 1⟩ else ⟨p.line, p.column + 1⟩

/-- The position of the character at an offset, or of the end of the text. -/
def ofOffset (text : List Char) (offset : Nat) : Position :=
  (text.take offset).foldl advance start

end Position

inductive ParseFault where
  | lexical (cause : LexicalFault)
  | unexpected (t : Token)
  | unexpectedEnd
  deriving DecidableEq

/-- Why and where a text is not a program. -/
structure ParseError where
  fault : ParseFault
  offset : Nat
  position : Position
  deriving DecidableEq

def ParseFault.text : ParseFault → String
  | .lexical cause => cause.message
  | .unexpected t => "unexpected token '" ++ t.text ++ "'"
  | .unexpectedEnd => "unexpected end of input"

/-- A text with the place it speaks of; without a line it has no place at all. -/
def located (text : String) (line column : Option Int) : String :=
  match line with
  | none => text
  | some line =>
    "line " ++ line.repr ++ ", column " ++ (column.elim "None" Int.repr) ++ ": " ++ text

namespace ParseError

def text (e : ParseError) : String := e.fault.text

def message (e : ParseError) : String :=
  located e.text (some e.position.line) (some e.position.column)

end ParseError

end WhileLang
