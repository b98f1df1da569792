import WhileLang.Token

/-!
# Token streams

A text is read into tokens from the left.  Blanks (space, tab, carriage return) and line
feeds separate tokens and are no tokens themselves; a run of digits, however long, is a
number, a run of ASCII letters a word, and `>=`, `<=` are one token each.  A word must be
a keyword or stand in capitals.

A token stream is what such a reading yields: tokens with the offset and the line they
start at, then either the end of the text or the first place that holds no token.
Tokens in front of a fault are part of the stream, so whoever reads it meets the faults
of a text in their order.
-/

namespace WhileLang

inductive LexicalFault where
  /-- The character starts no token. -/
  | illegal (c : Char)
  /-- The word is neither a keyword nor in capitals. -/
  | badWord (word : String)
  deriving DecidableEq

def LexicalFault.message : LexicalFault → String
  | .illegal c => "illegal character " ++ "'" ++ String.singleton c ++ "'"
  | .badWord word => "unexpected word '" ++ word ++ "' (variables are upper-case)"

/-- Tokens in order, each with its offset and line, then the end of the text or a fault. -/
inductive TokenStream where
  | finish (offset line : Nat)
  | fault (cause : LexicalFault) (offset : Nat)
  | token (t : Token) (offset line : Nat) (rest : TokenStream)
  deriving DecidableEq

/-- What stands at the beginning of a text that is not empty. -/
inductive Lexeme where
  /-- One character that separates tokens. -/
  | blank
  /-- A token that takes `more` characters after its first one. -/
  | token (t : Token) (more : Nat)
  | fault (cause : LexicalFault)
  deriving DecidableEq

namespace Lexeme

/-- The characters that separate tokens. -/
def isBlank (c : Char) : Bool := c == ' ' || c == '\t' || c == '\r' || c == '\n'

def ofWord (word : String) (more : Nat) : Lexeme :=
  match Keyword.ofWord? word with
  | some k => .token (.keyword k) more
  | none => if word.toList.all Char.isUpper then .token (.var word) more else .fault (.badWord word)

/-- What a mark or an operator is, given the character after it. -/
def ofSymbol (c : Char) (next : Option Char) : Lexeme :=
  match c with
  | '+' => .token (.op .plus) 0
  | '-' => .token (.op .minus) 0
  | '*' => .token (.op .times) 0
  | '/' => .token (.op .divide) 0
  | '>' => if next = some '=' then .token (.op .ge) 1 else .token (.op .gt) 0
  | '<' => if next = some '=' then .token (.op .le) 1 else .token (.op .lt) 0
  | ':' => if next = some '=' then .token .assign 1 else .fault (.illegal ':')
  | '(' => .token .lparen 0
  | ')' => .token .rparen 0
  | ';' => .token .semi 0
  | c => .fault (.illegal c)

/-- What stands at the beginning of the text `c :: cs`. -/
def ofChars (c : Char) (cs : List Char) : Lexeme :=
  if isBlank c then .blank
  else if c.isDigit then
    let digits := cs.takeWhile Char.isDigit
    .token (.number (Nat.ofDigitChars 10 (c :: digits) 0)) digits.length
  else if c.isAlpha then
    let letters := cs.takeWhile Char.isAlpha
    ofWord (String.ofList (c :: letters)) letters.length
  else ofSymbol c cs.head?

end Lexeme

namespace TokenStream

/-- The tokens of a text whose first character has the given offset and line. -/
def ofChars (offset line : Nat) : List Char → TokenStream
  | [] => .finish offset line
  | c :: cs =>
    match Lexeme.ofChars c cs with
    | .blank => ofChars (offset + 1) (if c = '\n' then line + 1 else line) cs
    | .token t more => .token t offset line (ofChars (offset + 1 + more) line (cs.drop more))
    | .fault cause => .fault cause offset
termination_by cs => cs.length
decreasing_by
  · simp
  · simp only [List.length_drop, List.length_cons]
    omega

def ofString (text : String) : TokenStream := ofChars 0 1 text.toList

def entries : TokenStream → List (Token × Nat × Nat)
  | .finish .. => []
  | .fault .. => []
  | .token t offset line rest => (t, offset, line) :: rest.entries

def tokens : TokenStream → List Token
  | .finish .. => []
  | .fault .. => []
  | .token t _ _ rest => t :: rest.tokens

/-- How the stream ends: with a fault and its offset, or on the last line of the text. -/
def ending : TokenStream → Except (LexicalFault × Nat) Nat
  | .finish _ line => .ok line
  | .fault cause offset => .error (cause, offset)
  | .token _ _ _ rest => rest.ending

end TokenStream

end WhileLang
