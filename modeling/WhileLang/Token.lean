import WhileLang.Operator

/-!
# Tokens

The tokens of a program are names, numbers, operators, the four marks `:=`, `(`, `)`
and `;`, and ten keywords.  Names are words in capitals, keywords are words in small
letters, so no word is both.

A token has the name of its sort, which an outline of the tokens shows, and a text; the
text of a number is its value without leading zeros.  A number may have any number of digits,
and each of them counts: no limit is set on how long a number may be that is read or written.
-/

namespace WhileLang

inductive Keyword where
  | ifWord
  | thenWord
  | elseWord
  | endifWord
  | whileWord
  | doWord
  | endwhileWord
  | skipWord
  | trueWord
  | falseWord
  deriving DecidableEq

namespace Keyword

def word : Keyword → String
  | .ifWord => "if"
  | .thenWord => "then"
  | .elseWord => "else"
  | .endifWord => "endif"
  | .whileWord => "while"
  | .doWord => "do"
  | .endwhileWord => "endwhile"
  | .skipWord => "skip"
  | .trueWord => "true"
  | .falseWord => "false"

def sort : Keyword → String
  | .ifWord => "IF"
  | .thenWord => "THEN"
  | .elseWord => "ELSE"
  | .endifWord => "ENDIF"
  | .whileWord => "WHILE"
  | .doWord => "DO"
  | .endwhileWord => "ENDWHILE"
  | .skipWord => "SKIP"
  | .trueWord => "TRUE"
  | .falseWord => "FALSE"

def all : List Keyword :=
  [.ifWord, .thenWord, .elseWord, .endifWord, .whileWord, .doWord, .endwhileWord, .skipWord,
    .trueWord, .falseWord]

def ofWord? (word : String) : Option Keyword := all.find? fun k => k.word == word

theorem ofWord?_word (k : Keyword) : ofWord? k.word = some k := by
  cases k <;> decide

end Keyword

inductive Token where
  | var (name : String)
  | number (n : Nat)
  | op (op : Operator)
  | assign
  | lparen
  | rparen
  | semi
  | keyword (k : Keyword)
  deriving DecidableEq

namespace Token

def sort : Token → String
  | .var _ => "VAR"
  | .number _ => "NUMBER"
  | .op o => o.name
  | .assign => "ASSIGN"
  | .lparen => "LPAREN"
  | .rparen => "RPAREN"
  | .semi => "SEMI"
  | .keyword k => k.sort

/-- The text of a token, with a number written as its value. -/
def text : Token → String
  | .var name => name
  | .number n => n.repr
  | .op o => o.symbol
  | .assign => ":="
  | .lparen => "("
  | .rparen => ")"
  | .semi => ";"
  | .keyword k => k.word

end Token

end WhileLang
