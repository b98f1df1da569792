import WhileLang.Text.Printable

/-!
# Quoted texts

A text in a dump stands between quotes and shows all that it holds.  The quotes are
single ones, unless the text holds single quotes and no double ones.  A backslash, the
quote itself and characters that are not printable are written as escapes: the common
ones by a letter, the others by their code point with as few of two, four or eight
hexadecimal digits as it needs.
-/

namespace WhileLang

/-- A text between single quotes, as it is. -/
def inQuotes (text : String) : String := "'" ++ text ++ "'"

namespace Quoted

/-- A number in hexadecimal digits, at least `width` of them. -/
def hexDigits (width n : Nat) : List Char :=
  let digits := Nat.toDigits 16 n
  List.replicate (width - digits.length) '0' ++ digits

def codeEscape (n : Nat) : List Char :=
  if n < 0x100 then '\\' :: 'x' :: hexDigits 2 n
  else if n < 0x10000 then '\\' :: 'u' :: hexDigits 4 n
  else '\\' :: 'U' :: hexDigits 8 n

/-- A character as it is written between the given quotes. -/
def written (quote c : Char) : List Char :=
  if c = quote || c = '\\' then ['\\', c]
  else if c = '\n' then ['\\', 'n']
  else if c = '\r' then ['\\', 'r']
  else if c = '\t' then ['\\', 't']
  else if isPrintable c then [c]
  else codeEscape c.toNat

def quoteOf (cs : List Char) : Char :=
  if cs.contains '\x27' && !cs.contains '\x22' then '\x22' else '\x27'

end Quoted

/-- A text between quotes, with escapes. -/
def quoted (text : String) : String :=
  let quote := Quoted.quoteOf text.toList
  String.ofList (quote :: text.toList.flatMap (Quoted.written quote) ++ [quote])

end WhileLang
