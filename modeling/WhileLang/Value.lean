/-!
# Values

A program computes with integers of any size and with the two booleans.  A
condition may be either: a boolean decides by itself, an integer holds exactly
when it is zero (`Value.holds`).

A value has two texts: `render` is how a program and a store write it, `debug`
names its constructor as well and is used where trees are shown in full.  Either is
written for every integer; a machine may refuse to write, or to read, a number of
thousands of digits, and such a limit is no part of this library.
-/

namespace WhileLang

inductive Value where
  | int (n : Int)
  | bool (b : Bool)
  deriving DecidableEq

inductive Kind where
  | integer
  | boolean
  deriving DecidableEq

def Kind.name : Kind → String
  | .integer => "integer"
  | .boolean => "boolean"

namespace Value

def kind : Value → Kind
  | .int _ => .integer
  | .bool _ => .boolean

def holds : Value → Bool
  | .int n => n == 0
  | .bool b => b

/-- The value as a program writes it; a negative integer has a leading minus sign. -/
def render : Value → String
  | .int n => n.repr
  | .bool true => "true"
  | .bool false => "false"

def debug : Value → String
  | .int n => "IntVal(value=" ++ n.repr ++ ")"
  | .bool true => "BoolVal(value=True)"
  | .bool false => "BoolVal(value=False)"

end Value

end WhileLang
