import WhileLang.Binary64
import WhileLang.Expr

/-!
# Literals from data

A literal can be made from a piece of plain data.  Only integers and booleans are
values; `Expr.ofDatum?` refuses anything else and shows what it got.
-/

namespace WhileLang

inductive Datum where
  | null
  | bool (b : Bool)
  | int (n : Int)
  | float (x : Binary64)
  | text (s : String)
  | list (items : List Datum)
  | record (fields : List (String × Datum))
  deriving Inhabited

namespace Datum

mutual

def render : Datum → String
  | .null => "None"
  | .bool true => "True"
  | .bool false => "False"
  | .int n => n.repr
  | .float x => x.render
  | .text s => quoted s
  | .list items => "[" ++ ", ".intercalate (showItems items) ++ "]"
  | .record fields => "\x7b" ++ ", ".intercalate (showFields fields) ++ "\x7d"

def showItems : List Datum → List String
  | [] => []
  | d :: rest => d.render :: showItems rest

def showFields : List (String × Datum) → List String
  | [] => []
  | (name, d) :: rest => (quoted name ++ ": " ++ d.render) :: showFields rest

end

end Datum

def Datum.refusal (d : Datum) : String :=
  "Literal expects an integer or boolean, got " ++ d.render

/-- The literal for a piece of data, if it is a value. -/
def Expr.ofDatum? : Datum → Option Expr
  | .int n => some (.lit (.int n))
  | .bool b => some (.lit (.bool b))
  | _ => none

end WhileLang
