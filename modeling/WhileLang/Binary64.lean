/-!
# Floating-point numbers

The numbers of the binary format with 64 bits.  A finite one is a whole number of units
of `2 ^ (-1074)`, the smallest there are: its mantissa has at most 53 bits and is followed by
`shift` zero bits, where the shift is zero unless the mantissa has exactly 53.

`Binary64.ofDecimal` takes a decimal number to the nearest of them.

A number is shown with the fewest digits that read back as it: of all decimal numbers
that round to it, one on the coarsest grid of multiples of a power of ten, and on that
grid the nearest one.  Two that are equally near are decided for the even one.  The powers
of ten are tried from the highest one on, which makes the first hit the coarsest.  Ordinary
numbers are then written with a point, and very large or very small ones with an exponent.
-/

namespace WhileLang

inductive Binary64 where
  /-- The number `mantissa * 2 ^ shift` units from zero. -/
  | finite (negative : Bool) (mantissa shift : Nat)
  | infinite (negative : Bool)
  | nan
  deriving DecidableEq

namespace Binary64

/-- A quotient rounded to the nearest whole number, a half to the even one. -/
def roundDiv (num den : Nat) : Nat :=
  let whole := num / den
  let twice := 2 * (num % den)
  if twice < den || (twice = den && whole % 2 = 0) then whole else whole + 1

/-- The number nearest to `num / den` units, which is infinite beyond the largest finite one. -/
def ofUnits (negative : Bool) (num den : Nat) : Binary64 :=
  let shift := (num / den).log2 - 52
  let mantissa := roundDiv num (den * Nat.pow 2 shift)
  let (mantissa, shift) :=
    if mantissa = Nat.pow 2 53 then (Nat.pow 2 52, shift + 1) else (mantissa, shift)
  if 2045 < shift then .infinite negative else .finite negative mantissa shift

/-- The number nearest to `digits * 10 ^ scale`.  Far beyond both ends of the format the power
is not worked out. -/
def ofDecimal (negative : Bool) (digits : Nat) (scale : Int) : Binary64 :=
  let size := digits.repr.length + scale
  if digits = 0 || size < -400 then .finite negative 0 0
  else if 400 < size then .infinite negative
  else ofUnits negative (digits * Nat.pow 10 scale.toNat * Nat.pow 2 1074)
    (Nat.pow 10 (-scale).toNat)

/-! ### The shortest digits -/

/-- How many quarters of its last place lie between a number and the lower end of the
decimal numbers that round to it: below a power of two the next number is nearer. -/
def quartersBelow (mantissa shift : Nat) : Nat :=
  if mantissa = Nat.pow 2 52 && 0 < shift then 1 else 2

/-- Quarters of the last place of a number with the given shift, in the smallest unit common
to all grids. -/
def quarters (count shift : Nat) : Nat := count * Nat.pow 2 shift * Nat.pow 10 324

/-- A point of the grid of the power `10 ^ (power - 324)`, in the same unit. -/
def point (count power : Nat) : Nat := count * Nat.pow 10 power * Nat.pow 2 1076

/-- Whether a point of a grid rounds to a number.  A point in the middle between two numbers
rounds to the one with the even mantissa. -/
def readsBack (mantissa shift power count : Nat) : Bool :=
  let low := quarters (4 * mantissa - quartersBelow mantissa shift) shift
  let high := quarters (4 * mantissa + 2) shift
  let p := point count power
  if mantissa % 2 = 0 then low ≤ p && p ≤ high else low < p && p < high

/-- The point of a grid that stands for a number, if one of its two neighbours reads back. -/
def onGrid? (mantissa shift power : Nat) : Option Nat :=
  let exact := quarters (4 * mantissa) shift
  let below := exact / point 1 power
  match readsBack mantissa shift power below, readsBack mantissa shift power (below + 1) with
  | false, false => none
  | true, false => some below
  | false, true => some (below + 1)
  | true, true =>
    let sum := point below power + point (below + 1) power
    some (if 2 * exact < sum || (2 * exact = sum && below % 2 = 0) then below else below + 1)

/-- The number of grids, the coarsest of which is that of `10 ^ 309`. -/
def grids : Nat := 634

/-- The digits of a number other than zero, and the grid that they are on. -/
def shortest? (mantissa shift : Nat) : Option (Nat × Nat) :=
  (List.range grids).findSome? fun i =>
    (onGrid? mantissa shift (grids - 1 - i)).map fun count => (count, grids - 1 - i)

/-! ### Layout -/

def exponent (n : Int) : List Char :=
  let digits := n.natAbs.repr.toList
  (if n < 0 then '-' else '+') :: (if digits.length < 2 then '0' :: digits else digits)

/-- The part behind the point, which has at least one digit. -/
def fraction (digits : List Char) : List Char := if digits.isEmpty then ['0'] else digits

/-- Digits of which the first stands for `10 ^ scale`.  From `10 ^ 16` on, and below
`10 ^ (-4)`, they get an exponent. -/
def layout (digits : List Char) (scale : Int) : List Char :=
  if scale < -4 || 16 ≤ scale then
    match digits with
    | [] => ['0']
    | [d] => d :: 'e' :: exponent scale
    | d :: rest => d :: '.' :: rest ++ 'e' :: exponent scale
  else if scale < 0 then
    '0' :: '.' :: List.replicate (scale.natAbs - 1) '0' ++ digits
  else
    let whole := scale.toNat + 1
    (digits ++ List.replicate (whole - digits.length) '0').take whole
      ++ '.' :: fraction (digits.drop whole)

def magnitude (mantissa shift : Nat) : List Char :=
  match shortest? mantissa shift with
  | some (count, power) =>
    let digits := count.repr.toList
    layout digits (digits.length - 1 + power - 324)
  | none => ['0', '.', '0']

def render : Binary64 → String
  | .finite negative mantissa shift =>
    let body := if mantissa = 0 then ['0', '.', '0'] else magnitude mantissa shift
    String.ofList (if negative then '-' :: body else body)
  | .infinite negative => if negative then "-inf" else "inf"
  | .nan => "nan"

end Binary64

end WhileLang
