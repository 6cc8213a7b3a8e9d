import PropertyGraph.Number.Binary64

/-!
The decimal text of a double: the fewest digits that read back to the same datum, among those the
nearest to its value, written out without an exponent.
-/

namespace PropertyGraph

/-- The integer with these decimal digits, times `10 ^ exponent`. -/
structure Decimal where
  digits : List Char
  exponent : Int
  deriving DecidableEq, Repr

/-- A positive number with the gap that rounding leaves around it, in units of `10 ^ scale`: every
real less than `below / 4` under it or less than `above / 4` over it rounds to it, the two ends
too when `closed`. -/
structure Rounded where
  value : Nat
  scale : Int
  below : Nat
  above : Nat
  closed : Bool
  deriving DecidableEq, Repr

namespace Rounded

/-- The finite positive datum of the given fraction and exponent fields. A power of two lies half
as far from its lower neighbour as from its upper one. -/
def ofFields (exponentField fraction : Nat) : Rounded :=
  let significand := if exponentField = 0 then fraction else 0x10000000000000 + fraction
  let power : Int := if exponentField = 0 then -1074 else (exponentField : Int) - 1075
  let narrow := fraction = 0 ∧ 1 < exponentField
  let unit := if 0 ≤ power then 1 <<< power.toNat else Nat.pow 5 (-power).toNat
  { value := significand * unit
    scale := if 0 ≤ power then 0 else power
    below := if narrow then unit else 2 * unit
    above := 2 * unit
    closed := significand % 2 = 0 }

def reaches (x : Rounded) (quarters gap : Nat) : Bool :=
  quarters < gap || (x.closed && quarters = gap)

/-- The multiple of `grid` that reads back to `x`, as the factor: of the two neighbours of `x` on
the grid the nearer, and the upper one when both are equally near. -/
def onGrid? (x : Rounded) (grid : Nat) : Option Nat :=
  let lower := x.value / grid
  let rest := x.value % grid
  match x.reaches (4 * rest) x.below, x.reaches (4 * (grid - rest)) x.above with
  | true, true => some (if 2 * rest < grid then lower else lower + 1)
  | true, false => some lower
  | false, true => some (lower + 1)
  | false, false => none

def shortestFrom (x : Rounded) : Nat → Nat × Int
  | 0 => (x.value, x.scale)
  | places + 1 =>
      match x.onGrid? (Nat.pow 10 (places + 1)) with
      | some factor => (factor, x.scale + (places + 1 : Nat))
      | none => x.shortestFrom places

/-- The shortest decimal that reads back to `x`, its last digit not zero. -/
def shortest (x : Rounded) : Decimal :=
  let (factor, exponent) := x.shortestFrom ((Nat.toDigits 10 x.value).length - 1)
  let reversed := (Nat.toDigits 10 factor).reverse
  let zeros := (reversed.takeWhile (· == '0')).length
  ⟨(reversed.drop zeros).reverse, exponent + zeros⟩

end Rounded

def Decimal.positional (d : Decimal) : String :=
  if 0 ≤ d.exponent then
    String.ofList (d.digits ++ List.replicate d.exponent.toNat '0')
  else
    let places := (-d.exponent).toNat
    if places < d.digits.length then
      let whole := d.digits.length - places
      String.ofList (d.digits.take whole ++ '.' :: d.digits.drop whole)
    else
      String.ofList
        ('0' :: '.' :: (List.replicate (places - d.digits.length) '0' ++ d.digits))

def Binary64.text (x : Binary64) : String :=
  if x.isNaN then "NaN"
  else
    let unsigned :=
      if x.isInfinite then "inf"
      else if x.isZero then "0"
      else (Rounded.ofFields x.exponentField x.fraction).shortest.positional
    if x.negative then "-" ++ unsigned else unsigned

end PropertyGraph
