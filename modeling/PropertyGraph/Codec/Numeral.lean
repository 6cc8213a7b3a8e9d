import PropertyGraph.Codec.Document
import PropertyGraph.Number.Scaled

/-!
Numerals: a sign, digits, and possibly a fraction and an exponent of ten. A bare integer of 64 bits
is read exactly; every other numeral is a real, of which as many digits count as fit into 64 bits.
-/

namespace PropertyGraph

structure Numeral where
  negative : Bool
  whole : List Char
  fraction : List Char
  exponent : Option Int
  deriving DecidableEq, Repr

namespace Numeral

def digit (c : Char) : Nat := c.toNat - '0'.toNat

/-- The digits that lengthen a significand within 64 bits, and how many of them there are. -/
def lengthen : List Char → Nat → Nat → Nat × Nat
  | [], significand, taken => (significand, taken)
  | c :: rest, significand, taken =>
      let longer := significand * 10 + digit c
      if longer < 0x10000000000000000 then lengthen rest longer (taken + 1) else (significand, taken)

def real? (negative : Bool) (significand : Nat) (exponent : Int) : Option Document :=
  (Binary64.scaled? (.ofNat significand) exponent).map fun x =>
    .real (if negative then x.negated else x)

/-- A negative zero is a real, as is an integer below all those of 64 bits. -/
def document? (n : Numeral) : Option Document :=
  let (significand, taken) := lengthen n.whole 0 0
  let dropped := n.whole.length - taken
  if n.fraction = [] ∧ n.exponent = none ∧ dropped = 0 then
    if !n.negative then some (.int significand)
    else if 0 < significand ∧ significand ≤ 0x8000000000000000 then some (.int (-significand))
    else real? true significand 0
  else
    let (significand, taken) := lengthen n.fraction significand 0
    real? n.negative significand ((dropped : Int) - taken + n.exponent.getD 0)

def digits? (chars : List Char) : Option (List Char × List Char) :=
  match chars.span Char.isDigit with
  | ([], _) => none
  | split => some split

/-- Without a zero in front of other digits. -/
def whole? (chars : List Char) : Option (List Char × List Char) :=
  match digits? chars with
  | some ('0' :: _ :: _, _) => none
  | split => split

def fraction? : List Char → Option (List Char × List Char)
  | '.' :: rest => digits? rest
  | chars => some ([], chars)

def exponent? : List Char → Option (Option Int × List Char)
  | [] => some (none, [])
  | mark :: rest =>
      if mark = 'e' ∨ mark = 'E' then
        let (negative, rest) := match rest with
          | '-' :: rest => (true, rest)
          | '+' :: rest => (false, rest)
          | _ => (false, rest)
        (digits? rest).map fun (digits, rest) =>
          let n := digits.foldl (fun n c => n * 10 + digit c) 0
          (some (if negative then -(n : Int) else n), rest)
      else none

def ofChars? (chars : List Char) : Option Numeral := do
  let (negative, chars) := match chars with
    | '-' :: rest => (true, rest)
    | _ => (false, chars)
  let (whole, chars) ← whole? chars
  let (fraction, chars) ← fraction? chars
  match ← exponent? chars with
  | (exponent, []) => return ⟨negative, whole, fraction, exponent⟩
  | _ => none

end Numeral

end PropertyGraph
