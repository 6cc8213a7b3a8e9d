import PropertyGraph.Number.Binary64

/-!
Decimal significands scaled by powers of ten: the double that a decimal numeral stands for when
its significand and the power are rounded one after the other.
-/

namespace PropertyGraph

namespace Binary64

/-- The greatest power of ten among the doubles is `10 ^ 308`. -/
def greatestPower : Nat := 308

def powerOfTen (exponent : Nat) : Float := Float.ofScientific 1 false exponent

/-- Division by `10 ^ exponent`, by the greatest power as often as it goes; zero stays zero. -/
def dividedByPower (x : Float) (exponent : Nat) : Float :=
  if exponent ≤ greatestPower then x / powerOfTen exponent
  else if x == 0 then x
  else dividedByPower (x / powerOfTen greatestPower) (exponent - greatestPower)
termination_by exponent
decreasing_by simp only [greatestPower] at *; omega

def scaled? (significand : UInt64) (exponent : Int) : Option Binary64 :=
  let x := significand.toFloat
  let scaled :=
    if exponent < 0 then dividedByPower x exponent.natAbs
    else if exponent.natAbs ≤ greatestPower then x * powerOfTen exponent.natAbs
    else if x == 0 then x
    else powerOfTen greatestPower * powerOfTen greatestPower
  if scaled.isInf then none else some ⟨scaled.toBits⟩

def negated (x : Binary64) : Binary64 := ⟨x.bits ^^^ 0x8000000000000000⟩

end Binary64

end PropertyGraph
