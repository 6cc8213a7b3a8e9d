import Std.Data.ExtTreeMap

namespace PropertyGraph

structure Binary64 where
  bits : UInt64
  deriving DecidableEq, Repr

namespace Binary64

def negative (x : Binary64) : Bool := 0x8000000000000000 ≤ x.bits.toNat

def magnitude (x : Binary64) : Nat := x.bits.toNat % 0x8000000000000000

def exponentField (x : Binary64) : Nat := x.magnitude / 0x10000000000000

def fraction (x : Binary64) : Nat := x.magnitude % 0x10000000000000

/-- The magnitude of the two infinities; what lies above it is not a number. -/
def infinity : Nat := 2047 * 0x10000000000000

def isNaN (x : Binary64) : Bool := infinity < x.magnitude

def isInfinite (x : Binary64) : Bool := x.magnitude = infinity

def isZero (x : Binary64) : Bool := x.magnitude = 0

/-- The place of a datum among all data: negative ones by falling magnitude, then the others by
rising magnitude, so that -0 stands just below 0. -/
def orderKey (x : Binary64) : Int :=
  if x.negative then -(x.magnitude : Int) - 1 else x.magnitude

def totalCompare (x y : Binary64) : Ordering := compare x.orderKey y.orderKey

/-- Equality as numbers: the two zeros are equal, and what is no number equals nothing. -/
def numericEq (x y : Binary64) : Bool :=
  !x.isNaN && !y.isNaN && (x == y || (x.isZero && y.isZero))

/-- The magnitude nearest to `n`, halfway cases going to the even fraction. -/
def magnitudeOfNat (n : Nat) : Nat :=
  if n = 0 then 0
  else
    let top := n.log2
    if top ≤ 52 then (top + 1023) * 0x10000000000000 + (n <<< (52 - top) - 0x10000000000000)
    else
      let unit := 1 <<< (top - 52)
      let kept := n / unit
      let rest := n % unit
      let rounded :=
        if unit < 2 * rest ∨ (unit = 2 * rest ∧ kept % 2 = 1) then kept + 1 else kept
      (top + 1023) * 0x10000000000000 + (rounded - 0x10000000000000)

def ofInt (n : Int) : Binary64 :=
  let magnitude := magnitudeOfNat n.natAbs
  ⟨UInt64.ofNat (if n < 0 then 0x8000000000000000 + magnitude else magnitude)⟩

theorem orderKey_inj {x y : Binary64} (h : x.orderKey = y.orderKey) : x = y := by
  have hx := x.bits.toNat_lt
  have hy := y.bits.toNat_lt
  have bits_eq : x.bits.toNat = y.bits.toNat := by
    simp only [orderKey, negative, magnitude, decide_eq_true_eq] at h
    split at h <;> split at h <;> omega
  cases x; cases y
  exact congrArg Binary64.mk (UInt64.toNat_inj.mp bits_eq)

end Binary64

end PropertyGraph
