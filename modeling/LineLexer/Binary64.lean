import LineLexer.Decimal

/-! Binary64 numbers by their bits. Without the sign bit the bits of a number are a natural
number, its magnitude, and magnitudes are ordered as the values are: rounding is a function
from ratios to magnitudes. -/

namespace LineLexer

structure Binary64 where
  bits : UInt64
deriving DecidableEq, Repr

namespace Binary64

/-- The magnitude of infinity. A larger one is no number. -/
def infiniteMagnitude : Nat := 2047 * Nat.pow 2 52

def magnitude (x : Binary64) : Nat := x.bits.toNat % Nat.pow 2 63

def isNegative (x : Binary64) : Bool := Nat.pow 2 63 ≤ x.bits.toNat

def isNaN (x : Binary64) : Bool := infiniteMagnitude < x.magnitude

def isInfinite (x : Binary64) : Bool := x.magnitude == infiniteMagnitude

def isFinite (x : Binary64) : Bool := x.magnitude < infiniteMagnitude

def ofMagnitude (m : Nat) : Binary64 := ⟨UInt64.ofNat m⟩

/-- The value of a finite magnitude in units of `2 ^ -1074`. -/
def units (m : Nat) : Nat :=
  let e := m / Nat.pow 2 52
  let f := m % Nat.pow 2 52
  if e = 0 then f else (Nat.pow 2 52 + f) * Nat.pow 2 (e - 1)

/-- The magnitude nearest to `num / den`. The quotient is taken in units of the last place: when
it has more than 53 binary digits the unit grows by `shift` places. A half goes to the even
neighbour, and what rounds beyond the largest finite magnitude is infinite. -/
def nearestMagnitude (num den : Nat) : Nat :=
  let scaled := num * Nat.pow 2 1074
  let shift := (scaled / den).log2 - 52
  min (shift * Nat.pow 2 52 + roundHalfEven scaled (den * Nat.pow 2 shift)) infiniteMagnitude

def ofDecimal (d : Decimal) : Binary64 :=
  ofMagnitude (nearestMagnitude d.ratio.1 d.ratio.2)

end Binary64

end LineLexer
