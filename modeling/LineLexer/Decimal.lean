/-! Decimal numbers as digits and an exponent, the reading of digits, and rounding to the nearest
whole number. -/

namespace LineLexer

/-- The number `digits * 10 ^ exponent`. -/
structure Decimal where
  digits : Nat
  exponent : Int
deriving DecidableEq, Repr

/-- The value of a run of decimal digits; the first is the most significant. -/
def digitsValue (ds : List Char) : Nat :=
  ds.foldl (fun n d => 10 * n + (d.toNat - '0'.toNat)) 0

def Decimal.ofDigits (whole fraction : List Char) : Decimal :=
  ⟨digitsValue (whole ++ fraction), -(fraction.length : Int)⟩

/-- Reads a decimal without sign and exponent: digits, at least one, with at most one point. -/
def Decimal.ofText? (s : List Char) : Option Decimal :=
  let whole := s.takeWhile Char.isDigit
  match s.dropWhile Char.isDigit with
  | [] => if whole.isEmpty then none else some (.ofDigits whole [])
  | '.' :: fraction =>
    if fraction.all Char.isDigit && !(whole.isEmpty && fraction.isEmpty) then
      some (.ofDigits whole fraction)
    else none
  | _ => none

def Decimal.ratio (d : Decimal) : Nat × Nat :=
  match d.exponent with
  | .ofNat e => (d.digits * Nat.pow 10 e, 1)
  | .negSucc e => (d.digits, Nat.pow 10 (e + 1))

theorem Decimal.ratio_den_pos (d : Decimal) : 0 < d.ratio.2 := by
  unfold Decimal.ratio
  split
  · exact Nat.one_pos
  · exact Nat.pow_pos (by decide)

/-- The whole number nearest to `a / b`; a half goes to the even neighbour. -/
def roundHalfEven (a b : Nat) : Nat :=
  let q := a / b
  if 2 * (a % b) < b then q
  else if 2 * (a % b) > b then q + 1
  else q + q % 2

end LineLexer
