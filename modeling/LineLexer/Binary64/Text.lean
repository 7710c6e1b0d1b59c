import LineLexer.Binary64.Shortest

/-! The two texts of a binary64 number: the plain one, which never has an exponent, and the one
for JSON, which has one far from the point. -/

namespace LineLexer

namespace Decimal

/-- The number with all its places and no exponent. A whole number has no point. -/
def plain (d : Decimal) : String :=
  let ds := Nat.toDigits 10 d.digits
  let places := (-d.exponent).toNat
  if d.exponent ≥ 0 then String.ofList (ds ++ List.replicate d.exponent.toNat '0')
  else if places < ds.length then
    String.ofList (ds.take (ds.length - places) ++ '.' :: ds.drop (ds.length - places))
  else String.ofList ('0' :: '.' :: List.replicate (places - ds.length) '0' ++ ds)

/-- One digit before the point, the rest behind it, and a signed exponent. -/
def scientific (d : Decimal) : String :=
  let ds := Nat.toDigits 10 d.digits
  let e := d.exponent + (ds.length : Int) - 1
  let tail := if ds.length = 1 then [] else '.' :: ds.drop 1
  String.ofList (ds.take 1 ++ tail) ++ "e" ++ (if e < 0 then "-" else "+") ++ e.natAbs.repr

/-- Plain, with at least one place, from `10 ^ -5` up to `10 ^ 16`; scientific elsewhere. -/
def jsonNumber (d : Decimal) : String :=
  let e := d.exponent + ((Nat.toDigits 10 d.digits).length : Int) - 1
  if -5 ≤ e ∧ e < 16 then
    if d.exponent ≥ 0 then d.plain ++ ".0" else d.plain
  else d.scientific

end Decimal

namespace Binary64

def sign (x : Binary64) : String := if x.isNegative then "-" else ""

/-- The shortest digits that read back, in plain form; of two equally near the upper. -/
def plain (x : Binary64) : String :=
  if x.isNaN then "NaN"
  else if x.isInfinite then x.sign ++ "inf"
  else if x.magnitude = 0 then x.sign ++ "0"
  else x.sign ++ (shortest .up x.magnitude).plain

/-- The shortest digits that read back, as a JSON number; of two equally near the even one. What
is not finite has no JSON number. -/
def jsonNumber? (x : Binary64) : Option String :=
  if x.isFinite then
    if x.magnitude = 0 then some (x.sign ++ "0.0")
    else some (x.sign ++ (shortest .toEven x.magnitude).jsonNumber)
  else none

end Binary64

end LineLexer
