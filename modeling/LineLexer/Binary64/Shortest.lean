import LineLexer.Binary64

/-! The shortest decimal that reads back as a given magnitude. The powers of ten are tried from a
coarse one down; on each grid only the two neighbours of the value can be nearest, and a decimal
counts only if reading it gives the magnitude again. -/

namespace LineLexer

namespace Binary64

/-- Which of two decimals is chosen when the value lies exactly between them. -/
inductive TieRule where
  | up
  | toEven
deriving DecidableEq, Repr

def readsBack (m : Nat) (d : Decimal) : Bool :=
  nearestMagnitude d.ratio.1 d.ratio.2 == m

/-- Takes the nearer of the neighbours `low` and `low + 1` of `num / den` that are candidates. -/
def nearerNeighbour (tie : TieRule) (num den low : Nat) (lowFits highFits : Bool) : Option Nat :=
  match lowFits, highFits with
  | false, false => none
  | true, false => some low
  | false, true => some (low + 1)
  | true, true =>
    if 2 * num < (2 * low + 1) * den then some low
    else if 2 * num > (2 * low + 1) * den then some (low + 1)
    else match tie with
      | .up => some (low + 1)
      | .toEven => some (low + low % 2)

/-- The multiple of `10 ^ exponent` next to the magnitude that reads back, if there is one. -/
def onGrid (tie : TieRule) (m : Nat) (exponent : Int) : Option Decimal :=
  let num := units m * Nat.pow 10 (-exponent).toNat
  let den := Nat.pow 2 1074 * Nat.pow 10 exponent.toNat
  let low := num / den
  (nearerNeighbour tie num den low
    (low != 0 && readsBack m ⟨low, exponent⟩) (readsBack m ⟨low + 1, exponent⟩)).map
      fun digits => ⟨digits, exponent⟩

/-- Every magnitude is a multiple of `2 ^ -1074` and so has a finite decimal. -/
def exact (m : Nat) : Decimal := ⟨units m * Nat.pow 5 1074, -1074⟩

/-- Tries `count` grids, each finer than the one before. -/
def shortestFrom (tie : TieRule) (m : Nat) (exponent : Int) : Nat → Decimal
  | 0 => exact m
  | count + 1 =>
    match onGrid tie m exponent with
    | some d => d
    | none => shortestFrom tie m (exponent - 1) count

/-- A power of ten above the value: `30103 / 100000` is the decimal logarithm of two but for an
error below `10 ^ -8`, which the last step upwards outweighs. -/
def coarsest (m : Nat) : Int :=
  (((units m).log2 : Int) - 1074 + 1) * 30103 / 100000 + 1

/-- Seventeen digits always read back, and the first grid lies at most two places above the first
digit. -/
def shortest (tie : TieRule) (m : Nat) : Decimal :=
  shortestFrom tie m (coarsest m) 20

end Binary64

end LineLexer
