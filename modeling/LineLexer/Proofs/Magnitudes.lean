import LineLexer.Binary64
import Mathlib.Tactic

/-! The scale of magnitudes. Their values grow with them and lie as close as 53 binary digits
allow, so every ratio has one nearest magnitude: of two equally near ones the even one. -/

namespace LineLexer

def Decimal.value (d : Decimal) : ℚ := d.digits * 10 ^ d.exponent

theorem Decimal.ratio_eq_value (d : Decimal) : (d.ratio.1 : ℚ) / d.ratio.2 = d.value := by
  obtain ⟨digits, exponent⟩ := d
  cases exponent with
  | ofNat e => simp [ratio, value]
  | negSucc e => simp [ratio, value, zpow_negSucc, div_eq_mul_inv]

namespace Binary64

/-- A magnitude of `shift + 1` in the field of the exponent, or of zero there. -/
theorem units_significand {shift r : Nat} (hr : r ≤ 2 ^ 53) (hs : shift = 0 ∨ 2 ^ 52 ≤ r) :
    units (shift * 2 ^ 52 + r) = r * 2 ^ shift := by
  simp only [units, Nat.pow_eq]
  rcases Nat.lt_or_ge r (2 ^ 52) with hlt | hge
  · obtain rfl : shift = 0 := by omega
    have he : (0 * 2 ^ 52 + r) / 2 ^ 52 = 0 := by omega
    have hf : (0 * 2 ^ 52 + r) % 2 ^ 52 = r := by omega
    rw [he, hf, if_pos rfl, Nat.pow_zero, Nat.mul_one]
  rcases Nat.lt_or_eq_of_le hr with hlt | rfl
  · have he : (shift * 2 ^ 52 + r) / 2 ^ 52 = shift + 1 := by omega
    have hf : (shift * 2 ^ 52 + r) % 2 ^ 52 = r - 2 ^ 52 := by omega
    rw [he, hf, if_neg (Nat.succ_ne_zero _), Nat.add_sub_cancel' hge, Nat.add_sub_cancel]
  · have he : (shift * 2 ^ 52 + 2 ^ 53) / 2 ^ 52 = shift + 2 := by omega
    have hf : (shift * 2 ^ 52 + 2 ^ 53) % 2 ^ 52 = 0 := by omega
    have hp : shift + 2 - 1 = shift + 1 := by omega
    rw [he, hf, if_neg (Nat.succ_ne_zero _), hp]
    ring

theorem exists_significand (m : Nat) :
    ∃ shift r, m = shift * 2 ^ 52 + r ∧ r < 2 ^ 53 ∧ (shift = 0 ∨ 2 ^ 52 ≤ r) := by
  by_cases hm : m < 2 ^ 52
  · exact ⟨0, m, by omega, by omega, .inl rfl⟩
  · exact ⟨m / 2 ^ 52 - 1, m % 2 ^ 52 + 2 ^ 52, by omega, by omega, .inr (by omega)⟩

/-- A magnitude and the next one are one unit in the last place apart, and the value has no more
than 53 binary digits in front of that place. -/
theorem units_succ (m : Nat) : units (m + 1) = units m + 2 ^ ((units m).log2 - 52) := by
  obtain ⟨shift, r, rfl, hr, hs⟩ := exists_significand m
  have hplace : (r * 2 ^ shift).log2 - 52 = shift := by
    by_cases hzero : r = 0
    · obtain rfl : shift = 0 := by omega
      simp [hzero]
    · have hpow : 0 < 2 ^ shift := Nat.two_pow_pos shift
      have hunits : r * 2 ^ shift ≠ 0 := Nat.mul_ne_zero hzero hpow.ne'
      have hupper : (r * 2 ^ shift).log2 < 53 + shift :=
        (Nat.log2_lt hunits).mpr (Nat.pow_add .. ▸ Nat.mul_lt_mul_of_pos_right hr hpow)
      rcases hs with rfl | hs
      · omega
      · have hlower : 52 + shift ≤ (r * 2 ^ shift).log2 :=
          (Nat.le_log2 hunits).mpr (Nat.pow_add .. ▸ Nat.mul_le_mul_right _ hs)
        omega
  have hnext : shift = 0 ∨ 2 ^ 52 ≤ r + 1 := hs.imp_right fun h => by omega
  rw [Nat.add_assoc, units_significand hr hnext, units_significand hr.le hs, hplace,
    Nat.succ_mul]

theorem units_strictMono : StrictMono units :=
  strictMono_nat_of_lt_succ fun m => by
    rw [units_succ]
    exact Nat.lt_add_of_pos_right (Nat.two_pow_pos _)

/-- The value of a magnitude. Beyond the largest finite one the exponents go on. -/
def magnitudeValue (m : Nat) : ℚ := units m / 2 ^ 1074

theorem magnitudeValue_significand {shift r : Nat} (hr : r ≤ 2 ^ 53)
    (hs : shift = 0 ∨ 2 ^ 52 ≤ r) :
    magnitudeValue (shift * 2 ^ 52 + r) = r * 2 ^ (shift - 1074 : ℤ) := by
  rw [magnitudeValue, units_significand hr hs, zpow_sub₀ (by norm_num), zpow_natCast, zpow_ofNat,
    Nat.cast_mul, Nat.cast_pow, Nat.cast_ofNat, mul_div_assoc]

theorem magnitudeValue_strictMono : StrictMono magnitudeValue := by
  intro m n h
  have hunits : (units m : ℚ) < units n := by exact_mod_cast units_strictMono h
  exact div_lt_div_of_pos_right hunits (by positivity)

theorem magnitudeValue_zero : magnitudeValue 0 = 0 := by
  simp [magnitudeValue, units]

theorem magnitudeValue_nonneg (m : Nat) : 0 ≤ magnitudeValue m := by
  unfold magnitudeValue
  positivity

/-- `m` is the magnitude nearest to `q`; of two equally near ones it is the even one. -/
structure IsNearest (q : ℚ) (m : Nat) : Prop where
  le : ∀ n, |q - magnitudeValue m| ≤ |q - magnitudeValue n|
  even : ∀ n, n ≠ m → |q - magnitudeValue n| = |q - magnitudeValue m| → m % 2 = 0

theorem IsNearest.of_lt {q : ℚ} {m : Nat}
    (h : ∀ n, n ≠ m → |q - magnitudeValue m| < |q - magnitudeValue n|) : IsNearest q m where
  le n := by
    rcases eq_or_ne n m with rfl | hne
    · exact le_rfl
    · exact (h n hne).le
  even n hne he := absurd he (h n hne).ne'

theorem isNearest_magnitudeValue (m : Nat) : IsNearest (magnitudeValue m) m :=
  .of_lt fun n hne => by
    rw [sub_self, abs_zero, abs_pos, sub_ne_zero]
    exact fun he => hne (magnitudeValue_strictMono.injective he).symm

section between

variable {q : ℚ} {m n : Nat}

theorem sub_le_dist (h : n ≤ m) : q - magnitudeValue m ≤ |q - magnitudeValue n| :=
  (sub_le_sub_left (magnitudeValue_strictMono.monotone h) q).trans (le_abs_self _)

theorem sub_le_dist_of_ge (h : m ≤ n) : magnitudeValue m - q ≤ |q - magnitudeValue n| := by
  rw [abs_sub_comm]
  exact (sub_le_sub_right (magnitudeValue_strictMono.monotone h) q).trans (le_abs_self _)

theorem isNearest_of_lt_half (hm : magnitudeValue m ≤ q)
    (h : 2 * q < magnitudeValue m + magnitudeValue (m + 1)) : IsNearest q m := by
  refine .of_lt fun n hne => ?_
  rw [abs_of_nonneg (sub_nonneg.mpr hm)]
  rcases Nat.lt_or_gt_of_ne hne with hn | hn
  · have hlt := magnitudeValue_strictMono hn
    exact (sub_lt_sub_left hlt q).trans_le (le_abs_self _)
  · have hle := sub_le_dist_of_ge (q := q) hn
    linarith

theorem isNearest_succ_of_half_lt (hm : q ≤ magnitudeValue (m + 1))
    (h : magnitudeValue m + magnitudeValue (m + 1) < 2 * q) : IsNearest q (m + 1) := by
  refine .of_lt fun n hne => ?_
  rw [abs_sub_comm, abs_of_nonneg (sub_nonneg.mpr hm)]
  rcases Nat.lt_or_gt_of_ne hne with hn | hn
  · have hle := sub_le_dist (q := q) (Nat.lt_succ_iff.mp hn)
    linarith
  · have hlt := magnitudeValue_strictMono hn
    rw [abs_sub_comm]
    exact (sub_lt_sub_right hlt q).trans_le (le_abs_self _)

theorem isNearest_half (h : 2 * q = magnitudeValue m + magnitudeValue (m + 1))
    (hn : n = m ∨ n = m + 1) (heven : n % 2 = 0) : IsNearest q n := by
  have hlt := magnitudeValue_strictMono (Nat.lt_succ_self m)
  have hdist : |q - magnitudeValue n| = (magnitudeValue (m + 1) - magnitudeValue m) / 2 := by
    rcases hn with rfl | rfl
    · rw [abs_of_nonneg (by linarith)]
      linarith
    · rw [abs_of_nonpos (by linarith)]
      linarith
  refine ⟨fun k => ?_, fun _ _ _ => heven⟩
  rw [hdist]
  rcases Nat.lt_or_ge m k with hk | hk
  · have hle := sub_le_dist_of_ge (q := q) hk
    linarith
  · have hle := sub_le_dist (q := q) hk
    linarith

end between

/-- The magnitude nearest to `scaled / den` units when exponents are not bounded above. -/
def nearestUnits (scaled den : Nat) : Nat :=
  let shift := (scaled / den).log2 - 52
  shift * 2 ^ 52 + roundHalfEven scaled (den * 2 ^ shift)

theorem nearestMagnitude_eq (num den : Nat) :
    nearestMagnitude num den = min (nearestUnits (num * Nat.pow 2 1074) den) infiniteMagnitude :=
  rfl

/-- Rounding on the grid of the last place chooses between the two magnitudes around the ratio. -/
theorem exists_around (scaled : Nat) {den : Nat} (hden : 0 < den) :
    ∃ m, units m * den ≤ scaled ∧ scaled < units (m + 1) * den ∧
      nearestUnits scaled den =
        if 2 * scaled < (units m + units (m + 1)) * den then m
        else if (units m + units (m + 1)) * den < 2 * scaled then m + 1
        else m + m % 2 := by
  obtain ⟨shift, hshift⟩ : ∃ shift, shift = (scaled / den).log2 - 52 := ⟨_, rfl⟩
  obtain ⟨grid, hgrid⟩ : ∃ grid, grid = den * 2 ^ shift := ⟨_, rfl⟩
  obtain ⟨r, hr⟩ : ∃ r, r = scaled / grid := ⟨_, rfl⟩
  have hround : nearestUnits scaled den = shift * 2 ^ 52 + roundHalfEven scaled grid := by
    rw [hgrid, hshift]
    rfl
  have hpow : 0 < 2 ^ shift := Nat.two_pow_pos shift
  have hsignificand : r < 2 ^ 53 ∧ (shift = 0 ∨ 2 ^ 52 ≤ r) := by
    rw [hr, hgrid, ← Nat.div_div_eq_div_mul, Nat.div_lt_iff_lt_mul hpow,
      Nat.le_div_iff_mul_le hpow, ← Nat.pow_add, ← Nat.pow_add]
    by_cases hzero : scaled / den = 0
    · rw [hzero]
      exact ⟨Nat.two_pow_pos _, .inl (by rw [hshift, hzero]; rfl)⟩
    · rw [← Nat.log2_lt hzero, ← Nat.le_log2 hzero]
      omega
  have hle : r + 1 ≤ 2 ^ 53 := hsignificand.1
  have hnext : shift = 0 ∨ 2 ^ 52 ≤ r + 1 := hsignificand.2.imp_right fun h => by omega
  have hbelow : units (shift * 2 ^ 52 + r) * den = grid * r := by
    rw [units_significand hsignificand.1.le hsignificand.2, hgrid]
    ring
  have habove : units (shift * 2 ^ 52 + r + 1) * den = grid * r + grid := by
    rw [Nat.add_assoc, units_significand hle hnext, hgrid]
    ring
  have hdiv : grid * r + scaled % grid = scaled := hr ▸ Nat.div_add_mod scaled grid
  have hrest : scaled % grid < grid := Nat.mod_lt _ (hgrid ▸ Nat.mul_pos hden hpow)
  rw [hround, roundHalfEven, ← hr]
  refine ⟨shift * 2 ^ 52 + r, by omega, by omega, ?_⟩
  rw [Nat.add_mul, hbelow, habove]
  clear hbelow habove hshift hgrid hr
  split_ifs <;> omega

theorem isNearest_nearestUnits (scaled : Nat) {den : Nat} (hden : 0 < den) :
    IsNearest ((scaled : ℚ) / den / 2 ^ 1074) (nearestUnits scaled den) := by
  obtain ⟨m, hbelow, habove, hround⟩ := exists_around scaled hden
  have hpos : (0 : ℚ) < den := by exact_mod_cast hden
  have hunit : (0 : ℚ) < 2 ^ 1074 := by positivity
  -- the comparisons of whole numbers, read as those of ratios
  have hlt : ∀ a u : ℕ, (a : ℚ) / den / 2 ^ 1074 < u / 2 ^ 1074 ↔ a < u * den := by
    intro a u
    rw [div_lt_div_iff_of_pos_right hunit, div_lt_iff₀ hpos]
    exact_mod_cast Iff.rfl
  have hgt : ∀ a u : ℕ, (u : ℚ) / 2 ^ 1074 < a / den / 2 ^ 1074 ↔ u * den < a := by
    intro a u
    rw [div_lt_div_iff_of_pos_right hunit, lt_div_iff₀ hpos]
    exact_mod_cast Iff.rfl
  have hlow : magnitudeValue m ≤ scaled / den / 2 ^ 1074 :=
    not_lt.mp fun h => hbelow.not_gt ((hlt ..).mp h)
  have hhigh : (scaled : ℚ) / den / 2 ^ 1074 ≤ magnitudeValue (m + 1) := ((hlt ..).mpr habove).le
  have hsum : magnitudeValue m + magnitudeValue (m + 1) =
      ((units m + units (m + 1) : ℕ) : ℚ) / 2 ^ 1074 := by
    rw [Nat.cast_add, add_div]
    rfl
  have htwice : 2 * ((scaled : ℚ) / den / 2 ^ 1074) = ((2 * scaled : ℕ) : ℚ) / den / 2 ^ 1074 := by
    rw [Nat.cast_mul, mul_div_assoc, mul_div_assoc, Nat.cast_ofNat]
  have hhalf := hlt (2 * scaled) (units m + units (m + 1))
  have hhalf' := hgt (2 * scaled) (units m + units (m + 1))
  rw [← hsum, ← htwice] at hhalf hhalf'
  rw [hround]
  split_ifs with h h'
  · exact isNearest_of_lt_half hlow (hhalf.mpr h)
  · exact isNearest_succ_of_half_lt hhigh (hhalf'.mpr h')
  · have htie : 2 * ((scaled : ℚ) / den / 2 ^ 1074) = magnitudeValue m + magnitudeValue (m + 1) :=
      le_antisymm (not_lt.mp fun hh => h' (hhalf'.mp hh)) (not_lt.mp fun hh => h (hhalf.mp hh))
    exact isNearest_half htie (by omega) (by omega)

/-- The magnitude nearest to a ratio, before the largest ones become infinite. -/
theorem isNearest_ratio (num : Nat) {den : Nat} (hden : 0 < den) :
    IsNearest (num / den) (nearestUnits (num * Nat.pow 2 1074) den) := by
  have hnearest := isNearest_nearestUnits (num * Nat.pow 2 1074) hden
  have hcast : ∀ k, ((num * Nat.pow 2 k : ℕ) : ℚ) / den / 2 ^ k = num / den := by
    intro k
    rw [Nat.pow_eq, Nat.cast_mul, Nat.cast_pow, Nat.cast_ofNat, div_div,
      mul_div_mul_right _ _ (by positivity)]
  exact hcast 1074 ▸ hnearest

section order

variable {q p : ℚ} {m n : Nat}

/-- Of two values the larger one is as near only from the middle on. -/
theorem add_le_of_dist_le {a b : ℚ} (hab : a < b) (h : |q - b| ≤ |q - a|) : a + b ≤ 2 * q := by
  have hsq := sq_le_sq.mpr h
  by_contra hlt
  nlinarith [mul_pos (sub_pos.mpr hab) (sub_pos.mpr (not_le.mp hlt))]

theorem le_add_of_dist_le {a b : ℚ} (hab : a < b) (h : |q - a| ≤ |q - b|) : 2 * q ≤ a + b := by
  have hneg : -b + -a ≤ 2 * -q := by
    refine add_le_of_dist_le (neg_lt_neg hab) ?_
    rwa [neg_sub_neg, neg_sub_neg, abs_sub_comm a, abs_sub_comm b]
  linarith

/-- Two magnitudes are not equally near and both even: one between them would be nearer. -/
theorem IsNearest.not_both (hm : IsNearest q m) (hn : IsNearest q n) : ¬ m < n := by
  intro h
  have hdist := le_antisymm (hm.le n) (hn.le m)
  have hmeven := hm.even n h.ne' hdist.symm
  have hneven := hn.even m h.ne hdist
  have hlow := magnitudeValue_strictMono (Nat.lt_succ_self m)
  have hhigh := magnitudeValue_strictMono (show m + 1 < n by omega)
  have hmiddle := le_antisymm (add_le_of_dist_le (hlow.trans hhigh) (hn.le m))
    (le_add_of_dist_le (hlow.trans hhigh) (hm.le n))
  have hnearer : |q - magnitudeValue (m + 1)| < |q - magnitudeValue m| := by
    rw [abs_of_nonneg (by linarith : 0 ≤ q - magnitudeValue m), abs_lt]
    constructor <;> linarith
  exact (hm.le (m + 1)).not_gt hnearer

theorem IsNearest.unique (hm : IsNearest q m) (hn : IsNearest q n) : m = n :=
  le_antisymm (not_lt.mp (hn.not_both hm)) (not_lt.mp (hm.not_both hn))

theorem IsNearest.mono (hm : IsNearest q m) (hn : IsNearest p n) (h : q ≤ p) : m ≤ n := by
  by_contra hlt
  have hvalue := magnitudeValue_strictMono (not_le.mp hlt)
  have hq := add_le_of_dist_le hvalue (hm.le n)
  have hp := le_add_of_dist_le hvalue (hn.le m)
  obtain rfl : q = p := by linarith
  exact hlt (hm.unique hn).le

theorem exists_isNearest (h : 0 ≤ q) : ∃ n, IsNearest q n := by
  have hratio : (q.num.toNat : ℚ) / q.den = q := by
    have hnum : (q.num.toNat : ℤ) = q.num := Int.toNat_of_nonneg (Rat.num_nonneg.mpr h)
    rw [← Int.cast_natCast, hnum, Rat.num_div_den]
  have hnearest := isNearest_ratio q.num.toNat q.den_pos
  rw [hratio] at hnearest
  exact ⟨_, hnearest⟩

/-- What lies between two ratios with the same nearest magnitude has it too. -/
theorem IsNearest.between {r : ℚ} (hq : IsNearest q m) (hr : IsNearest r m) (h : 0 ≤ p)
    (hqp : q ≤ p) (hpr : p ≤ r) : IsNearest p m := by
  obtain ⟨n, hn⟩ := exists_isNearest h
  obtain rfl : m = n := le_antisymm (hq.mono hn hqp) (hn.mono hr hpr)
  exact hn

end order

theorem nearestMagnitude_eq_iff {num den m : Nat} (hden : 0 < den) (hm : m < infiniteMagnitude) :
    nearestMagnitude num den = m ↔ IsNearest (num / den) m := by
  have hnearest := isNearest_ratio num hden
  rw [nearestMagnitude_eq]
  constructor
  · intro h
    obtain rfl : nearestUnits (num * Nat.pow 2 1074) den = m := by omega
    exact hnearest
  · intro h
    rw [hnearest.unique h, min_eq_left hm.le]

end Binary64

end LineLexer
