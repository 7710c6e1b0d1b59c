import LineLexer.Proofs.Magnitudes
import LineLexer.Proofs.NumberText
import Mathlib.Algebra.Order.Floor.Semifield
import Mathlib.Analysis.SpecialFunctions.Log.Base

/-! The decimal that is chosen for a magnitude reads back as the magnitude and has no zero at its
end. One of the grids that are tried is fine enough to hold such a decimal, and a coarser grid that
holds one is found before. -/

namespace LineLexer

namespace Binary64

theorem readsBack_iff {m : Nat} {d : Decimal} (hm : m < infiniteMagnitude) :
    readsBack m d = true ↔ IsNearest d.value m := by
  rw [readsBack, beq_iff_eq, nearestMagnitude_eq_iff d.ratio_den_pos hm, d.ratio_eq_value]

section grid

variable {m : Nat} {e : Int}

/-- How many steps of a grid fit into a value. -/
def stepsBelow (m : Nat) (e : Int) : Nat :=
  units m * Nat.pow 10 (-e).toNat / (Nat.pow 2 1074 * Nat.pow 10 e.toNat)

theorem stepsBelow_eq_floor (m : Nat) (e : Int) :
    stepsBelow m e = ⌊magnitudeValue m / 10 ^ e⌋₊ := by
  have hratio : ∀ k, (units m : ℚ) / 2 ^ k / 10 ^ e =
      ((units m * Nat.pow 10 (-e).toNat : ℕ) : ℚ) / (Nat.pow 2 k * Nat.pow 10 e.toNat : ℕ) := by
    intro k
    simp only [Nat.pow_eq, Nat.cast_mul, Nat.cast_pow, Nat.cast_ofNat]
    obtain ⟨n, rfl | rfl⟩ := e.eq_nat_or_neg
    · simp [div_div]
    · simp [zpow_neg, div_eq_mul_inv, mul_right_comm]
  rw [magnitudeValue, hratio 1074, Nat.floor_div_eq_div]
  rfl

theorem stepsBelow_le (m : Nat) (e : Int) : stepsBelow m e * 10 ^ e ≤ magnitudeValue m := by
  have hpow : (0 : ℚ) < 10 ^ e := by positivity
  rw [stepsBelow_eq_floor, ← le_div_iff₀ hpow]
  exact Nat.floor_le (div_nonneg (magnitudeValue_nonneg m) hpow.le)

theorem lt_stepsBelow_succ (m : Nat) (e : Int) :
    magnitudeValue m < (stepsBelow m e + 1 : ℕ) * 10 ^ e := by
  have hpow : (0 : ℚ) < 10 ^ e := by positivity
  rw [stepsBelow_eq_floor, ← div_lt_iff₀ hpow]
  exact_mod_cast Nat.lt_floor_add_one _

theorem nearerNeighbour_eq_none {tie : TieRule} {num den low : Nat} {lowFits highFits : Bool}
    (h : nearerNeighbour tie num den low lowFits highFits = none) :
    lowFits = false ∧ highFits = false := by
  cases lowFits <;> cases highFits
  case false.false => exact ⟨rfl, rfl⟩
  case false.true => simp [nearerNeighbour] at h
  case true.false => simp [nearerNeighbour] at h
  case true.true =>
    simp only [nearerNeighbour] at h
    split_ifs at h
    cases tie <;> simp at h

variable {tie : TieRule} (hm : m < infiniteMagnitude)

include hm

theorem of_onGrid {d : Decimal} (h : onGrid tie m e = some d) :
    d.exponent = e ∧ IsNearest d.value m ∧ d.digits ≤ stepsBelow m e + 1 := by
  obtain ⟨digits, hdigits, rfl⟩ := Option.map_eq_some_iff.mp h
  rcases of_nearerNeighbour hdigits with ⟨rfl, hfits⟩ | ⟨rfl, hfits⟩
  · have hreads := (Bool.and_eq_true_iff.mp hfits).2
    exact ⟨rfl, (readsBack_iff hm).mp hreads, Nat.le_succ _⟩
  · exact ⟨rfl, (readsBack_iff hm).mp hfits, le_rfl⟩

/-- A grid on which neither neighbour of the value reads back holds nothing that does: what reads
back has the value on the one side and a neighbour between them. -/
theorem not_isNearest_of_onGrid (h : onGrid tie m e = none) {n : Nat} (hn : n ≠ 0) :
    ¬ IsNearest (n * 10 ^ e) m := by
  intro hnearest
  obtain ⟨hlow, hhigh⟩ := nearerNeighbour_eq_none (Option.map_eq_none_iff.mp h)
  have hpow : (0 : ℚ) < 10 ^ e := by positivity
  have hvalue := isNearest_magnitudeValue m
  rcases Nat.lt_or_ge (stepsBelow m e) n with hlt | hge
  · have hle : ((stepsBelow m e + 1 : ℕ) : ℚ) * 10 ^ e ≤ n * 10 ^ e :=
      mul_le_mul_of_nonneg_right (by exact_mod_cast hlt) hpow.le
    have hnear : IsNearest (Decimal.value ⟨stepsBelow m e + 1, e⟩) m :=
      hvalue.between hnearest (by unfold Decimal.value; positivity) (lt_stepsBelow_succ m e).le hle
    exact Bool.false_ne_true (hhigh.symm.trans ((readsBack_iff hm).mpr hnear))
  · have hle : (n : ℚ) * 10 ^ e ≤ stepsBelow m e * 10 ^ e :=
      mul_le_mul_of_nonneg_right (by exact_mod_cast hge) hpow.le
    have hnear : IsNearest (Decimal.value ⟨stepsBelow m e, e⟩) m :=
      hnearest.between hvalue (by unfold Decimal.value; positivity) hle (stepsBelow_le m e)
    have hzero : stepsBelow m e ≠ 0 := by omega
    have hfits := Bool.and_eq_true_iff.mpr ⟨bne_iff_ne.mpr hzero, (readsBack_iff hm).mpr hnear⟩
    exact Bool.false_ne_true (hlow.symm.trans hfits)

end grid

/-- The first grid that has a hit gives the result. -/
theorem exists_first_onGrid {tie : TieRule} {m : Nat} {e : Int} {count : Nat}
    (h : ∃ j < count, onGrid tie m (e - j) ≠ none) :
    ∃ j < count, onGrid tie m (e - j) = some (shortestFrom tie m e count) ∧
      ∀ i < j, onGrid tie m (e - i) = none := by
  induction count generalizing e with
  | zero =>
    obtain ⟨j, hj, -⟩ := h
    omega
  | succ count ih =>
    rw [shortestFrom]
    cases hgrid : onGrid tie m e with
    | some d => exact ⟨0, Nat.succ_pos _, by simpa using hgrid, by simp⟩
    | none =>
      have hshift : ∀ j : ℕ, e - (j + 1 : ℕ) = e - 1 - j := by
        intro j
        omega
      obtain ⟨j, hj, hhit⟩ := h
      cases j with
      | zero => simp [hgrid] at hhit
      | succ j =>
        obtain ⟨k, hk, hfound, hnone⟩ := ih ⟨j, by omega, by rwa [← hshift]⟩
        refine ⟨k + 1, by omega, by rwa [hshift], ?_⟩
        intro i hi
        cases i with
        | zero => simpa using hgrid
        | succ i => rw [hshift, hnone i (by omega)]

/-- The decimal logarithm of two is close to the ratio by which the first grid is chosen. -/
theorem abs_logb_sub_lt : |Real.logb 10 2 - 30103 / 100000| < 1 / 20000 := by
  have hlow : Real.logb 10 (10 ^ 59) < Real.logb 10 (2 ^ 196) :=
    Real.logb_lt_logb (by norm_num) (by norm_num) (by norm_num)
  have hhigh : Real.logb 10 (2 ^ 93) < Real.logb 10 (10 ^ 28) :=
    Real.logb_lt_logb (by norm_num) (by norm_num) (by norm_num)
  have hten : Real.logb 10 10 = 1 := Real.logb_self_eq_one (by norm_num)
  rw [Real.logb_pow, Real.logb_pow, hten] at hlow hhigh
  rw [abs_lt]
  norm_num at hlow hhigh
  constructor <;> linarith

/-- The first grid is about as coarse as the value: it is chosen by a ratio near the logarithm. -/
theorem zpow_bounds {k c : ℤ} (hk : |k| ≤ 1100) (hc : c = k * 30103 / 100000 + 1) :
    (2 : ℚ) ^ k ≤ 2 * 10 ^ c ∧ (10 : ℚ) ^ c ≤ 20 * 2 ^ k := by
  have hten : (1 : ℝ) ≤ 10 := by norm_num
  have htwo : (10 : ℝ) ^ Real.logb 10 2 = 2 :=
    Real.rpow_logb (by norm_num) (by norm_num) (by norm_num)
  have hpow : (2 : ℝ) ^ k = 10 ^ (k * Real.logb 10 2) := by
    rw [mul_comm, Real.rpow_mul (by norm_num), htwo, Real.rpow_intCast]
  have hlower : (k : ℝ) * 30103 ≤ c * 100000 := by
    exact_mod_cast (by omega : k * 30103 ≤ c * 100000)
  have hupper : (c : ℝ) * 100000 ≤ k * 30103 + 100000 := by
    exact_mod_cast (by omega : c * 100000 ≤ k * 30103 + 100000)
  have hlog := abs_lt.mp abs_logb_sub_lt
  have herror : |(k : ℝ) * (Real.logb 10 2 - 30103 / 100000)| ≤ 1100 * (1 / 20000) := by
    rw [abs_mul]
    exact mul_le_mul (by exact_mod_cast hk) abs_logb_sub_lt.le (abs_nonneg _) (by norm_num)
  have herror := abs_le.mp herror
  rw [← Rat.cast_le (K := ℝ), ← Rat.cast_le (K := ℝ)]
  push_cast
  rw [hpow, ← Real.rpow_intCast 10 c]
  constructor
  · have hle : (10 : ℝ) ^ (k * Real.logb 10 2) ≤ 10 ^ (Real.logb 10 2 + c) :=
      Real.rpow_le_rpow_of_exponent_le hten (by linarith)
    rwa [Real.rpow_add (by norm_num), htwo] at hle
  · have hle : (10 : ℝ) ^ (c : ℝ) ≤ 10 ^ (1 + Real.logb 10 2 + k * Real.logb 10 2) :=
      Real.rpow_le_rpow_of_exponent_le hten (by linarith)
    rw [Real.rpow_add (by norm_num), Real.rpow_add (by norm_num), Real.rpow_one, htwo] at hle
    linarith

section magnitude

variable {m : Nat} (hm : m < infiniteMagnitude)

include hm

theorem log2_units_lt : (units m).log2 < 52 + 2046 := by
  by_cases hzero : units m = 0
  · simp [hzero]
  · have hlt := units_strictMono hm
    have hsplit : infiniteMagnitude = 2046 * 2 ^ 52 + 2 ^ 52 := by decide
    rw [hsplit, units_significand (by decide) (.inr le_rfl)] at hlt
    have hlog : ∀ a b, units m < 2 ^ a * 2 ^ b → (units m).log2 < a + b := by
      intro a b h
      rwa [← Nat.pow_add, ← Nat.log2_lt hzero] at h
    exact hlog 52 2046 hlt

/-- The first grid is bracketed by the power of two above the value. -/
theorem coarsest_bounds :
    (2 : ℚ) ^ ((units m).log2 - 1074 + 1 : ℤ) ≤ 2 * 10 ^ coarsest m ∧
      (10 : ℚ) ^ coarsest m ≤ 20 * 2 ^ ((units m).log2 - 1074 + 1 : ℤ) := by
  have hlog := log2_units_lt hm
  exact zpow_bounds (abs_le.mpr ⟨by omega, by omega⟩) rfl

theorem stepsBelow_coarsest : stepsBelow m (coarsest m) ≤ 2 := by
  have hle := stepsBelow_le m (coarsest m)
  have hbound := (coarsest_bounds hm).1
  have hpow : (0 : ℚ) < 10 ^ coarsest m := by positivity
  have hvalue : magnitudeValue m < 2 ^ ((units m).log2 - 1074 + 1 : ℤ) := by
    have hlt : (units m : ℚ) < 2 ^ ((units m).log2 + 1) := by exact_mod_cast Nat.lt_log2_self
    have hexponent : ((units m).log2 - 1074 + 1 : ℤ) = ((units m).log2 + 1 : ℕ) - 1074 := by omega
    rw [magnitudeValue, hexponent, zpow_sub₀ (by norm_num), zpow_natCast]
    exact div_lt_div_of_pos_right hlt (by positivity)
  have hsteps : (stepsBelow m (coarsest m) : ℚ) < 2 :=
    lt_of_mul_lt_mul_right (hle.trans_lt (hvalue.trans_le hbound)) hpow.le
  exact (Nat.cast_lt_ofNat.mp hsteps).le

/-- On the last grid that is tried, the neighbour above the value is nearer to it than half of a
unit in the last place. -/
theorem isNearest_on_last_grid :
    IsNearest ((stepsBelow m (coarsest m - 19) + 1 : ℕ) * 10 ^ (coarsest m - 19)) m := by
  have hbelow := stepsBelow_le m (coarsest m - 19)
  have habove := lt_stepsBelow_succ m (coarsest m - 19)
  refine isNearest_of_lt_half habove.le ?_
  have hunit : magnitudeValue m + 2 ^ ((units m).log2 - 1074 + 1 : ℤ) / 2 ^ 53 ≤
      magnitudeValue (m + 1) := by
    have hsucc : (units (m + 1) : ℚ) = units m + 2 ^ ((units m).log2 - 52) := by
      exact_mod_cast units_succ m
    have hplace : (2 : ℚ) ^ ((units m).log2 - 1074 + 1 - 53 : ℤ) ≤
        2 ^ ((((units m).log2 - 52 : ℕ) : ℤ) - 1074) :=
      zpow_le_zpow_right₀ (by norm_num) (by omega)
    rw [zpow_sub₀ (by norm_num), zpow_sub₀ (by norm_num), zpow_natCast, zpow_ofNat,
      zpow_ofNat] at hplace
    rw [magnitudeValue, magnitudeValue, hsucc, add_div]
    exact add_le_add_right hplace _
  have hgrid : (10 : ℚ) ^ (coarsest m - 19) = 10 ^ coarsest m / 10 ^ 19 := by
    rw [zpow_sub₀ (by norm_num), zpow_ofNat]
  have hbound := (coarsest_bounds hm).2
  have hpos : (0 : ℚ) < 2 ^ ((units m).log2 - 1074 + 1 : ℤ) := by positivity
  rw [hgrid] at hbelow ⊢
  push_cast
  linarith

/-- The decimal that is chosen reads back, and no shorter one is left in its last digit. -/
theorem shortest_spec (tie : TieRule) :
    IsNearest (shortest tie m).value m ∧ (shortest tie m).digits % 10 ≠ 0 := by
  have hhit : ∃ j < 20, onGrid tie m (coarsest m - (j : ℕ)) ≠ none :=
    ⟨19, by decide, fun h => not_isNearest_of_onGrid hm h (Nat.succ_ne_zero _)
      (isNearest_on_last_grid hm)⟩
  obtain ⟨j, hj, hfound, hnone⟩ := exists_first_onGrid hhit
  change onGrid tie m (coarsest m - j) = some (shortest tie m) at hfound
  obtain ⟨hexponent, hnearest, hle⟩ := of_onGrid hm hfound
  have hdigits := onGrid_digits hfound
  refine ⟨hnearest, fun hzero => ?_⟩
  cases j with
  | zero =>
    have hfirst := stepsBelow_coarsest hm
    rw [Int.natCast_zero, Int.sub_zero] at hle
    omega
  | succ i =>
    -- without the zero at its end the decimal stands on the grid before
    obtain ⟨n, hn⟩ := Nat.dvd_of_mod_eq_zero hzero
    have hvalue : (shortest tie m).value = n * 10 ^ (coarsest m - i) := by
      have hgrid : coarsest m - i = coarsest m - (i + 1 : ℕ) + 1 := by omega
      rw [Decimal.value, hexponent, hn, hgrid, zpow_add_one₀ (by norm_num)]
      push_cast
      ring
    exact not_isNearest_of_onGrid hm (hnone i (Nat.lt_succ_self i)) (by omega) (hvalue ▸ hnearest)

end magnitude

end Binary64

end LineLexer
