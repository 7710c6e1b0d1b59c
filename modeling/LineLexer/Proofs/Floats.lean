import LineLexer.Proofs.DecimalText
import LineLexer.Proofs.Integers

/-! Floats. A number with a point is the binary64 number nearest to what is written, and what a
finite float shows is read as the same float again. -/

namespace LineLexer

namespace Binary64

/-- The value of the bits: a sign, an exponent of eleven bits and a fraction of 52 bits. -/
def value (x : Binary64) : ℚ :=
  let sign : ℚ := if x.isNegative then -1 else 1
  let exponent : ℕ := x.bits.toNat / 2 ^ 52 % 2 ^ 11
  let fraction : ℕ := x.bits.toNat % 2 ^ 52
  if exponent = 0 then sign * (fraction / 2 ^ 52) * 2 ^ (-1022 : ℤ)
  else sign * (1 + fraction / 2 ^ 52) * 2 ^ (exponent - 1023 : ℤ)

/-- The largest finite value and half of its last place. -/
def overflow : ℚ := (2 ^ 53 - 1) * 2 ^ 971 + 2 ^ 970

/-- What `q` is rounded to: the finite number that is nearest, of two the even one; infinity from
the overflow on. -/
structure IsRounded (q : ℚ) (x : Binary64) : Prop where
  isFinite_iff : x.isFinite = true ↔ q < overflow
  isInfinite_iff : x.isInfinite = true ↔ overflow ≤ q
  nearest : x.isFinite = true → ∀ y : Binary64, y.isFinite = true →
    |q - x.value| ≤ |q - y.value|
  even : x.isFinite = true → ∀ y : Binary64, y.isFinite = true → y.value ≠ x.value →
    |q - y.value| = |q - x.value| → x.bits.toNat % 2 = 0

/-- What the text of a number without sign and exponent stands for. -/
def ofText? (s : List Char) : Option Binary64 := (Decimal.ofText? s).map ofDecimal

theorem value_eq (x : Binary64) :
    x.value = (if x.isNegative then -1 else 1) * magnitudeValue x.magnitude := by
  have hexponent : x.bits.toNat / 2 ^ 52 % 2 ^ 11 = x.magnitude / 2 ^ 52 := by
    simp only [magnitude, Nat.pow_eq]
    omega
  have hfraction : x.bits.toNat % 2 ^ 52 = x.magnitude % 2 ^ 52 := by
    simp only [magnitude, Nat.pow_eq]
    omega
  have hbias : ∀ e : ℤ, (2 : ℚ) ^ (e - 1022) = 2 ^ (e - 1074) * 2 ^ 52 := by
    intro e
    have he : e - 1022 = e - 1074 + 52 := by omega
    rw [he, zpow_add₀ (by norm_num), zpow_ofNat]
  have hlt : x.magnitude % 2 ^ 52 < 2 ^ 52 := Nat.mod_lt _ (by decide)
  have hdiv := Nat.div_add_mod' x.magnitude (2 ^ 52)
  simp only [value, hexponent, hfraction]
  generalize (if x.isNegative = true then (-1 : ℚ) else 1) = sign
  generalize x.magnitude % 2 ^ 52 = fraction at *
  rw [← congrArg magnitudeValue hdiv]
  cases x.magnitude / 2 ^ 52 with
  | zero =>
    have hvalue := @magnitudeValue_significand 0 fraction (by omega) (.inl rfl)
    have hexp : (-1022 : ℤ) = (0 : ℕ) - 1022 := by omega
    rw [if_pos rfl, hvalue, hexp, hbias]
    generalize (2 : ℚ) ^ (((0 : ℕ) : ℤ) - 1074) = place
    ring
  | succ e =>
    have hvalue := @magnitudeValue_significand e (2 ^ 52 + fraction) (by omega) (.inr (by omega))
    have hplace : (e + 1) * 2 ^ 52 + fraction = e * 2 ^ 52 + (2 ^ 52 + fraction) := by ring
    have hexp : ((e + 1 : ℕ) : ℤ) - 1023 = e - 1022 := by omega
    rw [if_neg (Nat.succ_ne_zero e), hplace, hvalue, hexp, hbias]
    push_cast
    ring

section ofMagnitude

variable {m : Nat}

theorem toNat_ofMagnitude (h : m ≤ infiniteMagnitude) : (ofMagnitude m).bits.toNat = m := by
  have hbound : m < 2 ^ 64 := by
    simp only [infiniteMagnitude, Nat.pow_eq] at h
    omega
  rw [ofMagnitude, UInt64.toNat_ofNat', Nat.mod_eq_of_lt hbound]

theorem magnitude_ofMagnitude (h : m ≤ infiniteMagnitude) : (ofMagnitude m).magnitude = m := by
  have hbits := toNat_ofMagnitude h
  simp only [infiniteMagnitude, Nat.pow_eq] at h
  rw [magnitude, hbits, Nat.pow_eq]
  omega

theorem isNegative_ofMagnitude (h : m ≤ infiniteMagnitude) :
    (ofMagnitude m).isNegative = false := by
  have hbits := toNat_ofMagnitude h
  simp only [infiniteMagnitude, Nat.pow_eq] at h
  rw [isNegative, hbits, Nat.pow_eq, decide_eq_false_iff_not]
  omega

theorem sign_ofMagnitude (h : m ≤ infiniteMagnitude) : (ofMagnitude m).sign = "" := by
  rw [sign, isNegative_ofMagnitude h, if_neg Bool.false_ne_true]

theorem isNaN_ofMagnitude (h : m ≤ infiniteMagnitude) : (ofMagnitude m).isNaN = false := by
  rw [isNaN, magnitude_ofMagnitude h, decide_eq_false_iff_not]
  exact Nat.not_lt.mpr h

theorem isFinite_ofMagnitude (h : m ≤ infiniteMagnitude) :
    (ofMagnitude m).isFinite = true ↔ m < infiniteMagnitude := by
  rw [isFinite, magnitude_ofMagnitude h, decide_eq_true_iff]

theorem isInfinite_ofMagnitude (h : m ≤ infiniteMagnitude) :
    (ofMagnitude m).isInfinite = true ↔ ¬ m < infiniteMagnitude := by
  rw [isInfinite, magnitude_ofMagnitude h, beq_iff_eq]
  omega

theorem value_ofMagnitude (h : m ≤ infiniteMagnitude) :
    (ofMagnitude m).value = magnitudeValue m := by
  rw [value_eq, magnitude_ofMagnitude h, isNegative_ofMagnitude h]
  simp

end ofMagnitude

section rounding

variable {q : ℚ} {n : Nat}

/-- The overflow is the middle between the largest finite magnitude and the next one. -/
theorem two_mul_overflow :
    2 * overflow = magnitudeValue (infiniteMagnitude - 1) + magnitudeValue infiniteMagnitude := by
  have hlast := @magnitudeValue_significand 2045 (2 ^ 53 - 1) (by omega) (.inr (by omega))
  have hnext := @magnitudeValue_significand 2045 (2 ^ 53) (by omega) (.inr (by omega))
  have hplace : ((2045 : ℕ) : ℤ) - 1074 = (971 : ℕ) := by omega
  rw [hplace, zpow_natCast] at hlast hnext
  have hinfinite : infiniteMagnitude = 2045 * 2 ^ 52 + 2 ^ 53 := rfl
  have hlargest : infiniteMagnitude - 1 = 2045 * 2 ^ 52 + (2 ^ 53 - 1) := rfl
  rw [hlargest, hinfinite, hlast, hnext, overflow, pow_succ (2 : ℚ) 970]
  generalize (2 : ℚ) ^ 970 = half
  norm_num
  ring

theorem IsNearest.lt_infinite_iff (h : IsNearest q n) : n < infiniteMagnitude ↔ q < overflow := by
  have hlast : infiniteMagnitude - 1 < infiniteMagnitude := by decide
  constructor
  · intro hn
    by_contra hq
    have hhalf : IsNearest overflow infiniteMagnitude :=
      isNearest_half two_mul_overflow (.inr rfl) rfl
    exact (hhalf.mono h (not_lt.mp hq)).not_gt hn
  · intro hq
    by_contra hn
    have hle := magnitudeValue_strictMono.monotone (not_lt.mp hn)
    have hlt := magnitudeValue_strictMono hlast
    have hsum := add_le_of_dist_le (hlt.trans_le hle) (h.le (infiniteMagnitude - 1))
    linarith [two_mul_overflow]

theorem dist_magnitude_le (hq : 0 ≤ q) (y : Binary64) :
    |q - magnitudeValue y.magnitude| ≤ |q - y.value| := by
  have hv := magnitudeValue_nonneg y.magnitude
  rw [value_eq]
  split_ifs
  · have habs : |q - -1 * magnitudeValue y.magnitude| = q + magnitudeValue y.magnitude := by
      rw [abs_of_nonneg (by linarith)]
      ring
    rw [habs, abs_le]
    constructor <;> linarith
  · rw [one_mul]

/-- Rounding chooses among all floats, though the nearest magnitude is chosen only among those
without a sign. -/
theorem IsNearest.isRounded (hq : 0 ≤ q) (h : IsNearest q n) :
    IsRounded q (ofMagnitude (min n infiniteMagnitude)) where
  isFinite_iff := by
    rw [isFinite_ofMagnitude (min_le_right ..), ← h.lt_infinite_iff]
    omega
  isInfinite_iff := by
    rw [isInfinite_ofMagnitude (min_le_right ..), ← not_lt, ← h.lt_infinite_iff]
    omega
  nearest hx y _ := by
    have hmin : min n infiniteMagnitude = n := by
      rw [isFinite_ofMagnitude (min_le_right ..)] at hx
      omega
    rw [value_ofMagnitude (min_le_right ..), hmin]
    exact (h.le y.magnitude).trans (dist_magnitude_le hq y)
  even hx y _ hne hdist := by
    have hmin : min n infiniteMagnitude = n := by
      rw [isFinite_ofMagnitude (min_le_right ..)] at hx
      omega
    rw [value_ofMagnitude (min_le_right ..), hmin] at hne hdist
    rw [toNat_ofMagnitude (min_le_right ..), hmin]
    have hle := (dist_magnitude_le hq y).trans_eq hdist
    by_cases hy : y.magnitude = n
    · have hneg : y.isNegative = true := by
        by_contra hpos
        rw [value_eq, if_neg hpos, one_mul, hy] at hne
        exact hne rfl
      -- as far from a value as from its opposite is only zero
      rw [value_eq, if_pos hneg, hy] at hne hdist
      have hzero : q * magnitudeValue n = 0 := by
        have hsq := congrArg (· ^ 2) hdist
        simp only [sq_abs] at hsq
        linarith
      rcases mul_eq_zero.mp hzero with rfl | hv
      · rw [h.unique (magnitudeValue_zero ▸ isNearest_magnitudeValue 0)]
      · rw [hv] at hne
        simp at hne
    · exact h.even y.magnitude hy (le_antisymm hle (h.le _))

theorem ofDecimal_eq {d : Decimal} (h : IsNearest d.value n) :
    ofDecimal d = ofMagnitude (min n infiniteMagnitude) := by
  have hnearest := isNearest_ratio d.ratio.1 d.ratio_den_pos
  rw [Decimal.ratio_eq_value] at hnearest
  rw [ofDecimal, nearestMagnitude_eq, hnearest.unique h]

theorem exists_ofDecimal (d : Decimal) :
    ∃ n, IsNearest d.value n ∧ ofDecimal d = ofMagnitude (min n infiniteMagnitude) := by
  have hvalue : 0 ≤ d.value := by
    unfold Decimal.value
    positivity
  obtain ⟨n, hn⟩ := exists_isNearest hvalue
  exact ⟨n, hn, ofDecimal_eq hn⟩

/-- What is read is a magnitude, so it has no sign and is a number. -/
theorem exists_magnitude (d : Decimal) :
    ∃ m, m ≤ infiniteMagnitude ∧ ofDecimal d = ofMagnitude m := by
  obtain ⟨n, -, hd⟩ := exists_ofDecimal d
  exact ⟨_, min_le_right n infiniteMagnitude, hd⟩

theorem isNearest_zero (exponent : Int) : IsNearest (Decimal.value ⟨0, exponent⟩) 0 := by
  have hvalue : Decimal.value ⟨0, exponent⟩ = magnitudeValue 0 := by
    simp [Decimal.value, magnitudeValue_zero]
  exact hvalue ▸ isNearest_magnitudeValue 0

end rounding

section text

variable {m : Nat}

theorem ofText?_of_pointed {d : Decimal} {whole fraction : List Char}
    (h : d.IsPointed whole fraction) (hm : m < infiniteMagnitude) (hd : IsNearest d.value m) :
    ofText? (pointed whole fraction) = some (ofMagnitude m) := by
  obtain ⟨run, rfl⟩ := h.isWhole.exists_run
  rw [ofText?, ofText?_pointed run h.isDigit, Option.map_some,
    ofDecimal_eq (h.value_eq.symm ▸ hd), min_eq_left hm.le]

/-- What a finite float shows is digits with no exponent, and reading them gives the float. -/
theorem plain_of_finite (hm : m < infiniteMagnitude) :
    IsPlain (ofMagnitude m).plain.toList ∧
      ofText? (ofMagnitude m).plain.toList = some (ofMagnitude m) := by
  have hfinite : ¬ (ofMagnitude m).isInfinite = true := by
    rw [isInfinite_ofMagnitude hm.le]
    exact not_not.mpr hm
  rw [plain, isNaN_ofMagnitude hm.le, if_neg Bool.false_ne_true, if_neg hfinite,
    sign_ofMagnitude hm.le, magnitude_ofMagnitude hm.le, String.empty_append, String.empty_append]
  split_ifs with hzero
  · subst hzero
    have hpointed : Decimal.IsPointed ⟨0, 0⟩ ['0'] [] :=
      ⟨.zero, by simp, rfl, fun _ => by simp⟩
    exact ⟨⟨['0'], [], rfl, hpointed.isWhole, hpointed.isDigit, by simp⟩,
      ofText?_of_pointed hpointed hm (isNearest_zero 0)⟩
  · obtain ⟨hnearest, hlast⟩ := shortest_spec hm .up
    obtain ⟨whole, fraction, hplain, hpointed⟩ :=
      @Decimal.exists_isPointed (shortest .up m) (fun h => hlast (by rw [h]))
    rw [hplain]
    exact ⟨⟨whole, fraction, rfl, hpointed.isWhole, hpointed.isDigit, hpointed.no_zero hlast⟩,
      ofText?_of_pointed hpointed hm hnearest⟩

end text

end Binary64

theorem Lexeme.feed_not_mem_float (whole : DigitRun) {fraction : List Char}
    (digits : ∀ c ∈ fraction, c.isDigit = true) :
    '\n' ∉ (Lexeme.float whole fraction digits).text := by
  have hfeed : ∀ c : Char, c.isDigit = true → c ≠ '\n' := by
    rintro c hc rfl
    exact absurd hc (by decide)
  exact fun hmem => forall_mem_point whole digits hfeed (by decide) _ hmem rfl

/-- The ratio that digits before a point and behind it write. -/
def pointValue (whole fraction : List Char) : ℚ :=
  Nat.ofDigitChars 10 whole 0 + Nat.ofDigitChars 10 fraction 0 / 10 ^ fraction.length

theorem Decimal.value_ofDigits (whole fraction : List Char) :
    (Decimal.ofDigits whole fraction).value = pointValue whole fraction := by
  rw [value, ofDigits, digitsValue_append, zpow_neg, zpow_natCast, ← div_eq_mul_inv, pointValue]
  push_cast
  rw [add_div, mul_div_cancel_left₀ _ (by positivity)]
  rfl

/-- The token shows digits with no exponent, and they stand for `x` again. -/
def Token.RestoresFloat (t : Token) (x : Binary64) : Prop :=
  ∃ digits : String, t.display = "FLOAT:" ++ digits ∧ IsPlain digits.toList ∧
    Binary64.ofText? digits.toList = some x

/-- Digits, a point and perhaps more digits are one float, however many they are: the one that the
number written is rounded to. When it is finite, its display gives it back. -/
theorem scan_of_point (s : Scanner) (whole : DigitRun) (fraction : List Char)
    (digits : ∀ c ∈ fraction, c.isDigit = true) :
    let text := whole.chars ++ '.' :: fraction
    ∃ x : Binary64,
      let token : Token := ⟨.float x, .covering .first text⟩
      (s.scan (.ofText (String.ofList text))).1 = .ok (.ofRows [[token]]) ∧
        Binary64.ofText? text = some x ∧ x.IsRounded (pointValue whole.chars fraction) ∧
        x.isNaN = false ∧ x.isNegative = false ∧
        (x.isFinite = true → token.RestoresFloat x) := by
  intro text
  obtain ⟨n, hnearest, hdecimal⟩ := Binary64.exists_ofDecimal (.ofDigits whole.chars fraction)
  have hle := min_le_right n Binary64.infiniteMagnitude
  refine ⟨Binary64.ofMagnitude (min n Binary64.infiniteMagnitude), ?_, ?_, ?_, ?_, ?_, ?_⟩
  · have hscan := s.scan_lexeme _ (Lexeme.feed_not_mem_float whole digits)
    rwa [Lexeme.value, hdecimal] at hscan
  · rw [Binary64.ofText?, Decimal.ofText?_digits whole digits, Option.map_some, hdecimal]
  · rw [← Decimal.value_ofDigits]
    refine hnearest.isRounded ?_
    rw [Decimal.value]
    positivity
  · exact Binary64.isNaN_ofMagnitude hle
  · exact Binary64.isNegative_ofMagnitude hle
  · intro hfinite
    rw [Binary64.isFinite_ofMagnitude hle] at hfinite
    obtain ⟨hplain, hback⟩ := Binary64.plain_of_finite hfinite
    exact ⟨_, rfl, hplain, hback⟩

theorem scan_of_point_at_tie :
    let s := Scanner.new {}
    let x : Binary64 := ⟨0x4340000000000000⟩
    let token : Token := ⟨.float x, ⟨⟨1, 1, 0⟩, ⟨1, 21, 20⟩⟩⟩
    (s.scan (.ofText "9007199254740993.000")).1 = .ok (.ofRows [[token]]) ∧
      x.IsRounded (pointValue "9007199254740993".toList "000".toList) ∧
      token.RestoresFloat x := by
  intro s x token
  let whole : DigitRun :=
    ⟨"9007199254740993".toList, by decide, List.all_eq_true.mp (by decide)⟩
  obtain ⟨y, hscan, hread, hrounded, -, -, hrestores⟩ :=
    scan_of_point s whole "000".toList (List.all_eq_true.mp (by decide))
  have hx : Binary64.ofText? (whole.chars ++ '.' :: "000".toList) = some x := by decide +kernel
  obtain rfl : x = y := Option.some.inj (hx.symm.trans hread)
  exact ⟨hscan, hrounded, hrestores (by decide +kernel)⟩

end LineLexer
