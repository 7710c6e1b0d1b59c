import LineLexer.Proofs.ShortestDigits

/-! Decimals as they are written out, with all their places and no exponent. The text is read as a
decimal of the same value. -/

namespace LineLexer

/-- Digits before the point and behind it; without a digit behind it there is no point. -/
def pointed (whole fraction : List Char) : List Char :=
  if fraction = [] then whole else whole ++ '.' :: fraction

/-- Digits with at most one point: no digit before it without need, and the last one behind it not
zero. -/
def IsPlain (text : List Char) : Prop :=
  ∃ whole fraction, text = pointed whole fraction ∧ Json.IsWhole whole ∧
    (∀ c ∈ fraction, c.isDigit = true) ∧ fraction.getLast? ≠ some '0'

theorem Json.IsWhole.exists_run {whole : List Char} (h : IsWhole whole) :
    ∃ run : DigitRun, run.chars = whole := by
  cases h with
  | zero => exact ⟨.ofNat 0, rfl⟩
  | run run h => exact ⟨run, rfl⟩

theorem forall_mem_point {p : Char → Prop} (whole : DigitRun) {fraction : List Char}
    (h : ∀ c ∈ fraction, c.isDigit = true) (hdigit : ∀ c : Char, c.isDigit = true → p c)
    (hpoint : p '.') : ∀ c ∈ whole.chars ++ '.' :: fraction, p c := by
  rw [List.forall_mem_append, List.forall_mem_cons]
  exact ⟨fun c hc => hdigit c (whole.isDigit c hc), hpoint, fun c hc => hdigit c (h c hc)⟩

theorem ofText?_pointed (whole : DigitRun) {fraction : List Char}
    (h : ∀ c ∈ fraction, c.isDigit = true) :
    Decimal.ofText? (pointed whole.chars fraction) = some (.ofDigits whole.chars fraction) := by
  unfold pointed
  split_ifs with hnil
  · have hs := @takeWhile_append_of_head Char.isDigit whole.chars [] whole.isDigit (by simp)
    rw [List.append_nil] at hs
    simp [Decimal.ofText?, hs.1, hs.2, whole.ne_nil, hnil]
  · exact Decimal.ofText?_digits whole h

section digits

theorem digitsValue_append (s t : List Char) :
    digitsValue (s ++ t) = 10 ^ t.length * digitsValue s + digitsValue t := by
  have happend : digitsValue (s ++ t) = Nat.ofDigitChars 10 t (digitsValue s) :=
    Nat.ofDigitChars_append 0
  rw [happend, Nat.ofDigitChars_eq_ofDigitChars_zero]
  rfl

theorem digitsValue_zeros (count : Nat) : digitsValue (List.replicate count '0') = 0 :=
  Nat.ofDigitChars_replicate_zero.trans (Nat.mul_zero _)

theorem digitsValue_toDigits (n : Nat) : digitsValue (Nat.toDigits 10 n) = n :=
  Nat.ofDigitChars_ten_toDigits

theorem getLast?_toDigits {n : Nat} (h : n % 10 ≠ 0) :
    (Nat.toDigits 10 n).getLast? ≠ some '0' := by
  have hdigit : ∀ d < 10, d ≠ 0 → Nat.digitChar d ≠ '0' := by decide
  by_cases hn : n < 10
  · rw [Nat.toDigits_of_lt_base hn]
    simpa using hdigit n hn (by omega)
  · rw [Nat.toDigits_of_base_le (by decide) (by omega), List.getLast?_concat]
    simpa using hdigit (n % 10) (Nat.mod_lt _ (by decide)) h

end digits

/-- `whole` and `fraction` are the digits of `d` before the point and behind it. -/
structure Decimal.IsPointed (d : Decimal) (whole fraction : List Char) : Prop where
  isWhole : Json.IsWhole whole
  isDigit : ∀ c ∈ fraction, c.isDigit = true
  value_eq : (ofDigits whole fraction).value = d.value
  no_zero : d.digits % 10 ≠ 0 → fraction.getLast? ≠ some '0'

namespace Decimal

variable {d : Decimal}

theorem isPointed_of_nonneg (h : d.digits ≠ 0) (he : 0 ≤ d.exponent) :
    d.IsPointed (Nat.toDigits 10 d.digits ++ List.replicate d.exponent.toNat '0') [] where
  isWhole := by
    refine .run ⟨_, List.append_ne_nil_of_left_ne_nil Nat.toDigits_ne_nil _,
      List.forall_mem_append.mpr ⟨(DigitRun.ofNat d.digits).isDigit, isDigit_of_mem_zeros⟩⟩ ?_
    rw [List.head?_append_of_ne_nil _ Nat.toDigits_ne_nil]
    exact head?_toDigits h
  isDigit := by simp
  value_eq := by
    have hpow : (10 : ℚ) ^ d.exponent = 10 ^ d.exponent.toNat := by
      rw [← zpow_natCast, Int.toNat_of_nonneg he]
    simp [ofDigits, value, digitsValue_append, digitsValue_zeros, digitsValue_toDigits, hpow,
      mul_comm]
  no_zero _ := by simp

theorem isPointed_of_lt (h : d.digits ≠ 0) {places : Nat} (he : d.exponent = -places)
    (hpos : 0 < places) (hlt : places < (Nat.toDigits 10 d.digits).length) :
    d.IsPointed ((Nat.toDigits 10 d.digits).take ((Nat.toDigits 10 d.digits).length - places))
      ((Nat.toDigits 10 d.digits).drop ((Nat.toDigits 10 d.digits).length - places)) where
  isWhole := by
    refine .run ⟨(Nat.toDigits 10 d.digits).take _, by simp; omega,
      fun c hc => (DigitRun.ofNat d.digits).isDigit c (List.mem_of_mem_take hc)⟩ ?_
    rw [List.head?_take, if_neg (by omega)]
    exact head?_toDigits h
  isDigit c hc := (DigitRun.ofNat d.digits).isDigit c (List.mem_of_mem_drop hc)
  value_eq := by
    have hlength : (Nat.toDigits 10 d.digits).length -
        ((Nat.toDigits 10 d.digits).length - places) = places := by omega
    rw [ofDigits, List.take_append_drop, digitsValue_toDigits, List.length_drop, hlength, ← he]
  no_zero hzero := by
    rw [List.getLast?_drop, if_neg (by omega)]
    exact getLast?_toDigits hzero

theorem isPointed_of_ge {places : Nat} (he : d.exponent = -places)
    (hge : (Nat.toDigits 10 d.digits).length ≤ places) :
    d.IsPointed ['0'] (List.replicate (places - (Nat.toDigits 10 d.digits).length) '0' ++
      Nat.toDigits 10 d.digits) where
  isWhole := .zero
  isDigit := List.forall_mem_append.mpr ⟨isDigit_of_mem_zeros, (DigitRun.ofNat d.digits).isDigit⟩
  value_eq := by
    have hzero : digitsValue ['0'] = 0 := rfl
    have hlength : (places - (Nat.toDigits 10 d.digits).length) +
        (Nat.toDigits 10 d.digits).length = places := by omega
    rw [ofDigits, List.length_append, List.length_replicate, hlength, ← he, digitsValue_append,
      digitsValue_append, digitsValue_zeros, digitsValue_toDigits, hzero]
    simp [value]
  no_zero hzero := by
    rw [List.getLast?_append_of_ne_nil _ Nat.toDigits_ne_nil]
    exact getLast?_toDigits hzero

/-- What is written out has the value of the decimal. -/
theorem exists_isPointed (h : d.digits ≠ 0) :
    ∃ whole fraction, d.plain.toList = pointed whole fraction ∧ d.IsPointed whole fraction := by
  rw [plain]
  split_ifs with he hlt
  · refine ⟨_, _, ?_, isPointed_of_nonneg h he⟩
    rw [String.toList_ofList, pointed, if_pos rfl]
  · have hplaces : d.exponent = -((-d.exponent).toNat : ℕ) := by omega
    refine ⟨_, _, ?_, isPointed_of_lt h hplaces (by omega) hlt⟩
    rw [String.toList_ofList, pointed, if_neg (by simp; omega)]
  · have hplaces : d.exponent = -((-d.exponent).toNat : ℕ) := by omega
    refine ⟨_, _, ?_, isPointed_of_ge hplaces (Nat.not_lt.mp hlt)⟩
    rw [String.toList_ofList, pointed, if_neg (by simp [Nat.toDigits_ne_nil])]
    rfl

end Decimal

end LineLexer
