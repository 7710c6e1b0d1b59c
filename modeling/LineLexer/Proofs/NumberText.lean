import LineLexer.Binary64.Text
import LineLexer.Json.Symbol
import LineLexer.Proofs.Lexeme
import Mathlib.Data.List.Basic

/-! Numbers in a JSON text. Whatever number is printed, all of it is read again as one number, and
what stands behind it is left. -/

namespace LineLexer

namespace Json

/-- Zero, or digits that do not begin with zero. -/
inductive IsWhole : List Char → Prop where
  | zero : IsWhole ['0']
  | run (run : DigitRun) (h : run.chars.head? ≠ some '0') : IsWhole run.chars

inductive IsFraction : List Char → Prop where
  | none : IsFraction []
  | places (run : DigitRun) : IsFraction ('.' :: run.chars)

inductive IsExponent : List Char → Prop where
  | none : IsExponent []
  | unsigned {letter : Char} (hl : letter = 'e' ∨ letter = 'E') (run : DigitRun) :
      IsExponent (letter :: run.chars)
  | signed {letter mark : Char} (hl : letter = 'e' ∨ letter = 'E') (h : mark = '+' ∨ mark = '-')
      (run : DigitRun) : IsExponent (letter :: mark :: run.chars)

inductive IsUnsigned : List Char → Prop where
  | parts {w f e : List Char} (whole : IsWhole w) (fraction : IsFraction f)
      (exponent : IsExponent e) : IsUnsigned (w ++ f ++ e)

inductive IsNumber : List Char → Prop where
  | positive {s : List Char} (h : IsUnsigned s) : IsNumber s
  | negative {s : List Char} (h : IsUnsigned s) : IsNumber ('-' :: s)

/-- What follows does not go on with a number. -/
def EndsNumber (rest : List Char) : Prop :=
  ∀ c ∈ rest.head?, c.isDigit = false ∧ c ≠ '.' ∧ c ≠ 'e' ∧ c ≠ 'E'

theorem digits?_append (run : DigitRun) {rest : List Char}
    (hr : ∀ c ∈ rest.head?, c.isDigit = false) :
    digits? (run.chars ++ rest) = some (run.chars, rest) := by
  have hs := takeWhile_append_of_head run.isDigit hr
  obtain ⟨c, s, hrun, -⟩ := run.exists_cons
  simp only [digits?, hs.1, hs.2]
  rw [hrun]

theorem whole?_append {w : List Char} (h : IsWhole w) {rest : List Char}
    (hr : ∀ c ∈ rest.head?, c.isDigit = false) : whole? (w ++ rest) = some (w, rest) := by
  cases h with
  | zero => rfl
  | run run h =>
    obtain ⟨c, s, hrun, -⟩ := run.exists_cons
    have hc : c ≠ '0' := by simpa [hrun] using h
    rw [whole?, digits?_append run hr]
    intro r hzero
    rw [hrun] at hzero
    exact hc (List.cons.inj hzero).1

theorem IsFraction.head {f : List Char} (h : IsFraction f) {rest : List Char}
    (hr : ∀ c ∈ rest.head?, c.isDigit = false) : ∀ c ∈ (f ++ rest).head?, c.isDigit = false := by
  cases h with
  | none => exact hr
  | places run => simp

theorem IsExponent.head {e : List Char} (h : IsExponent e) {rest : List Char}
    (hr : EndsNumber rest) : ∀ c ∈ (e ++ rest).head?, c.isDigit = false ∧ c ≠ '.' := by
  cases h with
  | none => exact fun c hc => ⟨(hr c hc).1, (hr c hc).2.1⟩
  | unsigned hl => rcases hl with rfl | rfl <;> simp
  | signed hl => rcases hl with rfl | rfl <;> simp

theorem fraction?_append {f : List Char} (h : IsFraction f) {rest : List Char}
    (hr : ∀ c ∈ rest.head?, c.isDigit = false ∧ c ≠ '.') :
    fraction? (f ++ rest) = some (f, rest) := by
  cases h with
  | none =>
    rw [List.nil_append, fraction?]
    intro r hpoint
    exact absurd rfl (hr '.' (by simp [hpoint])).2
  | places run =>
    rw [List.cons_append, fraction?, digits?_append run fun c hc => (hr c hc).1]
    rfl

theorem exponent?_append {e : List Char} (h : IsExponent e) {rest : List Char}
    (hr : EndsNumber rest) : exponent? (e ++ rest) = some (e, rest) := by
  cases h with
  | none =>
    cases rest with
    | nil => rfl
    | cons c rest =>
      obtain ⟨-, -, he, hE⟩ := hr c (by simp)
      simp [exponent?, he, hE]
  | @unsigned letter hl run =>
    have hdigits := digits?_append run fun c hc => (hr c hc).1
    obtain ⟨c, s, hrun, hc⟩ := run.exists_cons
    have hplus : c ≠ '+' := fun h => absurd (h ▸ hc) (by decide)
    have hminus : c ≠ '-' := fun h => absurd (h ▸ hc) (by decide)
    rw [hrun, List.cons_append] at hdigits
    rw [hrun]
    simp [exponent?, hl, hdigits, hplus, hminus]
  | signed hl hmark run =>
    have hdigits := digits?_append run fun c hc => (hr c hc).1
    rcases hmark with rfl | rfl <;> simp [exponent?, hl, hdigits]

theorem unsigned?_append {s : List Char} (h : IsUnsigned s) {rest : List Char}
    (hr : EndsNumber rest) : unsigned? (s ++ rest) = some (s, rest) := by
  cases h with
  | @parts w f e whole fraction exponent =>
    have hexponent := exponent.head hr
    have hfraction := fraction.head fun c hc => (hexponent c hc).1
    have hw := whole?_append whole hfraction
    have hf := fraction?_append fraction hexponent
    have he := exponent?_append exponent hr
    simp only [List.append_assoc] at hw ⊢
    simp [unsigned?, hw, hf, he]

theorem IsUnsigned.exists_cons {s : List Char} (h : IsUnsigned s) :
    ∃ c t, s = c :: t ∧ c.isDigit = true := by
  cases h with
  | @parts w f e whole fraction exponent =>
    cases whole with
    | zero => exact ⟨'0', _, rfl, by decide⟩
    | run run =>
      obtain ⟨c, t, hrun, hc⟩ := run.exists_cons
      exact ⟨c, t ++ f ++ e, by rw [hrun]; rfl, hc⟩

theorem number?_append {s : List Char} (h : IsNumber s) {rest : List Char}
    (hr : EndsNumber rest) : number? (s ++ rest) = some (s, rest) := by
  cases h with
  | positive h =>
    obtain ⟨c, t, rfl, hc⟩ := h.exists_cons
    rw [number?, unsigned?_append h hr]
    intro r hminus
    have hc' : c = '-' := (List.cons.inj hminus).1
    subst hc'
    exact absurd hc (by decide)
  | negative h =>
    rw [List.cons_append, number?, unsigned?_append h hr]
    rfl

section reading

variable {s t rest : List Char}

theorem exists_of_digits? (h : digits? s = some (t, rest)) :
    ∃ run : DigitRun, run.chars = t ∧ s = t ++ rest := by
  unfold digits? at h
  split at h
  · simp at h
  · next hne =>
    obtain ⟨rfl, rfl⟩ := Prod.mk.inj (Option.some.inj h)
    exact ⟨⟨_, hne, fun _ hd => List.mem_takeWhile_imp hd⟩, rfl,
      List.takeWhile_append_dropWhile.symm⟩

theorem isWhole_of_whole? (h : whole? s = some (t, rest)) : s = t ++ rest ∧ IsWhole t := by
  unfold whole? at h
  split at h
  · obtain ⟨rfl, rfl⟩ := Prod.mk.inj (Option.some.inj h)
    exact ⟨rfl, .zero⟩
  · next hzero =>
    obtain ⟨run, rfl, rfl⟩ := exists_of_digits? h
    refine ⟨rfl, .run run fun hhead => ?_⟩
    obtain ⟨u, hu⟩ := List.head?_eq_some_iff.mp hhead
    exact hzero (u ++ rest) (by rw [hu]; rfl)

theorem isFraction_of_fraction? (h : fraction? s = some (t, rest)) :
    s = t ++ rest ∧ IsFraction t := by
  unfold fraction? at h
  split at h
  · obtain ⟨x, hx, h⟩ := Option.map_eq_some_iff.mp h
    obtain ⟨rfl, rfl⟩ := Prod.mk.inj h
    obtain ⟨run, hrun, rfl⟩ := exists_of_digits? hx
    exact ⟨rfl, hrun ▸ .places run⟩
  · obtain ⟨rfl, rfl⟩ := Prod.mk.inj (Option.some.inj h)
    exact ⟨rfl, .none⟩

theorem isExponent_of_exponent? (h : exponent? s = some (t, rest)) :
    s = t ++ rest ∧ IsExponent t := by
  unfold exponent? at h
  split at h
  · next e r =>
    split at h
    · next hletter =>
      split at h
      all_goals
        obtain ⟨x, hx, h⟩ := Option.map_eq_some_iff.mp h
        obtain ⟨rfl, rfl⟩ := Prod.mk.inj h
        obtain ⟨run, hrun, rfl⟩ := exists_of_digits? hx
        rw [← hrun]
      · exact ⟨rfl, .signed hletter (.inl rfl) run⟩
      · exact ⟨rfl, .signed hletter (.inr rfl) run⟩
      · exact ⟨rfl, .unsigned hletter run⟩
    · obtain ⟨rfl, rfl⟩ := Prod.mk.inj (Option.some.inj h)
      exact ⟨rfl, .none⟩
  · obtain ⟨rfl, rfl⟩ := Prod.mk.inj (Option.some.inj h)
    exact ⟨rfl, .none⟩

theorem isUnsigned_of_unsigned? (h : unsigned? s = some (t, rest)) :
    s = t ++ rest ∧ IsUnsigned t := by
  simp only [unsigned?, Option.bind_eq_bind, Option.bind_eq_some_iff] at h
  obtain ⟨w, hw, f, hf, e, he, h⟩ := h
  obtain ⟨rfl, rfl⟩ := Prod.mk.inj (Option.some.inj h)
  obtain ⟨hs, hwhole⟩ := isWhole_of_whole? hw
  obtain ⟨hs', hfraction⟩ := isFraction_of_fraction? hf
  obtain ⟨hs'', hexponent⟩ := isExponent_of_exponent? he
  refine ⟨?_, .parts hwhole hfraction hexponent⟩
  rw [hs, hs', hs'', List.append_assoc, List.append_assoc]

theorem isNumber_of_number? (h : number? s = some (t, rest)) : s = t ++ rest ∧ IsNumber t := by
  unfold number? at h
  split at h
  · obtain ⟨x, hx, h⟩ := Option.map_eq_some_iff.mp h
    obtain ⟨rfl, rfl⟩ := Prod.mk.inj h
    obtain ⟨hs, hunsigned⟩ := isUnsigned_of_unsigned? hx
    exact ⟨congrArg _ hs, .negative hunsigned⟩
  · obtain ⟨hs, hunsigned⟩ := isUnsigned_of_unsigned? h
    exact ⟨hs, .positive hunsigned⟩

end reading

theorem IsNumber.exists_cons {s : List Char} (h : IsNumber s) :
    ∃ c t, s = c :: t ∧ (c = '-' ∨ c.isDigit = true) := by
  cases h with
  | positive h =>
    obtain ⟨c, t, hs, hc⟩ := h.exists_cons
    exact ⟨c, t, hs, .inr hc⟩
  | negative h => exact ⟨'-', _, rfl, .inl rfl⟩

end Json

theorem head?_toDigits {n : Nat} (h : n ≠ 0) : (Nat.toDigits 10 n).head? ≠ some '0' := by
  induction n using Nat.strongRecOn with
  | ind n ih =>
    by_cases hn : n < 10
    · rw [Nat.toDigits_of_lt_base hn]
      simpa using h
    · have hquotient : n / 10 ≠ 0 := by omega
      rw [Nat.toDigits_of_base_le (by decide) (by omega),
        List.head?_append_of_ne_nil _ Nat.toDigits_ne_nil]
      exact ih _ (by omega) hquotient

def DigitRun.ofNat (n : Nat) : DigitRun :=
  ⟨Nat.toDigits 10 n, Nat.toDigits_ne_nil,
    fun _ h => Nat.isDigit_of_mem_toDigits (by decide) (by decide) h⟩

theorem isDigit_of_mem_zeros {count : Nat} : ∀ c ∈ List.replicate count '0', c.isDigit = true := by
  intro c hc
  rw [List.eq_of_mem_replicate hc]
  decide

namespace Json

theorem isWhole_toDigits (n : Nat) : IsWhole (Nat.toDigits 10 n) := by
  by_cases h : n = 0
  · rw [h]
    exact .zero
  · exact .run (.ofNat n) (head?_toDigits h)

theorem isUnsigned_repr (n : Nat) : IsUnsigned n.repr.toList := by
  have h := IsUnsigned.parts (isWhole_toDigits n) .none .none
  rwa [List.append_nil, List.append_nil, ← Nat.toList_repr] at h

theorem isNumber_nat (n : Nat) : IsNumber n.repr.toList := .positive (isUnsigned_repr n)

theorem isNumber_int (n : Int) : IsNumber n.repr.toList := by
  cases n with
  | ofNat n => exact .positive (isUnsigned_repr n)
  | negSucc n =>
    have h : (Int.negSucc n).repr.toList = '-' :: (n + 1).repr.toList := by
      rw [Int.repr, String.toList_append]
      rfl
    rw [h]
    exact .negative (isUnsigned_repr (n + 1))

section decimal

variable {d : Decimal}

theorem isUnsigned_point (h : d.digits ≠ 0) {count : Nat} (hpos : 0 < count)
    (hlt : count < (Nat.toDigits 10 d.digits).length) {e : List Char} (he : IsExponent e) :
    IsUnsigned ((Nat.toDigits 10 d.digits).take count ++
      '.' :: (Nat.toDigits 10 d.digits).drop count ++ e) := by
  have hdigits := (DigitRun.ofNat d.digits).isDigit
  have hhead := head?_toDigits h
  have hwhole := IsWhole.run
    ⟨(Nat.toDigits 10 d.digits).take count, by simp; omega,
      fun c hc => hdigits c (List.mem_of_mem_take hc)⟩
    (by rwa [List.head?_take, if_neg (by omega)])
  have hplaces := IsFraction.places
    ⟨(Nat.toDigits 10 d.digits).drop count, by simp; omega,
      fun c hc => hdigits c (List.mem_of_mem_drop hc)⟩
  exact .parts hwhole hplaces he

theorem isUnsigned_plain (h : d.digits ≠ 0) (hneg : d.exponent < 0) :
    IsUnsigned d.plain.toList := by
  have hnot : ¬ d.exponent ≥ 0 := by omega
  rw [Decimal.plain]
  simp only [if_neg hnot]
  split
  · next hlt =>
    have hpos : 0 < (Nat.toDigits 10 d.digits).length - (-d.exponent).toNat := by omega
    have hpoint := isUnsigned_point h hpos (by omega) .none
    rw [List.append_nil] at hpoint
    rwa [String.toList_ofList]
  · have hplaces := IsFraction.places
      ⟨List.replicate ((-d.exponent).toNat - (Nat.toDigits 10 d.digits).length) '0' ++
          Nat.toDigits 10 d.digits,
        List.append_ne_nil_of_right_ne_nil _ Nat.toDigits_ne_nil,
        List.forall_mem_append.mpr ⟨isDigit_of_mem_zeros, (DigitRun.ofNat d.digits).isDigit⟩⟩
    have hzero := IsUnsigned.parts .zero hplaces .none
    rw [String.toList_ofList]
    simpa using hzero

theorem isUnsigned_scientific (h : d.digits ≠ 0) : IsUnsigned d.scientific.toList := by
  have hexponent : ∀ e : Int,
      IsExponent ('e' :: (if e < 0 then "-" else "+").toList ++ Nat.toDigits 10 e.natAbs) := by
    intro e
    split
    · exact .signed (.inl rfl) (.inr rfl) (.ofNat e.natAbs)
    · exact .signed (.inl rfl) (.inl rfl) (.ofNat e.natAbs)
  have he := hexponent (d.exponent + ((Nat.toDigits 10 d.digits).length : Int) - 1)
  have hpos : 0 < (Nat.toDigits 10 d.digits).length := Nat.length_toDigits_pos
  rw [Decimal.scientific]
  simp only [String.toList_append, String.toList_ofList, Nat.toList_repr]
  split
  · next hone =>
    have hwhole : (Nat.toDigits 10 d.digits).take 1 = Nat.toDigits 10 d.digits :=
      List.take_of_length_le (by omega)
    have hparts := IsUnsigned.parts (isWhole_toDigits d.digits) .none he
    simpa [hwhole] using hparts
  · have hpoint := isUnsigned_point h Nat.one_pos (by omega) he
    simpa using hpoint

theorem isUnsigned_jsonNumber (h : d.digits ≠ 0) : IsUnsigned d.jsonNumber.toList := by
  rw [Decimal.jsonNumber]
  split
  · split
    · next hpos =>
      have hhead : (Nat.toDigits 10 d.digits ++
          List.replicate d.exponent.toNat '0').head? ≠ some '0' := by
        rw [List.head?_append_of_ne_nil _ Nat.toDigits_ne_nil]
        exact head?_toDigits h
      have hwhole := IsWhole.run ⟨_, List.append_ne_nil_of_left_ne_nil Nat.toDigits_ne_nil _,
        List.forall_mem_append.mpr ⟨(DigitRun.ofNat d.digits).isDigit, isDigit_of_mem_zeros⟩⟩ hhead
      have hparts := IsUnsigned.parts hwhole (.places ⟨['0'], by simp, by simp⟩) .none
      simpa [Decimal.plain, hpos] using hparts
    · exact isUnsigned_plain h (by omega)
  · exact isUnsigned_scientific h

end decimal

end Json

namespace Binary64

theorem units_ne_zero {m : Nat} (h : m ≠ 0) : units m ≠ 0 := by
  rw [units]
  split
  · next hsmall =>
    have hdiv := Nat.div_add_mod m (Nat.pow 2 52)
    rw [hsmall] at hdiv
    omega
  · have hpow : 0 < Nat.pow 2 (m / Nat.pow 2 52 - 1) := Nat.pow_pos (by decide)
    have hbase : 0 < Nat.pow 2 52 := Nat.pow_pos (by decide)
    exact Nat.ne_of_gt (Nat.mul_pos (Nat.add_pos_left hbase _) hpow)

/-- Only a neighbour that is a candidate is taken. -/
theorem of_nearerNeighbour {tie : TieRule} {num den low n : Nat} {lowFits highFits : Bool}
    (h : nearerNeighbour tie num den low lowFits highFits = some n) :
    n = low ∧ lowFits = true ∨ n = low + 1 ∧ highFits = true := by
  cases lowFits <;> cases highFits
  case false.false => simp [nearerNeighbour] at h
  case false.true => exact .inr ⟨(Option.some.inj h).symm, rfl⟩
  case true.false => exact .inl ⟨(Option.some.inj h).symm, rfl⟩
  case true.true =>
    simp only [nearerNeighbour, and_true] at h ⊢
    split at h
    · exact .inl (Option.some.inj h).symm
    split at h
    · exact .inr (Option.some.inj h).symm
    cases tie with
    | up => exact .inr (Option.some.inj h).symm
    | toEven =>
      have hn := Option.some.inj h
      omega

theorem onGrid_digits {tie : TieRule} {m : Nat} {exponent : Int} {d : Decimal}
    (h : onGrid tie m exponent = some d) : d.digits ≠ 0 := by
  obtain ⟨digits, hdigits, rfl⟩ := Option.map_eq_some_iff.mp h
  rcases of_nearerNeighbour hdigits with ⟨rfl, hfits⟩ | ⟨rfl, -⟩
  · exact bne_iff_ne.mp (Bool.and_eq_true_iff.mp hfits).1
  · exact Nat.succ_ne_zero _

theorem shortestFrom_digits (tie : TieRule) {m : Nat} (h : m ≠ 0) (exponent : Int) (count : Nat) :
    (shortestFrom tie m exponent count).digits ≠ 0 := by
  induction count generalizing exponent with
  | zero =>
    have hpow : ∀ n, Nat.pow 5 n ≠ 0 := fun n => Nat.ne_of_gt (Nat.pow_pos (by decide))
    exact Nat.mul_ne_zero (units_ne_zero h) (hpow 1074)
  | succ count ih =>
    rw [shortestFrom]
    split
    · next d hd => exact onGrid_digits hd
    · exact ih _

theorem isNumber_jsonNumber? {x : Binary64} {s : String} (h : x.jsonNumber? = some s) :
    Json.IsNumber s.toList := by
  have hsign : ∀ t : String, Json.IsUnsigned t.toList → Json.IsNumber (x.sign ++ t).toList := by
    intro t ht
    rw [sign]
    split
    · rw [String.toList_append]
      exact .negative ht
    · rw [String.empty_append]
      exact .positive ht
  rw [jsonNumber?] at h
  split at h
  · split at h
    · obtain rfl := Option.some.inj h
      exact hsign _ (.parts .zero (.places ⟨['0'], by simp, by simp⟩) .none)
    · next hzero =>
      obtain rfl := Option.some.inj h
      exact hsign _ (Json.isUnsigned_jsonNumber (shortestFrom_digits _ hzero _ _))
  · simp at h

end Binary64

end LineLexer
