import LineLexer.Proofs.Floats
import Mathlib

/-! The values of the numbers in a JSON text. A float is read again from its number, whether that
is written out or with an exponent. No smaller import has the lemmas on `String.toInt?`. -/

namespace LineLexer

def isExponentMark (c : Char) : Bool := c == 'e' || c == 'E'

/-- What an exponent stands for, with its letter. Without the letter it is zero. -/
def exponentValue? : List Char → Option Int
  | [] => some 0
  | _ :: '+' :: digits => (String.ofList digits).toInt?
  | _ :: digits => (String.ofList digits).toInt?

/-- Reads a decimal without a sign; it may have an exponent. -/
def Decimal.ofNumber? (s : List Char) : Option Decimal := do
  let d ← ofText? (s.takeWhile (!isExponentMark ·))
  let e ← exponentValue? (s.dropWhile (!isExponentMark ·))
  some ⟨d.digits, d.exponent + e⟩

def Binary64.ofNumber? (s : List Char) : Option Binary64 := (Decimal.ofNumber? s).map ofDecimal

def Binary64.infinity : Binary64 := ofMagnitude infiniteMagnitude

theorem isExponentMark_of_pointed {whole : DigitRun} {fraction : List Char}
    (h : ∀ c ∈ fraction, c.isDigit = true) :
    ∀ c ∈ pointed whole.chars fraction, isExponentMark c = false := by
  have hdigit : ∀ c : Char, c.isDigit = true → isExponentMark c = false := by
    intro c hc
    rw [isExponentMark, Bool.or_eq_false_iff, beq_eq_false_iff_ne, beq_eq_false_iff_ne]
    constructor <;> rintro rfl <;> simp at hc
  unfold pointed
  split_ifs
  · exact fun c hc => hdigit c (whole.isDigit c hc)
  · exact forall_mem_point whole h hdigit rfl

namespace Decimal

theorem ofNumber?_pointed (whole : DigitRun) {fraction tail : List Char} {e : Int}
    (h : ∀ c ∈ fraction, c.isDigit = true) (ht : ∀ c ∈ tail.head?, isExponentMark c = true)
    (he : exponentValue? tail = some e) :
    ofNumber? (pointed whole.chars fraction ++ tail) =
      some ⟨digitsValue (whole.chars ++ fraction), -fraction.length + e⟩ := by
  have hs := @takeWhile_append_of_head (!isExponentMark ·) (pointed whole.chars fraction) tail
    (fun c hc => by rw [isExponentMark_of_pointed h c hc]; rfl) (fun c hc => by rw [ht c hc]; rfl)
  rw [ofNumber?, hs.1, hs.2, ofText?_pointed whole h, he]
  rfl

theorem ofNumber?_places (whole : DigitRun) {fraction : List Char}
    (h : ∀ c ∈ fraction, c.isDigit = true) :
    ofNumber? (pointed whole.chars fraction) = some (ofDigits whole.chars fraction) := by
  have hread := @ofNumber?_pointed whole fraction [] 0 h (by simp) rfl
  rwa [List.append_nil, Int.add_zero] at hread

theorem exponentValue?_repr (e : Int) :
    exponentValue? ('e' :: (if e < 0 then "-" else "+").toList ++ e.natAbs.repr.toList) =
      some e := by
  have hread : (String.ofList e.repr.toList).toInt? = some e := by
    rw [String.ofList_toList]
    exact Int.toInt?_repr e
  cases e with
  | ofNat n =>
    have hsign : ¬ Int.ofNat n < 0 := Int.not_lt.mpr (Int.natCast_nonneg n)
    rw [if_neg hsign]
    exact hread
  | negSucc n =>
    rw [Int.repr, String.toList_append] at hread
    rw [if_pos (Int.negSucc_lt_zero n)]
    exact hread

theorem ofNumber?_scientific (d : Decimal) : ofNumber? d.scientific.toList = some d := by
  obtain ⟨e, he⟩ : ∃ e, e = d.exponent + (Nat.toDigits 10 d.digits).length - 1 := ⟨_, rfl⟩
  have hvalue := digitsValue_toDigits d.digits
  have hdigit := (DigitRun.ofNat d.digits).isDigit
  have hpos : 0 < (Nat.toDigits 10 d.digits).length := Nat.length_toDigits_pos
  rw [scientific]
  simp only [← he]
  change ∀ c ∈ Nat.toDigits 10 d.digits, c.isDigit = true at hdigit
  generalize Nat.toDigits 10 d.digits = ds at *
  obtain ⟨c, rest, rfl⟩ := List.exists_cons_of_length_pos hpos
  have hread := @ofNumber?_pointed
    ⟨[c], List.cons_ne_nil c [], List.forall_mem_singleton.mpr (hdigit c (by simp))⟩ rest _ e
    (fun x hx => hdigit x (List.mem_cons_of_mem _ hx)) (by simp [isExponentMark])
    (exponentValue?_repr e)
  have hd : -(rest.length : Int) + e = d.exponent := by
    rw [he, List.length_cons]
    omega
  rw [List.singleton_append, hvalue, hd] at hread
  rw [← hread]
  cases rest <;> simp [pointed]

theorem ofNumber?_jsonNumber {d : Decimal} (h : d.digits ≠ 0) :
    ∃ read, ofNumber? d.jsonNumber.toList = some read ∧ read.value = d.value := by
  rw [jsonNumber]
  split_ifs with hplain hwhole
  · have hpointed := isPointed_of_nonneg h hwhole
    obtain ⟨run, hrun⟩ := hpointed.isWhole.exists_run
    have hread := @ofNumber?_places run ['0'] (by simp)
    refine ⟨ofDigits run.chars ['0'], ?_, ?_⟩
    · rw [plain, if_pos hwhole, String.toList_append, String.toList_ofList, ← hrun]
      exact hread
    · have hzero : Nat.ofDigitChars 10 ['0'] 0 = 0 := rfl
      rw [← hpointed.value_eq, ← hrun, value_ofDigits, value_ofDigits]
      simp [pointValue, hzero]
  · obtain ⟨whole, fraction, hplain, hpointed⟩ := exists_isPointed h
    obtain ⟨run, rfl⟩ := hpointed.isWhole.exists_run
    rw [hplain]
    exact ⟨_, ofNumber?_places run hpointed.isDigit, hpointed.value_eq⟩
  · exact ⟨d, ofNumber?_scientific d, rfl⟩

end Decimal

namespace Binary64

variable {m : Nat}

theorem jsonNumber?_ofMagnitude (h : m ≤ infiniteMagnitude) :
    (ofMagnitude m).jsonNumber? =
      if m < infiniteMagnitude then
        if m = 0 then some "0.0" else some (shortest .toEven m).jsonNumber
      else none := by
  rw [jsonNumber?, sign_ofMagnitude h, magnitude_ofMagnitude h, String.empty_append,
    String.empty_append]
  exact if_congr (isFinite_ofMagnitude h) rfl rfl

theorem ofNumber?_jsonNumber? {lexeme : String} (h : m ≤ infiniteMagnitude)
    (hs : (ofMagnitude m).jsonNumber? = some lexeme) :
    ofNumber? lexeme.toList = some (ofMagnitude m) := by
  rw [jsonNumber?_ofMagnitude h] at hs
  split_ifs at hs with hm hzero
  · obtain rfl := Option.some.inj hs
    subst hzero
    have hread : Decimal.ofNumber? "0.0".toList = some ⟨0, -1⟩ := by decide
    rw [ofNumber?, hread, Option.map_some, ofDecimal_eq (isNearest_zero (-1)), min_eq_left h]
  · obtain rfl := Option.some.inj hs
    obtain ⟨hnearest, hlast⟩ := shortest_spec hm .toEven
    obtain ⟨read, hread, hvalue⟩ :=
      @Decimal.ofNumber?_jsonNumber (shortest .toEven m) (fun he => hlast (by rw [he]))
    rw [ofNumber?, hread, Option.map_some, ofDecimal_eq (hvalue.symm ▸ hnearest), min_eq_left h]

end Binary64

end LineLexer
