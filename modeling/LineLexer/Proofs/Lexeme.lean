import LineLexer.Scan
import Mathlib.Data.List.TakeWhile

/-! What writes a token. A munch reads a lexeme exactly when the line goes on with one that ends
there, and it fails exactly where the line goes on with one of three faults. -/

namespace LineLexer

structure DigitRun where
  chars : List Char
  ne_nil : chars ≠ []
  isDigit : ∀ d ∈ chars, d.isDigit = true

inductive Lexeme where
  | int (run : DigitRun) (fits : digitsValue run.chars ≤ Munch.maxInt)
  | float (whole : DigitRun) (fraction : List Char) (digits : ∀ d ∈ fraction, d.isDigit = true)
  | str (mark : Char) (body : List Char) (quote : isQuote mark = true) (closed : mark ∉ body)
  | operator (op : Operator)

namespace Lexeme

def text : Lexeme → List Char
  | int run _ => run.chars
  | float whole fraction _ => whole.chars ++ '.' :: fraction
  | str mark body _ _ => mark :: body ++ [mark]
  | operator op => [op.toChar]

def value (strip : Bool) : Lexeme → TokenValue
  | int run _ => .int (digitsValue run.chars)
  | float whole fraction _ => .float (.ofDecimal (.ofDigits whole.chars fraction))
  | str mark body _ _ => .str (String.ofList (if strip then body else mark :: body ++ [mark]))
  | operator op => .operator op

def isNumber : Lexeme → Bool
  | int .. | float .. => true
  | str .. | operator .. => false

/-- Behind a number no digit and no point follows. -/
def EndsBefore (l : Lexeme) (rest : List Char) : Prop :=
  l.isNumber = true → ∀ c ∈ rest.head?, isNumberPart c = false

end Lexeme

/-- `Fault kind text rest` says that a line which goes on with `text` and then `rest` has no token
there; a scan fails for `kind` and shows `text`. -/
inductive Fault : LexErrorKind → List Char → List Char → Prop where
  | malformedNumber (whole : DigitRun) {fraction : List Char}
      (digits : ∀ d ∈ fraction, d.isDigit = true) (rest : List Char) :
      Fault .malformedNumber (whole.chars ++ '.' :: fraction) ('.' :: rest)
  | numberOutOfRange (run : DigitRun) {rest : List Char}
      (large : Munch.maxInt < digitsValue run.chars)
      (ends : ∀ c ∈ rest.head?, isNumberPart c = false) :
      Fault .numberOutOfRange run.chars rest
  | unterminatedString {mark : Char} {body : List Char} (quote : isQuote mark = true)
      (unclosed : mark ∉ body) : Fault .unterminatedString (mark :: body) []

theorem takeWhile_append_of_head {p : Char → Bool} {s rest : List Char} (hs : ∀ c ∈ s, p c = true)
    (hr : ∀ c ∈ rest.head?, p c = false) :
    (s ++ rest).takeWhile p = s ∧ (s ++ rest).dropWhile p = rest := by
  rw [List.takeWhile_append_of_pos hs, List.dropWhile_append_of_pos hs]
  cases rest with
  | nil => simp
  | cons c rest =>
    have hc : p c = false := hr c (by simp)
    simp [hc]

theorem head?_dropWhile {p : Char → Bool} {s : List Char} :
    ∀ c ∈ (s.dropWhile p).head?, p c = false := by
  intro c hc
  have h := List.head?_dropWhile_not p s
  rw [Option.mem_def.mp hc] at h
  simpa using h

theorem isNumberPart_eq_false_iff {c : Char} :
    isNumberPart c = false ↔ c.isDigit = false ∧ c ≠ '.' := by
  simp [isNumberPart]

theorem head_eq_point {s : List Char} (hd : ∀ c ∈ s.head?, c.isDigit = false)
    (hp : ¬ ∀ c ∈ s.head?, isNumberPart c = false) : ∃ rest, s = '.' :: rest := by
  cases s with
  | nil => simp at hp
  | cons c rest =>
    refine ⟨rest, ?_⟩
    by_contra hne
    have hc : c ≠ '.' := fun he => hne (he ▸ rfl)
    exact hp (by simpa using isNumberPart_eq_false_iff.mpr ⟨hd c (by simp), hc⟩)

theorem DigitRun.exists_cons (run : DigitRun) :
    ∃ c s, run.chars = c :: s ∧ c.isDigit = true := by
  obtain ⟨c, s, h⟩ := List.exists_cons_of_ne_nil run.ne_nil
  exact ⟨c, s, h, run.isDigit c (by simp [h])⟩

theorem Decimal.ofText?_digits (whole : DigitRun) {fraction : List Char}
    (h : ∀ d ∈ fraction, d.isDigit = true) :
    Decimal.ofText? (whole.chars ++ '.' :: fraction) = some (.ofDigits whole.chars fraction) := by
  have hs := @takeWhile_append_of_head Char.isDigit whole.chars ('.' :: fraction) whole.isDigit
    (by simp)
  have hall : fraction.all Char.isDigit = true := by simpa using h
  simp [Decimal.ofText?, hs.1, hs.2, hall, whole.ne_nil]

namespace Munch

theorem number_int {run : DigitRun} {rest : List Char}
    (ends : ∀ c ∈ rest.head?, isNumberPart c = false) :
    number (run.chars ++ rest) =
      if digitsValue run.chars ≤ maxInt then .token (.int (digitsValue run.chars)) run.chars rest
      else .failure .numberOutOfRange run.chars := by
  have hs := takeWhile_append_of_head run.isDigit
    (fun c hc => (isNumberPart_eq_false_iff.mp (ends c hc)).1)
  simp only [number, hs.1, hs.2]
  split
  · simp [isNumberPart] at ends
  · rfl

theorem number_float {whole : DigitRun} {fraction rest : List Char}
    (digits : ∀ d ∈ fraction, d.isDigit = true)
    (ends : ∀ c ∈ rest.head?, isNumberPart c = false) :
    number (whole.chars ++ '.' :: fraction ++ rest) =
      .token (.float (.ofDecimal (.ofDigits whole.chars fraction)))
        (whole.chars ++ '.' :: fraction) rest := by
  have hw := @takeWhile_append_of_head Char.isDigit whole.chars ('.' :: (fraction ++ rest))
    whole.isDigit (by simp)
  have hf := takeWhile_append_of_head digits
    (fun c hc => (isNumberPart_eq_false_iff.mp (ends c hc)).1)
  rw [List.append_assoc, List.cons_append]
  simp only [number, hw.1, hw.2, hf.1, hf.2]
  split
  · simp [isNumberPart] at ends
  · rw [Decimal.ofText?_digits whole digits]

theorem number_malformed {whole : DigitRun} {fraction : List Char}
    (digits : ∀ d ∈ fraction, d.isDigit = true) (rest : List Char) :
    number (whole.chars ++ '.' :: fraction ++ '.' :: rest) =
      .failure .malformedNumber (whole.chars ++ '.' :: fraction) := by
  have hw := @takeWhile_append_of_head Char.isDigit whole.chars
    ('.' :: (fraction ++ '.' :: rest)) whole.isDigit (by simp)
  have hf := @takeWhile_append_of_head Char.isDigit fraction ('.' :: rest) digits (by simp)
  rw [List.append_assoc, List.cons_append]
  simp only [number, hw.1, hw.2, hf.1, hf.2]

theorem string_closed {mark : Char} {body : List Char} (strip : Bool) (closed : mark ∉ body)
    (rest : List Char) :
    string strip mark (body ++ mark :: rest) =
      .token (.str (String.ofList (if strip then body else mark :: body ++ [mark])))
        (mark :: body ++ [mark]) rest := by
  have hs := @takeWhile_append_of_head (· != mark) body (mark :: rest)
    (fun c hc => by simpa using fun he : c = mark => closed (he ▸ hc)) (by simp)
  simp only [string, hs.1, hs.2]

theorem string_unclosed {mark : Char} {body : List Char} (strip : Bool) (unclosed : mark ∉ body) :
    string strip mark body = .failure .unterminatedString (mark :: body) := by
  have hs := @takeWhile_append_of_head (· != mark) body []
    (fun c hc => by simpa using fun he : c = mark => unclosed (he ▸ hc)) (by simp)
  simp only [List.append_nil] at hs
  simp only [string, hs.2]

theorem first_of_digits {run : DigitRun} {c : Char} {s rest : List Char} (strip : Bool)
    (h : run.chars ++ rest = c :: s) : first strip c s = number (run.chars ++ rest) := by
  obtain ⟨d, t, hrun, hd⟩ := run.exists_cons
  have hc : d = c := by
    rw [hrun, List.cons_append] at h
    exact (List.cons.inj h).1
  rw [hc] at hd
  simp only [first, CharClass.of_digit hd, h]

theorem first_of_quote {c : Char} (strip : Bool) (h : isQuote c = true) (s : List Char) :
    first strip c s = string strip c s := by
  simp only [first, CharClass.of_quote h]

theorem first_lexeme {l : Lexeme} {c : Char} {s rest : List Char} (strip : Bool)
    (h : l.text ++ rest = c :: s) (ends : l.EndsBefore rest) :
    first strip c s = .token (l.value strip) l.text rest := by
  cases l with
  | int run fits =>
    rw [first_of_digits strip h, Lexeme.text, number_int (ends rfl), if_pos fits]
    rfl
  | float whole fraction digits =>
    have hw : whole.chars ++ ('.' :: fraction ++ rest) = c :: s := by
      rw [← h, Lexeme.text, List.append_assoc]
    rw [first_of_digits strip hw, ← List.append_assoc]
    exact number_float digits (ends rfl)
  | str mark body quote closed =>
    simp only [Lexeme.text, List.cons_append, List.append_assoc, List.nil_append,
      List.cons.injEq] at h
    rw [← h.1, ← h.2, first_of_quote strip quote]
    exact string_closed strip closed rest
  | operator op =>
    simp only [Lexeme.text, List.cons_append, List.nil_append, List.cons.injEq] at h
    rw [← h.1, ← h.2]
    simp only [first, CharClass.of_toChar, Lexeme.value, Lexeme.text]

theorem first_fault {kind : LexErrorKind} {c : Char} {s text rest : List Char} (strip : Bool)
    (hf : Fault kind text rest) (h : text ++ rest = c :: s) :
    first strip c s = .failure kind text := by
  cases hf with
  | malformedNumber whole digits rest =>
    rw [List.append_assoc] at h
    rw [first_of_digits strip h, ← List.append_assoc]
    exact number_malformed digits rest
  | numberOutOfRange run large ends =>
    rw [first_of_digits strip h, number_int ends, if_neg (Nat.not_le.mpr large)]
  | unterminatedString quote unclosed =>
    simp only [List.append_nil, List.cons.injEq] at h
    rw [← h.1, ← h.2, first_of_quote strip quote]
    exact string_unclosed strip unclosed

end Munch

/-- Characters that stand between lexemes. -/
def IsGap (c : Char) : Prop := CharClass.of c = .blank ∨ CharClass.of c = .other

/-- What a line begins with: a gap, a lexeme that ends there, or a fault. -/
inductive Start : List Char → Prop where
  | gap {c : Char} (h : IsGap c) (rest : List Char) : Start (c :: rest)
  | lexeme (l : Lexeme) {rest : List Char} (ends : l.EndsBefore rest) : Start (l.text ++ rest)
  | fault {kind : LexErrorKind} {text rest : List Char} (h : Fault kind text rest) :
      Start (text ++ rest)

theorem start_of_run (run : DigitRun) {rest : List Char}
    (h : ∀ c ∈ rest.head?, c.isDigit = false) : Start (run.chars ++ rest) := by
  by_cases hp : ∀ c ∈ rest.head?, isNumberPart c = false
  · by_cases fits : digitsValue run.chars ≤ Munch.maxInt
    · exact Start.lexeme (.int run fits) (fun _ => hp)
    · exact Start.fault (.numberOutOfRange run (Nat.not_le.mp fits) hp)
  · obtain ⟨more, rfl⟩ := head_eq_point h hp
    have digits : ∀ d ∈ more.takeWhile Char.isDigit, d.isDigit = true :=
      fun _ hd => List.mem_takeWhile_imp hd
    have hsplit : run.chars ++ '.' :: more =
        (run.chars ++ '.' :: more.takeWhile Char.isDigit) ++ more.dropWhile Char.isDigit := by
      simp
    rw [hsplit]
    by_cases hq : ∀ c ∈ (more.dropWhile Char.isDigit).head?, isNumberPart c = false
    · exact Start.lexeme (.float run _ digits) (fun _ => hq)
    · obtain ⟨rest, he⟩ := head_eq_point head?_dropWhile hq
      rw [he]
      exact Start.fault (.malformedNumber run digits rest)

theorem start_of_quote {mark : Char} (quote : isQuote mark = true) (s : List Char) :
    Start (mark :: s) := by
  have hbody : mark ∉ s.takeWhile (· != mark) := by
    intro hm
    have hh := List.mem_takeWhile_imp hm
    simp at hh
  have hrest := @head?_dropWhile (· != mark) s
  have hsplit := @List.takeWhile_append_dropWhile Char (· != mark) s
  cases he : s.dropWhile (· != mark) with
  | nil =>
    rw [he, List.append_nil] at hsplit
    rw [hsplit] at hbody
    simpa using Start.fault (.unterminatedString quote hbody)
  | cons c rest =>
    have hc : c = mark := by
      rw [he] at hrest
      simpa using hrest c (by simp)
    subst hc
    rw [he] at hsplit
    have hl := @Start.lexeme (.str c _ quote hbody) rest (fun h => by simp [Lexeme.isNumber] at h)
    simpa [Lexeme.text, hsplit] using hl

theorem start_cons (c : Char) (s : List Char) : Start (c :: s) := by
  cases hc : CharClass.of c with
  | digit =>
    have hd := CharClass.isDigit_of_eq_digit hc
    let run : DigitRun := {
      chars := (c :: s).takeWhile Char.isDigit
      ne_nil := by simp [hd]
      isDigit := fun _ h => List.mem_takeWhile_imp h }
    have hh := start_of_run run (@head?_dropWhile Char.isDigit (c :: s))
    rwa [List.takeWhile_append_dropWhile] at hh
  | quote mark =>
    obtain ⟨hq, rfl⟩ := CharClass.isQuote_of_eq_quote hc
    exact start_of_quote hq s
  | operator op =>
    rw [CharClass.eq_toChar_of_eq_operator hc]
    exact Start.lexeme (.operator op) (fun h => by simp [Lexeme.isNumber] at h)
  | blank => exact Start.gap (.inl hc) s
  | other => exact Start.gap (.inr hc) s

end LineLexer
