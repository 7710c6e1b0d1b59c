import LineLexer.Proofs.Boundary
import LineLexer.Proofs.Joining
import LineLexer.Proofs.NumberText

/-! Integers. However long it is and however many zeros it begins with, a run of digits is one
integer as long as its value fits, and ends the scan if it does not. What an integer shows is
scanned as the same integer again. -/

namespace LineLexer

/-- Behind the lines `a` the scanner gets to `run` on `line` with the tokens `row` found before it,
and at neither end of the run does the number go on. -/
structure Scanner.Meets (s : Scanner) (a : List Line) (line : Line) (before : List Char)
    (row : List Token) (run : DigitRun) (after : List Char) : Prop where
  text_eq : line.text = before ++ run.chars ++ after
  reached : ∃ t, (s.scan ⟨a ++ [⟨before, line.offset⟩]⟩).1 = .ok t ∧ t.tokens.getLast? = some row
  apart : ∀ t ∈ row.getLast?, t.span.stop = (line.start a.length).after before →
    t.kind ≠ .int ∧ t.kind ≠ .float
  ends : ∀ c ∈ after.head?, isNumberPart c = false

/-- The digits of `n`, none of them without need. -/
structure IsDecimal (digits : List Char) (n : Nat) : Prop where
  ne_nil : digits ≠ []
  isDigit : ∀ d ∈ digits, d.isDigit = true
  value_eq : Nat.ofDigitChars 10 digits 0 = n
  no_zero : digits.head? = some '0' → digits = ['0']

/-- The token shows `n` in decimal, and every scanner makes the same of what it shows. -/
def Token.Restores (t : Token) (n : Nat) : Prop :=
  ∃ digits : String, t.display = "INT:" ++ digits ∧ IsDecimal digits.toList n ∧
    ∀ r : Scanner, ∃ again : Token, (r.scan (.ofText digits)).1 = .ok (.ofRows [[again]]) ∧
      again.value = .int n ∧ again.display = t.display

theorem isDecimal_toDigits (n : Nat) : IsDecimal (Nat.toDigits 10 n) n where
  ne_nil := Nat.toDigits_ne_nil
  isDigit := (DigitRun.ofNat n).isDigit
  value_eq := Nat.ofDigitChars_ten_toDigits
  no_zero h := by
    by_cases hn : n = 0
    · rw [hn]
      rfl
    · exact absurd h (head?_toDigits hn)

theorem Source.ofText_eq_ofLines {text : String} (hfeed : '\n' ∉ text.toList)
    (hreturn : text.toList.getLast? ≠ some '\r') : ofText text = ofLines [text] := by
  have hlines := ofLines_eq_ofText (List.cons_ne_nil text [])
    (List.forall_mem_singleton.mpr ⟨hfeed, hreturn⟩)
  rw [hlines, String.intercalate_singleton]

/-- A text that one lexeme writes is scanned to its token. -/
theorem Scanner.scan_lexeme (s : Scanner) (l : Lexeme) (hfeed : '\n' ∉ l.text) :
    (s.scan (.ofText (String.ofList l.text))).1 =
      .ok (.ofRows [[⟨l.value s.settings.stripQuotes, .covering .first l.text⟩]]) := by
  have hreads : Reads l.text [.lexeme l] [] := by
    have hstep := Reads.step (i := .lexeme l) (fun _ => by simp) (.done [])
    rwa [List.append_nil] at hstep
  have hadmits : s.settings.unrecognized.Admits [.lexeme l] := fun _ => by simp [Item.isStray]
  have hline : LineScan.ofLine s.settings 0 ⟨(String.ofList l.text).toList, 0⟩ =
      ⟨itemsFound s.settings.stripQuotes .first [.lexeme l], none⟩ := by
    rw [String.toList_ofList]
    exact LineScan.under_eq_of_reads hreads hadmits _ _
  have hsource : Source.ofText (String.ofList l.text) = .ofLines [String.ofList l.text] :=
    Source.ofText_eq_ofLines (by rwa [String.toList_ofList])
      (by rw [String.toList_ofList]; exact l.getLast?_ne_return)
  rw [hsource, (s.scan_line hline).1, tokens_found]
  rfl

theorem Scanner.scan_repr (s : Scanner) {n : Nat} (h : n ≤ Munch.maxInt) :
    (s.scan (.ofText n.repr)).1 =
      .ok (.ofRows [[⟨.int n, .covering .first n.repr.toList⟩]]) := by
  have hvalue : digitsValue (DigitRun.ofNat n).chars = n := Nat.ofDigitChars_ten_toDigits
  have hdigits : (DigitRun.ofNat n).chars = n.repr.toList := Nat.toList_repr.symm
  have hscan := s.scan_lexeme (.int (.ofNat n) (hvalue.trans_le h)) (feed_not_mem_toDigits n)
  rwa [Lexeme.value, Lexeme.text, hvalue, hdigits, String.ofList_toList] at hscan

theorem Token.restores {n : Nat} (h : n ≤ Munch.maxInt) (span : Span) :
    Restores ⟨.int n, span⟩ n := by
  refine ⟨n.repr, rfl, ?_, fun r => ⟨_, r.scan_repr h, rfl, rfl⟩⟩
  rw [Nat.toList_repr]
  exact isDecimal_toDigits n

theorem Lexeme.bounds_of_int {l : Lexeme} {strip : Bool} {n : Int}
    (h : l.value strip = .int n) : 0 ≤ n ∧ n ≤ Munch.maxInt := by
  cases l with
  | int run fits =>
    obtain rfl : (digitsValue run.chars : Int) = n := TokenValue.int.inj h
    exact ⟨Int.natCast_nonneg _, Int.ofNat_le.mpr fits⟩
  | float | str | operator => simp [value] at h

theorem Scanner.bounds_of_int {s : Scanner} {source : Source} {u : TokenTable}
    (h : (s.scan source).1 = .ok u) {row : List Token} (hrow : row ∈ u.tokens) {t : Token}
    (ht : t ∈ row) {n : Int} (hn : t.value = .int n) : 0 ≤ n ∧ n ≤ Munch.maxInt := by
  obtain ⟨-, rfl⟩ := eq_of_scan h
  obtain ⟨found, hfound, rfl⟩ := List.mem_map.mp hrow
  obtain ⟨index, line, -, rfl⟩ := Scan.exists_of_mem_ofLines hfound
  obtain ⟨l, hl, -⟩ := LineScan.exists_lexeme_of_mem ht
  exact Lexeme.bounds_of_int (hl.symm.trans hn)

namespace Scanner.Meets

variable {s : Scanner} {a : List Line} {line : Line} {before after : List Char} {row : List Token}
  {run : DigitRun}

theorem not_joins (h : s.Meets a line before row run after) :
    ¬ Joins row ((line.start a.length).after before) (run.chars ++ after) := by
  rintro ⟨t, ht, hkind, hstop, -⟩
  have hh := h.apart t ht hstop
  exact hkind.elim hh.1 hh.2

theorem success (h : s.Meets a line before row run after) :
    Scan.firstFailure (Scan.ofLines s.settings 0 a) = none ∧
      (LineScan.ofLine s.settings a.length ⟨before, line.offset⟩).failure = none ∧
      (LineScan.ofLine s.settings a.length ⟨before, line.offset⟩).tokens = row := by
  obtain ⟨t, ht, hrow⟩ := h.reached
  obtain ⟨hsuccess, rfl⟩ := eq_of_scan ht
  -- the line that ends before the run is scanned behind `a`, so it has a scan of its own
  obtain ⟨ha, hb⟩ := Scan.success_of_append hsuccess
  rw [Scan.ofLines_singleton, Nat.zero_add, Scan.firstFailure_cons, Scan.firstFailure_nil,
    Option.or_none] at hb
  refine ⟨ha, hb, ?_⟩
  rw [Scan.ofLines_append_of_success ha, Scan.ofLines_singleton, Nat.zero_add] at hrow
  simpa [TokenTable.ofRows] using hrow

/-- The line is what stands before the run and then what is found from the run on. -/
theorem ofLine_eq (h : s.Meets a line before row run after) :
    ∃ found : LineScan, found.tokens = row ∧
      LineScan.ofLine s.settings a.length line =
        found.append ((LineScan.ofChars s.settings.stripQuotes
          ((line.start a.length).after before) (run.chars ++ after)).under
            s.settings.unrecognized) := by
  obtain ⟨-, hf, htokens⟩ := h.success
  refine ⟨_, htokens, ?_⟩
  rw [LineScan.ofLine, h.text_eq, List.append_assoc]
  exact LineScan.under_extend rfl hf (htokens.symm ▸ h.not_joins)

theorem tokens_of_le (h : s.Meets a line before row run after)
    (fits : digitsValue run.chars ≤ Munch.maxInt) :
    ∃ more, (LineScan.ofLine s.settings a.length line).tokens =
      row ++ ⟨.int (digitsValue run.chars),
        .covering ((line.start a.length).after before) run.chars⟩ :: more := by
  obtain ⟨found, htokens, hline⟩ := h.ofLine_eq
  have hlexeme := @LineScan.ofChars_lexeme (.int run fits) after s.settings.stripQuotes
    ((line.start a.length).after before) (fun _ => h.ends)
  rw [Lexeme.text] at hlexeme
  rw [hline, LineScan.tokens_append, htokens, hlexeme, LineScan.under_cons_token,
    LineScan.tokens_cons_token]
  exact ⟨_, rfl⟩

theorem failure_of_lt (h : s.Meets a line before row run after)
    (large : Munch.maxInt < digitsValue run.chars) :
    (LineScan.ofLine s.settings a.length line).failure =
      some ⟨.numberOutOfRange, (line.start a.length).after before, String.ofList run.chars⟩ := by
  obtain ⟨found, -, hline⟩ := h.ofLine_eq
  rw [hline, LineScan.under_halt (.fault (.numberOutOfRange run large h.ends))]
  rfl

end Scanner.Meets

/-- A run of digits that a scanner meets is an integer with the value of the run if that is below
two to the power of 63, and otherwise a failure that shows the run. Such values are the only ones
that a scan gives, and each is restored from the digits that it is shown as. -/
theorem scan_of_digits (s : Scanner) :
    (∀ (a b : List Line) (line : Line) (before after : List Char) (row : List Token)
        (run : DigitRun), s.Meets a line before row run after →
      let value := Nat.ofDigitChars 10 run.chars 0
      let place := (line.start a.length).after before
      let token : Token := ⟨.int value, .covering place run.chars⟩
      let whole : Source := ⟨a ++ line :: b⟩
      (value ≤ 9223372036854775807 →
        (∃ found more, (Scan.ofSource s.settings whole).lines[a.length]? = some found ∧
          found.tokens = row ++ token :: more) ∧
        ∀ u, (s.scan whole).1 = .ok u →
          ∃ more, u.tokens[a.length]? = some (row ++ token :: more)) ∧
      (9223372036854775807 < value →
        (s.scan whole).1 = .error ⟨.numberOutOfRange, place, String.ofList run.chars⟩)) ∧
    (∀ source u, (s.scan source).1 = .ok u → ∀ row ∈ u.tokens, ∀ t ∈ row, ∀ n : Int,
      t.value = .int n → 0 ≤ n ∧ n ≤ 9223372036854775807) ∧
    ∀ (n : Nat) (span : Span), n ≤ 9223372036854775807 → Token.Restores ⟨.int n, span⟩ n := by
  refine ⟨?_, ?_, fun n span hle => Token.restores hle span⟩
  · intro a b line before after row run h value place token whole
    obtain ⟨ha, -⟩ := h.success
    have hplace := Scan.getElem?_ofLines_length ha line b
    rw [Nat.zero_add] at hplace
    constructor
    · intro hle
      obtain ⟨more, htokens⟩ := h.tokens_of_le hle
      refine ⟨⟨_, more, hplace, htokens⟩, ?_⟩
      intro u hu
      obtain ⟨-, rfl⟩ := Scanner.eq_of_scan hu
      refine ⟨more, ?_⟩
      rw [TokenTable.ofRows, List.getElem?_map, hplace, Option.map_some, htokens]
      rfl
    · intro hlt
      apply Scanner.scan_of_failure
      apply Scan.firstFailure_of_failure ha
      rw [Nat.zero_add]
      exact h.failure_of_lt hlt
  · intro source u hu row hrow t ht n hn
    exact Scanner.bounds_of_int hu hrow ht hn

theorem scan_of_digits_at_limit :
    let s := Scanner.new {}
    let a : List Line := [⟨"x".toList, 0⟩]
    let row : List Token := [⟨.int 7, ⟨⟨2, 1, 2⟩, ⟨2, 2, 3⟩⟩⟩]
    let below : Line := ⟨"7é.009223372036854775807+".toList, 2⟩
    let beyond : Line := ⟨"7é.009223372036854775808'".toList, 2⟩
    let last : Token := ⟨.int 9223372036854775807, ⟨⟨2, 4, 6⟩, ⟨2, 25, 27⟩⟩⟩
    (∃ u more, (s.scan ⟨a ++ [below]⟩).1 = .ok u ∧ u.tokens[1]? = some (row ++ last :: more)) ∧
      last.Restores 9223372036854775807 ∧
      (s.scan ⟨a ++ [beyond]⟩).1 =
        .error ⟨.numberOutOfRange, ⟨2, 4, 6⟩, "009223372036854775808"⟩ := by
  intro s a row below beyond last
  have hmeets : ∀ (line : Line) (run : DigitRun) (c : Char),
      line.text = "7é.".toList ++ run.chars ++ [c] → line.offset = 2 → isNumberPart c = false →
      s.Meets a line "7é.".toList row run [c] := by
    intro line run c htext hoffset hc
    refine ⟨htext, ⟨.ofRows [[], row], ?_, rfl⟩, ?_, by simpa using hc⟩
    · rw [hoffset]
      decide +kernel
    · intro t ht hstop
      obtain rfl : row.head (by decide) = t := by simpa [row] using ht
      rw [Line.start, hoffset] at hstop
      exact absurd hstop (by decide)
  let fitting : DigitRun :=
    ⟨"009223372036854775807".toList, by decide, List.all_eq_true.mp (by decide)⟩
  let large : DigitRun :=
    ⟨"009223372036854775808".toList, by decide, List.all_eq_true.mp (by decide)⟩
  have hbelow := hmeets below fitting '+' (by decide) rfl (by decide)
  have hbeyond := hmeets beyond large '\'' (by decide) rfl (by decide)
  obtain ⟨hmet, -, hrestores⟩ := scan_of_digits s
  obtain ⟨-, hgiven⟩ := (hmet _ [] _ _ _ _ _ hbelow).1 (by decide)
  have hfailure := (hmet _ [] _ _ _ _ _ hbeyond).2 (by decide)
  have hscan : (s.scan ⟨a ++ [below]⟩).1 = .ok (.ofRows
      [[], row ++ [last, ⟨.operator .plus, ⟨⟨2, 25, 27⟩, ⟨2, 26, 28⟩⟩⟩]]) := by decide +kernel
  obtain ⟨more, hmore⟩ := hgiven _ hscan
  exact ⟨⟨_, more, hscan, hmore⟩, hrestores 9223372036854775807 _ (by decide), hfailure⟩

end LineLexer
