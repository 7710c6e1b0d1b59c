import LineLexer.Cursor
import LineLexer.Scan

/-! Scanning with a reading head. The head goes along the line character by character; numbers
gather the text that they have passed, strings are cut out of the line behind their end. -/

namespace LineLexer

namespace Cursor

def left (c : Cursor) : Nat := c.line.text.length - c.offset

theorem left_advance_lt {c : Cursor} {ch : Char} (h : c.current = some ch) :
    c.advance.left < c.left := by
  have hlt : c.offset < c.line.text.length := by
    rw [c.current_eq] at h
    exact (List.getElem?_eq_some_iff.mp h).1
  rw [left, left, line_advance, offset_advance]
  omega

/-- Reads on through digits and points, where `text` has been read already, with so many points in
it. A second point is not read, but ends the reading with what there is before it. -/
def readNumber (points : Nat) (text : List Char) (c : Cursor) :
    Except (List Char) (Nat × List Char × Cursor) :=
  match _h : c.current with
  | some ch =>
    if isNumberPart ch then
      if ch = '.' then
        if points = 1 then .error text
        else readNumber (points + 1) (text ++ [ch]) c.advance
      else readNumber points (text ++ [ch]) c.advance
    else .ok (points, text, c)
  | none => .ok (points, text, c)
termination_by c.left
decreasing_by
  · exact left_advance_lt _h
  · exact left_advance_lt _h

def scanNumber (c : Cursor) : Except LexError (Token × Cursor) :=
  match readNumber 0 [] c with
  | .error text => .error ⟨.malformedNumber, c.position, String.ofList text⟩
  | .ok (points, text, stop) =>
    if points = 0 then
      if digitsValue text ≤ Munch.maxInt then
        .ok (⟨.int (digitsValue text), stop.spanFrom c.position⟩, stop)
      else .error ⟨.numberOutOfRange, c.position, String.ofList text⟩
    else
      match Decimal.ofText? text with
      | some d => .ok (⟨.float (.ofDecimal d), stop.spanFrom c.position⟩, stop)
      | none => .error ⟨.malformedNumber, c.position, String.ofList text⟩

/-- Reads on behind the next `mark`, or to the end of the line if there is none. -/
def readString (mark : Char) (c : Cursor) : Bool × Cursor :=
  match _h : c.current with
  | some ch => if ch = mark then (true, c.advance) else readString mark c.advance
  | none => (false, c)
termination_by c.left
decreasing_by exact left_advance_lt _h

/-- The head stands on the opening quote. There is no result where the line cannot be cut. -/
def scanString (c : Cursor) (strip : Bool) (mark : Char) :
    Option (Except LexError (Token × Cursor)) := do
  let (closed, stop) := readString mark c.advance
  let raw := String.ofList (← stop.sliceFrom c.offset)
  if closed then
    let text ← if strip then Utf8.slice? raw 1 (raw.utf8ByteSize - 1) else some raw
    return .ok (⟨.str text, stop.spanFrom c.position⟩, stop)
  else
    return .error ⟨.unterminatedString, c.position, raw⟩

/-- One turn of the scan, at the character `ch`: what is found, if anything is, and the head behind
it. -/
def scanItem (c : Cursor) (settings : LexerSettings) (ch : Char) :
    Option (Except LexError (Option ScanItem × Cursor)) :=
  let token (r : Token × Cursor) : Option ScanItem × Cursor := (some (.token r.1), r.2)
  match CharClass.of ch with
  | .digit => some (c.scanNumber.map token)
  | .quote mark => (c.scanString settings.stripQuotes mark).map (·.map token)
  | .operator o => some (.ok (token (⟨.operator o, c.advance.spanFrom c.position⟩, c.advance)))
  | .blank => some (.ok (none, c.advance))
  | .other =>
    match settings.unrecognized with
    | .reject => some (.error (.unrecognized c.position ch))
    | _ => some (.ok (some (.stray c.position ch), c.advance))

theorem readNumber_of_digit {c : Cursor} {ch : Char} (h : c.current = some ch)
    (hdigit : ch.isDigit = true) (points : Nat) (text : List Char) :
    readNumber points text c = readNumber points (text ++ [ch]) c.advance := by
  have hpart : isNumberPart ch = true := by simp [isNumberPart, hdigit]
  have hpoint : ch ≠ '.' := by
    rintro rfl
    exact absurd hdigit (by decide)
  rw [readNumber]
  split
  · next ch' h' =>
    obtain rfl := Option.some.inj (h.symm.trans h')
    rw [if_pos hpart, if_neg hpoint]
  · next h' => simp [h] at h'

theorem left_le_of_readNumber {points points' : Nat} {text text' : List Char} {c stop : Cursor}
    (h : readNumber points text c = .ok (points', text', stop)) : stop.left ≤ c.left := by
  fun_induction readNumber points text c with
  | case1 => simp at h
  | case2 points text c _ hc _ ih =>
    exact Nat.le_of_lt (Nat.lt_of_le_of_lt (ih h) (left_advance_lt hc))
  | case3 points text c ch hc _ _ ih =>
    exact Nat.le_of_lt (Nat.lt_of_le_of_lt (ih h) (left_advance_lt hc))
  | case4 => exact Nat.le_of_eq (by simp_all)
  | case5 => exact Nat.le_of_eq (by simp_all)

theorem left_readString_le (mark : Char) (c : Cursor) : (readString mark c).2.left ≤ c.left := by
  fun_induction readString mark c with
  | case1 c hc => exact Nat.le_of_lt (left_advance_lt hc)
  | case2 c ch hc _ ih => exact Nat.le_of_lt (Nat.lt_of_le_of_lt ih (left_advance_lt hc))
  | case3 => exact Nat.le_refl _

theorem left_lt_of_scanNumber {c stop : Cursor} {ch : Char} {t : Token} (h : c.current = some ch)
    (hdigit : ch.isDigit = true) (hscan : c.scanNumber = .ok (t, stop)) : stop.left < c.left := by
  have hle : ∀ points text stop', readNumber 0 [] c = .ok (points, text, stop') →
      stop'.left < c.left := by
    intro points text stop' hread
    rw [readNumber_of_digit h hdigit] at hread
    exact Nat.lt_of_le_of_lt (left_le_of_readNumber hread) (left_advance_lt h)
  rw [scanNumber] at hscan
  split at hscan
  · simp at hscan
  · next points text stop' hread =>
    have hstop : stop' = stop := by
      split at hscan
      · split at hscan
        · exact (Prod.mk.inj (Except.ok.inj hscan)).2
        · simp at hscan
      · split at hscan
        · exact (Prod.mk.inj (Except.ok.inj hscan)).2
        · simp at hscan
    exact hstop ▸ hle points text stop' hread

theorem left_lt_of_scanString {strip : Bool} {mark ch : Char} {c stop : Cursor} {t : Token}
    (h : c.current = some ch) (hscan : c.scanString strip mark = some (.ok (t, stop))) :
    stop.left < c.left := by
  have hlt := Nat.lt_of_le_of_lt (left_readString_le mark c.advance) (left_advance_lt h)
  have hstop : stop = (readString mark c.advance).2 := by
    simp only [scanString, Option.bind_eq_bind, Option.bind_eq_some_iff] at hscan
    obtain ⟨raw, -, hscan⟩ := hscan
    split at hscan
    · split at hscan
      · obtain ⟨text, -, hscan⟩ := Option.bind_eq_some_iff.mp hscan
        exact (Prod.mk.inj (Except.ok.inj (Option.some.inj hscan))).2.symm
      · exact (Prod.mk.inj (Except.ok.inj (Option.some.inj hscan))).2.symm
    · simp at hscan
  rwa [hstop]

/-- Every turn takes at least the character that it begins with. -/
theorem left_lt_of_scanItem {settings : LexerSettings} {ch : Char} {c stop : Cursor}
    {item : Option ScanItem} (h : c.current = some ch)
    (hscan : c.scanItem settings ch = some (.ok (item, stop))) : stop.left < c.left := by
  have hadvance := left_advance_lt h
  simp only [scanItem] at hscan
  split at hscan
  · next hclass =>
    cases hn : c.scanNumber with
    | error e => simp [hn, Except.map] at hscan
    | ok r =>
      simp only [hn, Except.map, Option.some.injEq, Except.ok.injEq, Prod.mk.injEq] at hscan
      exact hscan.2 ▸ left_lt_of_scanNumber h (CharClass.isDigit_of_eq_digit hclass) hn
  · next mark hclass =>
    obtain ⟨found, hstring, hfound⟩ := Option.map_eq_some_iff.mp hscan
    cases found with
    | error e => simp [Except.map] at hfound
    | ok r =>
      simp only [Except.map, Except.ok.injEq, Prod.mk.injEq] at hfound
      exact hfound.2 ▸ left_lt_of_scanString h hstring
  · simp only [Option.some.injEq, Except.ok.injEq, Prod.mk.injEq] at hscan
    rwa [← hscan.2]
  · simp only [Option.some.injEq, Except.ok.injEq, Prod.mk.injEq] at hscan
    rwa [← hscan.2]
  · split at hscan
    · simp at hscan
    · simp only [Option.some.injEq, Except.ok.injEq, Prod.mk.injEq] at hscan
      rwa [← hscan.2]

/-- Scans from the head on, to the end of the line or the first failure. -/
def scanLine (c : Cursor) (settings : LexerSettings) : Option LineScan :=
  match _hc : c.current with
  | none => some ⟨[], none⟩
  | some ch =>
    match _hs : c.scanItem settings ch with
    | none => none
    | some (.error e) => some ⟨[], some e⟩
    | some (.ok (item, stop)) => (scanLine stop settings).map fun s => item.elim s s.cons
termination_by c.left
decreasing_by exact left_lt_of_scanItem _hc _hs

theorem scanLine_of_end {settings : LexerSettings} {c : Cursor} (h : c.current = none) :
    c.scanLine settings = some ⟨[], none⟩ := by
  rw [scanLine]
  split <;> simp_all

theorem scanLine_of_current {settings : LexerSettings} {c : Cursor} {ch : Char}
    (h : c.current = some ch) :
    c.scanLine settings =
      match c.scanItem settings ch with
      | none => none
      | some (.error e) => some ⟨[], some e⟩
      | some (.ok (item, stop)) => (stop.scanLine settings).map fun s => item.elim s s.cons := by
  rw [scanLine]
  split
  · next hnone => simp [h] at hnone
  · next ch' hsome =>
    obtain rfl := Option.some.inj (h.symm.trans hsome)
    split <;> simp_all

end Cursor

end LineLexer
