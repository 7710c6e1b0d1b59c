import LineLexer.CursorScan
import LineLexer.Proofs.CursorRun
import LineLexer.Proofs.Emission
import LineLexer.Proofs.Lexeme

/-! The two ways to scan a line agree. A reading head that goes along the line finds the lexemes and
the faults that the munches find, and every slice that it asks for is there. -/

namespace LineLexer

namespace Cursor

variable {c : Cursor} {s t : List Char} {ch : Char}

section reading

theorem current_eq_head? (c : Cursor) : c.current = c.rest.head? := by
  rw [c.current_eq, rest, List.head?_drop]

theorem current_of_rest (h : c.rest = ch :: t) : c.current = some ch := by
  rw [c.current_eq_head?, h]
  rfl

@[simp]
theorem line_advanceBy (c : Cursor) (n : Nat) : (c.advanceBy n).line = c.line := rfl

theorem advanceBy_one (c : Cursor) : c.advanceBy 1 = c.advance := by
  rw [c.advanceBy_succ 0, c.advanceBy_zero]

theorem advanceBy_advanceBy (c : Cursor) (m n : Nat) :
    (c.advanceBy m).advanceBy n = c.advanceBy (m + n) := by
  simp only [advanceBy, Cursor.mk.injEq, true_and]
  omega

theorem advance_advanceBy (c : Cursor) (n : Nat) :
    c.advance.advanceBy n = c.advanceBy (n + 1) := by
  rw [← c.advanceBy_one, advanceBy_advanceBy, Nat.add_comm]

theorem length_rest (c : Cursor) : c.offset + c.rest.length = c.line.text.length := by
  rw [rest, List.length_drop]
  exact Nat.add_sub_of_le c.offset_le

theorem offset_advanceBy (h : c.rest = s ++ t) : (c.advanceBy s.length).offset = c.offset + s.length := by
  have hlen := c.length_rest
  rw [h, List.length_append] at hlen
  exact Nat.min_eq_left (by omega)

theorem rest_advanceBy (h : c.rest = s ++ t) : (c.advanceBy s.length).rest = t := by
  rw [rest, offset_advanceBy h, line_advanceBy, ← List.drop_drop, ← rest, h, List.drop_left]

theorem rest_advance (h : c.rest = ch :: t) : c.advance.rest = t := by
  rw [← c.advanceBy_one]
  exact rest_advanceBy (s := [ch]) h

theorem take_advanceBy (h : c.rest = s ++ t) :
    c.line.text.take (c.advanceBy s.length).offset = c.line.text.take c.offset ++ s := by
  rw [offset_advanceBy h, List.take_add, ← rest, h, List.take_left]

/-- What has been passed is what can be cut out. -/
theorem sliceFrom_advanceBy (h : c.rest = s ++ t) :
    (c.advanceBy s.length).sliceFrom c.offset = some s := by
  have hle : c.offset ≤ (c.advanceBy s.length).offset := by
    rw [offset_advanceBy h]
    exact Nat.le_add_right _ _
  have hlen : (c.line.text.take c.offset).length = c.offset := by
    rw [List.length_take, Nat.min_eq_left c.offset_le]
  rw [sliceFrom_of_le _ hle, line_advanceBy, take_advanceBy h]
  nth_rewrite 1 [← hlen]
  rw [List.drop_left]

end reading

section positions

/-- No position on the line of the head wraps. -/
structure Fits (c : Cursor) : Prop where
  line : c.line.Fits
  index : c.index + 1 < wordSize

theorem Fits.advanceBy (h : c.Fits) (n : Nat) : (c.advanceBy n).Fits := ⟨h.line, h.index⟩

theorem position_advanceBy (hfits : c.Fits) (h : c.rest = s ++ t) :
    (c.advanceBy s.length).position = c.position.after s := by
  have hbyte := byteOffset_eq (hfits.advanceBy s.length).line
  rw [line_advanceBy, take_advanceBy h, byteLength_append, ← Nat.add_assoc,
    ← byteOffset_eq hfits.line] at hbyte
  have hcolumn : (c.advanceBy s.length).position.column = c.position.column + s.length := by
    rw [column_eq, column_eq, offset_advanceBy h]
    omega
  exact congrArg₂ (fun column byte => (⟨c.position.line, column, byte⟩ : Position)) hcolumn hbyte

theorem spanFrom_advanceBy (hfits : c.Fits) (h : c.rest = s ++ t) :
    (c.advanceBy s.length).spanFrom c.position = .covering c.position s := by
  rw [spanFrom, position_advanceBy hfits h]
  rfl

end positions

section numbers

variable {points : Nat} {text digits : List Char}

theorem readNumber_of_end (h : ∀ ch ∈ c.rest.head?, isNumberPart ch = false) :
    readNumber points text c = .ok (points, text, c) := by
  rw [readNumber]
  split
  · next ch hc =>
    rw [c.current_eq_head?] at hc
    rw [if_neg (by simp [h ch hc])]
  · rfl

theorem readNumber_of_point (h : c.rest = '.' :: t) :
    readNumber points text c =
      if points = 1 then .error text else readNumber (points + 1) (text ++ ['.']) c.advance := by
  have hc := current_of_rest h
  rw [readNumber]
  split
  · next ch hc' =>
    obtain rfl := Option.some.inj (hc.symm.trans hc')
    rw [if_pos (by decide), if_pos rfl]
  · next hc' => simp [hc] at hc'

/-- A run of digits is read as a whole. -/
theorem readNumber_of_digits (hdigits : ∀ d ∈ digits, d.isDigit = true) (h : c.rest = digits ++ t) :
    readNumber points text c = readNumber points (text ++ digits) (c.advanceBy digits.length) := by
  induction digits generalizing c text with
  | nil => rw [List.append_nil, List.length_nil, c.advanceBy_zero]
  | cons d digits ih =>
    have hrest := rest_advance (t := digits ++ t) h
    rw [readNumber_of_digit (current_of_rest h) (hdigits d (by simp)),
      ih (fun x hx => hdigits x (by simp [hx])) hrest, advance_advanceBy, List.append_assoc]
    rfl

theorem readNumber_int {run : DigitRun} (h : c.rest = run.chars ++ t)
    (ends : ∀ ch ∈ t.head?, isNumberPart ch = false) :
    readNumber 0 [] c = .ok (0, run.chars, c.advanceBy run.chars.length) := by
  rw [readNumber_of_digits run.isDigit h, List.nil_append]
  exact readNumber_of_end (by rwa [rest_advanceBy h])

/-- Behind the first point the reading goes on through the digits of the fraction. -/
theorem readNumber_point {whole : DigitRun} {fraction : List Char}
    (hfraction : ∀ d ∈ fraction, d.isDigit = true)
    (h : c.rest = whole.chars ++ '.' :: fraction ++ t) :
    readNumber 0 [] c = readNumber 1 (whole.chars ++ '.' :: fraction)
      (c.advanceBy (whole.chars ++ '.' :: fraction).length) := by
  rw [List.append_assoc] at h
  have hpoint := rest_advanceBy h
  have hdigits := rest_advance hpoint
  rw [readNumber_of_digits whole.isDigit h, readNumber_of_point hpoint, if_neg (by decide),
    readNumber_of_digits hfraction hdigits, ← advanceBy_one, advanceBy_advanceBy,
    advanceBy_advanceBy]
  simp [Nat.add_comm, Nat.add_left_comm]

theorem scanNumber_int (hfits : c.Fits) {run : DigitRun} (h : c.rest = run.chars ++ t)
    (ends : ∀ ch ∈ t.head?, isNumberPart ch = false) :
    c.scanNumber =
      if digitsValue run.chars ≤ Munch.maxInt then
        .ok (⟨.int (digitsValue run.chars), .covering c.position run.chars⟩,
          c.advanceBy run.chars.length)
      else .error ⟨.numberOutOfRange, c.position, String.ofList run.chars⟩ := by
  rw [scanNumber, readNumber_int h ends]
  simp only [if_true, spanFrom_advanceBy hfits h]

theorem scanNumber_float (hfits : c.Fits) {whole : DigitRun} {fraction : List Char}
    (hfraction : ∀ d ∈ fraction, d.isDigit = true)
    (h : c.rest = whole.chars ++ '.' :: fraction ++ t)
    (ends : ∀ ch ∈ t.head?, isNumberPart ch = false) :
    c.scanNumber =
      .ok (⟨.float (.ofDecimal (.ofDigits whole.chars fraction)),
          .covering c.position (whole.chars ++ '.' :: fraction)⟩,
        c.advanceBy (whole.chars ++ '.' :: fraction).length) := by
  have hends : ∀ ch ∈ (c.advanceBy (whole.chars ++ '.' :: fraction).length).rest.head?,
      isNumberPart ch = false := by rwa [rest_advanceBy h]
  rw [scanNumber, readNumber_point hfraction h, readNumber_of_end hends]
  simp only [Nat.one_ne_zero, if_false, Decimal.ofText?_digits whole hfraction,
    spanFrom_advanceBy hfits h]

theorem scanNumber_malformed {whole : DigitRun} {fraction : List Char}
    (hfraction : ∀ d ∈ fraction, d.isDigit = true)
    (h : c.rest = whole.chars ++ '.' :: fraction ++ '.' :: t) :
    c.scanNumber =
      .error ⟨.malformedNumber, c.position, String.ofList (whole.chars ++ '.' :: fraction)⟩ := by
  rw [scanNumber, readNumber_point hfraction h, readNumber_of_point (rest_advanceBy h), if_pos rfl]

end numbers

section strings

variable {mark : Char} {body : List Char}

theorem readString_of_closed (closed : mark ∉ body) (h : c.rest = body ++ mark :: t) :
    readString mark c = (true, c.advanceBy (body.length + 1)) := by
  induction body generalizing c with
  | nil =>
    rw [readString]
    split
    · next ch hc =>
      obtain rfl := Option.some.inj ((current_of_rest h).symm.trans hc)
      rw [if_pos rfl, List.length_nil, ← c.advanceBy_one]
    · next hc => simp [current_of_rest h] at hc
  | cons x body ih =>
    have hx : x ≠ mark := fun he => closed (by simp [he])
    have hrest := rest_advance (t := body ++ mark :: t) h
    rw [readString]
    split
    · next ch hc =>
      obtain rfl := Option.some.inj ((current_of_rest h).symm.trans hc)
      rw [if_neg hx, ih (fun hm => closed (List.mem_cons_of_mem _ hm)) hrest, advance_advanceBy]
      rfl
    · next hc => simp [current_of_rest h] at hc

theorem readString_of_unclosed (unclosed : mark ∉ body) (h : c.rest = body) :
    readString mark c = (false, c.advanceBy body.length) := by
  induction body generalizing c with
  | nil =>
    rw [readString]
    split
    · next ch hc => simp [c.current_eq_head?, h] at hc
    · rw [List.length_nil, c.advanceBy_zero]
  | cons x body ih =>
    have hx : x ≠ mark := fun he => unclosed (by simp [he])
    have hrest := rest_advance h
    rw [readString]
    split
    · next ch hc =>
      obtain rfl := Option.some.inj ((current_of_rest h).symm.trans hc)
      rw [if_neg hx, ih (fun hm => unclosed (List.mem_cons_of_mem _ hm)) hrest, advance_advanceBy]
      rfl
    · next hc => simp [current_of_rest h] at hc

/-- Both quotes take one byte, so the body can be cut out between them. -/
theorem slice?_body (quote : isQuote mark = true) (body : List Char) :
    Utf8.slice? (String.ofList (mark :: body ++ [mark])) 1
        ((String.ofList (mark :: body ++ [mark])).utf8ByteSize - 1) =
      some (String.ofList body) := by
  have hmark : mark.utf8Size = 1 := by
    rcases isQuote_iff.mp quote with rfl | rfl <;> rfl
  have hslice := Utf8.slice?_append (s := String.ofList (mark :: body ++ [mark])) (a := [mark])
    (w := body) (b := [mark]) (by simp)
  have hsize : (String.ofList (mark :: body ++ [mark])).utf8ByteSize = 1 + byteLength body + 1 := by
    rw [utf8ByteSize_eq, String.toList_ofList, List.cons_append, byteLength_cons,
      byteLength_append, byteLength_cons, hmark, byteLength_nil]
    omega
  rw [hsize, Nat.add_sub_cancel]
  rwa [byteLength_cons, hmark, byteLength_nil] at hslice

theorem scanString_closed (hfits : c.Fits) (strip : Bool) (quote : isQuote mark = true)
    (closed : mark ∉ body) (h : c.rest = mark :: body ++ [mark] ++ t) :
    c.scanString strip mark =
      some (.ok (⟨.str (String.ofList (if strip then body else mark :: body ++ [mark])),
          .covering c.position (mark :: body ++ [mark])⟩,
        c.advanceBy (mark :: body ++ [mark]).length)) := by
  have hrest : c.advance.rest = body ++ mark :: t := rest_advance (by simpa using h)
  have hread : readString mark c.advance = (true, c.advanceBy (mark :: body ++ [mark]).length) := by
    rw [readString_of_closed closed hrest, advance_advanceBy]
    simp
  rw [scanString, hread]
  simp only [sliceFrom_advanceBy h, spanFrom_advanceBy hfits h, Option.bind_eq_bind,
    Option.bind_some, if_true, slice?_body quote]
  cases strip <;> rfl

theorem scanString_unclosed (strip : Bool) (unclosed : mark ∉ body) (h : c.rest = mark :: body) :
    c.scanString strip mark =
      some (.error ⟨.unterminatedString, c.position, String.ofList (mark :: body)⟩) := by
  have hread : readString mark c.advance = (false, c.advanceBy (mark :: body).length) := by
    rw [readString_of_unclosed unclosed (rest_advance h), advance_advanceBy]
    rfl
  have hslice := sliceFrom_advanceBy (c := c) (s := mark :: body) (t := []) (by simpa using h)
  rw [scanString, hread]
  simp only [hslice, Option.bind_eq_bind, Option.bind_some]
  rfl

end strings

section lines

variable {settings : LexerSettings}

theorem scanItem_lexeme (hfits : c.Fits) {l : Lexeme} (hcurrent : c.current = some ch)
    (h : c.rest = l.text ++ t) (ends : l.EndsBefore t) :
    c.scanItem settings ch =
      some (.ok (some (.token ⟨l.value settings.stripQuotes, .covering c.position l.text⟩),
        c.advanceBy l.text.length)) := by
  have hhead : (l.text ++ t).head? = some ch := by rw [← h, ← c.current_eq_head?, hcurrent]
  cases l with
  | int run fits =>
    obtain ⟨d, more, hrun, hd⟩ := run.exists_cons
    obtain rfl : d = ch := by simpa [Lexeme.text, hrun] using hhead
    simp only [scanItem, CharClass.of_digit hd, scanNumber_int hfits h (ends rfl), if_pos fits]
    rfl
  | float whole fraction digits =>
    obtain ⟨d, more, hrun, hd⟩ := whole.exists_cons
    obtain rfl : d = ch := by simpa [Lexeme.text, hrun] using hhead
    simp only [scanItem, CharClass.of_digit hd, scanNumber_float hfits digits h (ends rfl)]
    rfl
  | str mark body quote closed =>
    obtain rfl : mark = ch := by simpa [Lexeme.text] using hhead
    simp only [scanItem, CharClass.of_quote quote, scanString_closed hfits _ quote closed h]
    rfl
  | operator op =>
    obtain rfl : op.toChar = ch := by simpa [Lexeme.text] using hhead
    have hspan := spanFrom_advanceBy hfits (s := [op.toChar]) h
    have hone : c.advanceBy [op.toChar].length = c.advance := c.advanceBy_one
    simp only [scanItem, CharClass.of_toChar, Lexeme.text, Lexeme.value, ← hspan, hone]

theorem scanItem_fault (hfits : c.Fits) {kind : LexErrorKind} {text : List Char}
    (hcurrent : c.current = some ch) (hfault : Fault kind text t) (h : c.rest = text ++ t) :
    c.scanItem settings ch = some (.error ⟨kind, c.position, String.ofList text⟩) := by
  have hhead : (text ++ t).head? = some ch := by rw [← h, ← c.current_eq_head?, hcurrent]
  cases hfault with
  | malformedNumber whole digits more =>
    obtain ⟨d, _, hrun, hd⟩ := whole.exists_cons
    obtain rfl : d = ch := by simpa [hrun] using hhead
    simp only [scanItem, CharClass.of_digit hd, scanNumber_malformed digits h]
    rfl
  | numberOutOfRange run large ends =>
    obtain ⟨d, _, hrun, hd⟩ := run.exists_cons
    obtain rfl : d = ch := by simpa [hrun] using hhead
    simp only [scanItem, CharClass.of_digit hd, scanNumber_int hfits h ends,
      if_neg (Nat.not_le.mpr large)]
    rfl
  | @unterminatedString mark body quote unclosed =>
    obtain rfl : mark = ch := by simpa using hhead
    simp only [scanItem, CharClass.of_quote quote,
      scanString_unclosed _ unclosed (by simpa using h)]
    rfl

end lines

end Cursor

namespace Cursor

variable {settings : LexerSettings}

/-- From anywhere on a line the head finds what the scan of the rest of the line finds. -/
theorem scanLine_eq (c : Cursor) (hfits : c.Fits) :
    c.scanLine settings =
      some ((LineScan.ofChars settings.stripQuotes c.position c.rest).under
        settings.unrecognized) := by
  induction hn : c.rest.length using Nat.strong_induction_on generalizing c with
  | _ n ih =>
    subst hn
    cases hrest : c.rest with
    | nil =>
      rw [scanLine_of_end (by rw [c.current_eq_head?, hrest]; rfl), LineScan.ofChars,
        LineScan.under_nil]
    | cons ch s =>
      have hcurrent := current_of_rest hrest
      rw [scanLine_of_current hcurrent, LineScan.ofChars_cons]
      have hstart := start_cons ch s
      generalize hs : ch :: s = line at hstart
      cases hstart with
      | gap hgap more =>
        obtain ⟨rfl, rfl⟩ := List.cons.inj hs
        have hlt : c.advance.rest.length < c.rest.length := by
          rw [rest_advance hrest, hrest]
          exact Nat.lt_succ_self _
        have hposition : c.advance.position = c.position.after [ch] :=
          c.advanceBy_one ▸ position_advanceBy hfits (s := [ch]) hrest
        have hnext := ih _ hlt c.advance (c.advanceBy_one ▸ hfits.advanceBy 1) rfl
        rw [rest_advance hrest, hposition] at hnext
        rcases hgap with hclass | hclass
        · simp only [scanItem, Munch.first, hclass, hnext]
          rfl
        · simp only [scanItem, Munch.first, hclass]
          cases hpolicy : settings.unrecognized with
          | reject => rfl
          | collect | skip =>
            rw [hpolicy] at hnext
            simp only [hnext]
            rfl
      | @lexeme l more ends =>
        have htext := hrest.trans hs
        have hfirst := Munch.first_lexeme settings.stripQuotes hs.symm ends
        have hlt : (c.advanceBy l.text.length).rest.length < c.rest.length := by
          rw [rest_advanceBy htext, hrest]
          exact Munch.length_lt_of_first hfirst
        have hnext := ih _ hlt _ (hfits.advanceBy _) rfl
        rw [rest_advanceBy htext, position_advanceBy hfits htext] at hnext
        simp only [scanItem_lexeme hfits hcurrent htext ends, hfirst, hnext,
          LineScan.under_cons_token]
        rfl
      | @fault kind text more hfault =>
        have hfirst := Munch.first_fault settings.stripQuotes hfault hs.symm
        simp only [scanItem_fault hfits hcurrent hfault (hrest.trans hs), hfirst]
        rw [LineScan.under_nil]

end Cursor

theorem length_le_linesLength (lines : List (List Char)) : lines.length ≤ linesLength lines := by
  induction lines with
  | nil => exact Nat.le_refl 0
  | cons s lines ih =>
    rw [List.length_cons, linesLength_cons]
    omega

/-- Every line before this one has at least the byte of its line feed. -/
theorem Source.index_le_offset {source : Source} {whole : String} (h : Of source whole) {i : Nat}
    {line : Line} (hl : source.lines[i]? = some line) : i ≤ line.offset := by
  obtain ⟨trim, pieces, -, hlines, -⟩ := h.exists_layout
  rw [hlines] at hl
  obtain ⟨a, s, b, -, rfl, rfl⟩ := layout_getElem? hl
  exact Nat.le_trans (length_le_linesLength a) (Nat.le_add_left _ _)

/-- On the lines of any source that a memory holds no position wraps. -/
theorem Source.fits_of_size {source : Source} {whole : String} (h : Of source whole)
    (hsize : whole.utf8ByteSize ≤ maxSize) {i : Nat} {line : Line}
    (hl : source.lines[i]? = some line) : (Cursor.start line i).Fits := by
  have hindex := index_le_offset h hl
  have hline : line.text = [] ++ line.text ++ [] := by simp
  obtain ⟨a, b, hwhole, ha⟩ := h.exists_append hl hline
  rw [utf8ByteSize_eq, hwhole, byteLength_append, byteLength_append, ha] at hsize
  have hword : maxSize + 1 < wordSize := by decide
  constructor
  · change line.offset + byteLength line.text < wordSize
    rw [byteLength_nil] at hsize
    omega
  · change i + 1 < wordSize
    omega

/-- A reading head scans the lines of a source as the munches do. -/
theorem Cursor.scanLine_of_source {source : Source} {whole : String} (h : Source.Of source whole)
    (hsize : whole.utf8ByteSize ≤ maxSize) {i : Nat} {line : Line}
    (hl : source.lines[i]? = some line) (settings : LexerSettings) :
    (start line i).scanLine settings = some (LineScan.ofLine settings i line) := by
  have hfits := Source.fits_of_size h hsize hl
  have hposition : (start line i).position = line.start i := by
    have hbyte : (start line i).position.byteOffset = line.offset := byteOffset_eq hfits.line
    have hline : (start line i).position.line = i + 1 := Nat.mod_eq_of_lt hfits.index
    exact congrArg₂ (fun number byte => (⟨number, 1, byte⟩ : Position)) hline hbyte
  rw [scanLine_eq _ hfits, hposition]
  rfl

end LineLexer
