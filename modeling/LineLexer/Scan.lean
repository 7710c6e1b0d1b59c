import LineLexer.LexError
import LineLexer.Settings
import LineLexer.Source
import LineLexer.TokenTable

/-! Scanning. A line is read from left to right, one munch after the other; what is found are
tokens and stray characters, up to the end of the line or the first failure. Only then does the
policy say what becomes of the stray characters. -/

namespace LineLexer

/-- What begins at a character, and the text and the rest of the line behind it. -/
inductive Munch where
  | token (value : TokenValue) (text rest : List Char)
  | stray
  | blank
  | failure (kind : LexErrorKind) (text : List Char)

namespace Munch

def maxInt : Nat := Nat.pow 2 63 - 1

/-- A run of digits, with a point and more digits behind it or not. -/
def number (s : List Char) : Munch :=
  let whole := s.takeWhile Char.isDigit
  match s.dropWhile Char.isDigit with
  | '.' :: r =>
    let fraction := r.takeWhile Char.isDigit
    let text := whole ++ '.' :: fraction
    match r.dropWhile Char.isDigit with
    | '.' :: _ => .failure .malformedNumber text
    | rest =>
      match Decimal.ofText? text with
      | some d => .token (.float (.ofDecimal d)) text rest
      | none => .failure .malformedNumber text
  | rest =>
    if digitsValue whole ≤ maxInt then .token (.int (digitsValue whole)) whole rest
    else .failure .numberOutOfRange whole

/-- From an opening quote to the next one like it; `s` begins behind the opening quote. -/
def string (strip : Bool) (mark : Char) (s : List Char) : Munch :=
  let body := s.takeWhile (· != mark)
  let text := mark :: body ++ [mark]
  match s.dropWhile (· != mark) with
  | [] => .failure .unterminatedString (mark :: s)
  | _ :: rest => .token (.str (String.ofList (if strip then body else text))) text rest

/-- What begins at `c`, with `s` behind it. -/
def first (strip : Bool) (c : Char) (s : List Char) : Munch :=
  match CharClass.of c with
  | .digit => number (c :: s)
  | .quote mark => string strip mark s
  | .operator o => .token (.operator o) [c] s
  | .blank => .blank
  | .other => .stray

theorem length_dropWhile_le (p : Char → Bool) (s : List Char) :
    (s.dropWhile p).length ≤ s.length := by
  induction s with
  | nil => simp
  | cons c s ih =>
    rw [List.dropWhile_cons]
    split
    · exact Nat.le_succ_of_le ih
    · exact Nat.le_refl _

theorem length_lt_of_number {c : Char} {s text rest : List Char} {v : TokenValue}
    (hc : c.isDigit = true) (h : number (c :: s) = .token v text rest) :
    rest.length < (c :: s).length := by
  have hs := length_dropWhile_le Char.isDigit s
  have hd : (c :: s).dropWhile Char.isDigit = s.dropWhile Char.isDigit := by
    rw [List.dropWhile_cons, if_pos hc]
  simp only [number, hd] at h
  split at h
  · next r hr =>
    have hr' := length_dropWhile_le Char.isDigit r
    rw [hr] at hs
    simp only [List.length_cons] at hs ⊢
    split at h
    · simp at h
    · split at h
      · simp only [Munch.token.injEq] at h
        rw [← h.2.2]
        omega
      · simp at h
  · split at h
    · simp only [Munch.token.injEq] at h
      rw [← h.2.2]
      simp only [List.length_cons]
      omega
    · simp at h

theorem length_lt_of_string {strip : Bool} {mark : Char} {s text rest : List Char}
    {v : TokenValue} (h : string strip mark s = .token v text rest) :
    rest.length < s.length + 1 := by
  have hs := length_dropWhile_le (· != mark) s
  simp only [string] at h
  split at h
  · simp at h
  · next r hr =>
    simp only [Munch.token.injEq] at h
    rw [hr] at hs
    rw [← h.2.2]
    simp only [List.length_cons] at hs
    omega

/-- A token takes at least the character it begins with. -/
theorem length_lt_of_first {strip : Bool} {c : Char} {s text rest : List Char} {v : TokenValue}
    (h : first strip c s = .token v text rest) : rest.length < (c :: s).length := by
  simp only [first, CharClass.of] at h
  split at h
  · next hclass =>
    refine length_lt_of_number ?_ h
    by_cases hc : c.isDigit = true
    · exact hc
    · simp only [hc] at hclass
      repeat' split at hclass
      all_goals simp_all
  · exact length_lt_of_string h
  · simp only [Munch.token.injEq] at h
    rw [← h.2.2]
    simp
  · simp at h
  · simp at h

end Munch

inductive ScanItem where
  | token (t : Token)
  | stray (position : Position) (c : Char)
deriving DecidableEq, Repr

/-- What one line holds, up to its end or the first failure. -/
structure LineScan where
  items : List ScanItem
  failure : Option LexError
deriving DecidableEq, Repr

namespace LineScan

def cons (i : ScanItem) (s : LineScan) : LineScan := { s with items := i :: s.items }

/-- Scans the rest of a line, which begins at `p`. -/
def ofChars (strip : Bool) (p : Position) : List Char → LineScan
  | [] => ⟨[], none⟩
  | c :: s =>
    match _h : Munch.first strip c s with
    | .blank => ofChars strip (p.after [c]) s
    | .stray => (ofChars strip (p.after [c]) s).cons (.stray p c)
    | .token v text rest =>
      (ofChars strip (p.after text) rest).cons (.token ⟨v, .covering p text⟩)
    | .failure kind text => ⟨[], some ⟨kind, p, String.ofList text⟩⟩
termination_by s => s.length
decreasing_by
  · exact Nat.lt_succ_self _
  · exact Nat.lt_succ_self _
  · exact Munch.length_lt_of_first _h

theorem ofChars_cons (strip : Bool) (p : Position) (c : Char) (s : List Char) :
    ofChars strip p (c :: s) =
      match Munch.first strip c s with
      | .blank => ofChars strip (p.after [c]) s
      | .stray => (ofChars strip (p.after [c]) s).cons (.stray p c)
      | .token v text rest =>
        (ofChars strip (p.after text) rest).cons (.token ⟨v, .covering p text⟩)
      | .failure kind text => ⟨[], some ⟨kind, p, String.ofList text⟩⟩ := by
  rw [ofChars]
  split <;> simp_all

/-- The items before the first stray character, which fails if there is one. -/
def rejectStray (failure : Option LexError) : List ScanItem → LineScan
  | [] => ⟨[], failure⟩
  | .token t :: rest => (rejectStray failure rest).cons (.token t)
  | .stray p c :: _ => ⟨[], some (.unrecognized p c)⟩

def under (s : LineScan) : Policy → LineScan
  | .reject => rejectStray s.failure s.items
  | _ => s

def ofLine (settings : LexerSettings) (index : Nat) (l : Line) : LineScan :=
  (ofChars settings.stripQuotes (l.start index) l.text).under settings.unrecognized

def tokens (s : LineScan) : List Token :=
  s.items.filterMap fun
    | .token t => some t
    | .stray .. => none

def strays (s : LineScan) : List LexError :=
  s.items.filterMap fun
    | .token _ => none
    | .stray p c => some (.unrecognized p c)

end LineScan

/-- The lines that were scanned, in order; only the last can have failed. -/
structure Scan where
  settings : LexerSettings
  lines : List LineScan
deriving DecidableEq, Repr

namespace Scan

/-- Scans one line after the other and stops behind the first failure. -/
def ofLines (settings : LexerSettings) (index : Nat) : List Line → List LineScan
  | [] => []
  | l :: rest =>
    let s := LineScan.ofLine settings index l
    match s.failure with
    | some _ => [s]
    | none => s :: ofLines settings (index + 1) rest

def ofSource (settings : LexerSettings) (source : Source) : Scan :=
  ⟨settings, ofLines settings 0 source.lines⟩

def firstFailure (lines : List LineScan) : Option LexError := lines.findSome? LineScan.failure

def failure (s : Scan) : Option LexError := firstFailure s.lines

def result (s : Scan) : Except LexError TokenTable :=
  match s.failure with
  | some e => .error e
  | none => .ok (.ofRows (s.lines.map LineScan.tokens))

def diagnostics (s : Scan) : List LexError :=
  match s.settings.unrecognized with
  | .collect => s.lines.flatMap LineScan.strays
  | _ => []

end Scan

end LineLexer
