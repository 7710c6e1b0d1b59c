import LineLexer.Source
import LineLexer.Text.Utf8

/-! A reading head on one line. It only moves forward and stops behind the last character. It knows
the byte at which each character of the line begins, and what it has read is cut out of the line by
bytes. -/

namespace LineLexer

/-- The characters, each with the byte at which it begins; the first one begins at `start`. -/
def charIndices (start : Nat) : List Char → List (Nat × Char)
  | [] => []
  | c :: s => (start, c) :: charIndices (start + c.utf8Size) s

theorem getElem?_charIndices (start : Nat) (s : List Char) (i : Nat) :
    (charIndices start s)[i]? = s[i]?.map fun c => (start + byteLength (s.take i), c) := by
  induction s generalizing start i with
  | nil => rfl
  | cons c s ih =>
    cases i with
    | zero => simp [charIndices]
    | succ i => simp [charIndices, ih, Nat.add_assoc]

structure Cursor where
  line : Line
  /-- index of the line, from zero -/
  index : Nat
  /-- characters read so far -/
  offset : Nat
  offset_le : offset ≤ line.text.length

namespace Cursor

def start (line : Line) (index : Nat) : Cursor := ⟨line, index, 0, Nat.zero_le _⟩

/-- What is still to be read. -/
def rest (c : Cursor) : List Char := c.line.text.drop c.offset

def chars (c : Cursor) : List (Nat × Char) := charIndices 0 c.line.text

def current (c : Cursor) : Option Char := c.chars[c.offset]?.map Prod.snd

def peek (c : Cursor) : Option Char := c.chars[c.offset + 1]?.map Prod.snd

def atEnd (c : Cursor) : Bool := c.offset == c.line.text.length

def advance (c : Cursor) : Cursor :=
  if h : c.offset < c.line.text.length then { c with offset := c.offset + 1, offset_le := h } else c

def advanceBy (c : Cursor) (n : Nat) : Cursor :=
  { c with
    offset := min (c.offset + n) c.line.text.length
    offset_le := Nat.min_le_right _ _ }

/-- The byte at which the character with index `i` begins; an index behind the end of the line stands
for the end. -/
def byteIndex (c : Cursor) (i : Nat) : Nat :=
  (c.chars[i]?.map Prod.fst).getD (byteLength c.line.text)

/-- The line and the byte are sums of machine words, which any line and any index may make wrap. -/
def position (c : Cursor) : Position :=
  ⟨(c.index + 1) % wordSize, c.offset + 1, (c.line.offset + c.byteIndex c.offset) % wordSize⟩

def spanFrom (c : Cursor) (start : Position) : Span := ⟨start, c.position⟩

/-- What stands on the line from the character with index `i` up to the head. There is no slice that
begins behind the head, and none that begins or ends within a character. -/
def sliceFrom (c : Cursor) (i : Nat) : Option (List Char) :=
  (Utf8.slice? (String.ofList c.line.text) (c.byteIndex i) (c.byteIndex c.offset)).map String.toList

theorem current_eq (c : Cursor) : c.current = c.line.text[c.offset]? := by
  simp [current, chars, getElem?_charIndices, Function.comp_def]

theorem byteIndex_eq (c : Cursor) (i : Nat) : c.byteIndex i = byteLength (c.line.text.take i) := by
  rw [byteIndex, chars, getElem?_charIndices]
  by_cases h : i < c.line.text.length
  · simp [h]
  · simp [List.getElem?_eq_none (Nat.le_of_not_lt h), List.take_of_length_le (Nat.le_of_not_lt h)]

@[simp]
theorem line_advance (c : Cursor) : c.advance.line = c.line := by
  rw [advance]
  split <;> rfl

theorem offset_advance (c : Cursor) :
    c.advance.offset = min (c.offset + 1) c.line.text.length := by
  have hle := c.offset_le
  rw [advance]
  split
  · next h => exact (Nat.min_eq_left h).symm
  · next h => omega

theorem advanceBy_zero (c : Cursor) : c.advanceBy 0 = c := by
  simp [advanceBy, Nat.min_eq_left c.offset_le]

theorem advanceBy_succ (c : Cursor) (n : Nat) : c.advanceBy (n + 1) = (c.advanceBy n).advance := by
  by_cases h : c.offset + n < c.line.text.length
  · have hn : min (c.offset + n) c.line.text.length = c.offset + n := by omega
    have hs : min (c.offset + (n + 1)) c.line.text.length = c.offset + n + 1 := by omega
    simp [advanceBy, advance, hn, hs, h]
  · have hn : min (c.offset + n) c.line.text.length = c.line.text.length := by omega
    have hs : min (c.offset + (n + 1)) c.line.text.length = c.line.text.length := by omega
    simp [advanceBy, advance, hn, hs]

end Cursor

end LineLexer
