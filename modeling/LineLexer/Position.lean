/-! Places in a source. A position counts lines and columns from one, columns in characters,
and keeps the byte offset from the start of the whole source. -/

namespace LineLexer

/-- Bytes that the characters take in UTF-8. -/
def byteLength (s : List Char) : Nat :=
  s.foldr (·.utf8Size + ·) 0

/-- Nothing that is kept in memory takes more bytes, be it a text, a list or what a file holds. -/
def maxSize : Nat := Nat.pow 2 63 - 1

/-- Numbers of a machine word. A sum that reaches this wraps around. -/
def wordSize : Nat := Nat.pow 2 64

structure Position where
  line : Nat
  column : Nat
  byteOffset : Nat
deriving DecidableEq, Repr, Inhabited

namespace Position

def first : Position := ⟨1, 1, 0⟩

/-- The position behind `s`, read on the same line. -/
def after (p : Position) (s : List Char) : Position :=
  ⟨p.line, p.column + s.length, p.byteOffset + byteLength s⟩

def describe (p : Position) : String :=
  "line " ++ p.line.repr ++ ", column " ++ p.column.repr

end Position

/-- The half-open stretch from `start` up to `stop`. -/
structure Span where
  start : Position
  stop : Position
deriving DecidableEq, Repr, Inhabited

namespace Span

def point (p : Position) : Span := ⟨p, p⟩

def size (s : Span) : Nat := s.stop.byteOffset - s.start.byteOffset

def isEmpty (s : Span) : Bool := s.size == 0

def covering (p : Position) (s : List Char) : Span := ⟨p, p.after s⟩

end Span

@[simp]
theorem byteLength_nil : byteLength [] = 0 := rfl

@[simp]
theorem byteLength_cons (c : Char) (s : List Char) :
    byteLength (c :: s) = c.utf8Size + byteLength s := rfl

@[simp]
theorem byteLength_append (s t : List Char) :
    byteLength (s ++ t) = byteLength s + byteLength t := by
  induction s with
  | nil => simp
  | cons c s ih => simp [ih, Nat.add_assoc]

theorem length_le_byteLength (s : List Char) : s.length ≤ byteLength s := by
  induction s with
  | nil => exact Nat.le_refl 0
  | cons c s ih =>
    have hc := c.utf8Size_pos
    rw [List.length_cons, byteLength_cons]
    omega

theorem byteLength_pos {s : List Char} (h : s ≠ []) : 0 < byteLength s :=
  Nat.lt_of_lt_of_le (List.length_pos_iff.mpr h) (length_le_byteLength s)

@[simp]
theorem Position.after_nil (p : Position) : p.after [] = p := rfl

theorem Position.after_append (p : Position) (s t : List Char) :
    p.after (s ++ t) = (p.after s).after t := by
  simp [Position.after, Nat.add_assoc]

end LineLexer
