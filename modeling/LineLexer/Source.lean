import LineLexer.Position

/-! A source is its lines, each with the byte offset of its first character. Cutting a text into
lines drops the line feeds, and with each of them one carriage return before it. -/

namespace LineLexer

structure Line where
  text : List Char
  offset : Nat
deriving DecidableEq, Repr

def Line.start (l : Line) (index : Nat) : Position := ⟨index + 1, 1, l.offset⟩

/-- All bytes of the line, and the end of it, are at offsets that a machine word holds. -/
def Line.Fits (l : Line) : Prop := l.offset + byteLength l.text < wordSize

structure Source where
  lines : List Line
deriving DecidableEq, Repr

def dropReturn (s : List Char) : List Char :=
  if s.getLast? = some '\r' then s.dropLast else s

namespace Source

/-- Numbers the lines by offset: each begins one byte behind the end of the one before, as it
was before `trim` shortened it. -/
def layout (trim : List Char → List Char) (offset : Nat) : List (List Char) → List Line
  | [] => []
  | s :: rest => ⟨trim s, offset⟩ :: layout trim (offset + byteLength s + 1) rest

/-- The lines of a whole text, which has one line more than line feeds. -/
def ofText (text : String) : Source :=
  ⟨layout dropReturn 0 (text.toList.splitOn '\n')⟩

/-- Lines that are cut already; they are taken as they are. -/
def ofLines (lines : List String) : Source :=
  ⟨layout id 0 (lines.map String.toList)⟩

def lineCount (s : Source) : Nat := s.lines.length

theorem length_layout (trim : List Char → List Char) (offset : Nat) (ls : List (List Char)) :
    (layout trim offset ls).length = ls.length := by
  induction ls generalizing offset with
  | nil => rfl
  | cons s rest ih => simp [layout, ih]

end Source

end LineLexer
