import LineLexer.Text.Lines

/-! Numbered lines: the listing of a whole source, and the lines around one place with a caret
under it. -/

namespace LineLexer

def alignRight (width : Nat) (s : String) : String :=
  String.ofList (List.replicate (width - s.length) ' ') ++ s

def numberedLine (number : Nat) (text : List Char) (width : Nat) : String :=
  alignRight width number.repr ++ " | " ++ String.ofList text

/-- The widest column of numbers that can be asked for. -/
def maxWidth : Nat := 65535

/-- A numbered line of any width that can be asked for. -/
def numberedLine? (number : Nat) (text : List Char) (width : Nat) : Option String :=
  if width ≤ maxWidth then some (numberedLine number text width) else none

def listingWidth (source : String) : Nat := max 3 (max 1 (shownLines source).length).repr.length

def listing (source : String) : String :=
  "[Source]\n" ++
    String.join ((shownLines source).zipIdx.map fun l =>
      numberedLine (l.2 + 1) l.1 (listingWidth source) ++ "\n") ++
    "[Tokens]\n"

namespace Context

/-- Lines shown on either side of the requested one. -/
def radius : Nat := 2

def rule (width : Nat) : String :=
  String.ofList (List.replicate (width + 1) '-') ++ "|--\n"

def marker (width column : Nat) : String :=
  String.ofList (List.replicate width ' ') ++ " | " ++
    String.ofList (List.replicate (column - 1) ' ') ++ "^\n"

/-- The line with this number; the first one has number one. -/
def line? (lines : List (List Char)) (number : Nat) : Option (List Char) :=
  if number = 0 then none else lines[number - 1]?

/-- One numbered line. Behind the requested one comes the caret, if a text has room for it. -/
def row? (lines : List (List Char)) (width line column number : Nat) : Option String := do
  let text ← line? lines number
  let row := numberedLine number text width ++ "\n"
  if number ≠ line then some row
  else if maxSize < column - 1 then none
  else some (row ++ marker width column)

/-- So many rows from one number on. -/
def rows? (lines : List (List Char)) (width line column : Nat) : Nat → Nat → Option String
  | _, 0 => some ""
  | number, count + 1 => do
    let row ← row? lines width line column number
    let rest ← rows? lines width line column (number + 1) count
    some (row ++ rest)

/-- The lines around `line`, with a caret under `column` behind it. A line that the source does
not have shows nothing. -/
def around? (source : String) (line column : Nat) : Option String :=
  let lines := shownLines source
  if line = 0 ∨ lines.length < line then some ""
  else
    let start := max 1 (line - radius)
    let stop := min (line + radius) lines.length
    let width := stop.repr.length
    (rows? lines width line column start (stop + 1 - start)).map (rule width ++ · ++ rule width)

end Context

end LineLexer
