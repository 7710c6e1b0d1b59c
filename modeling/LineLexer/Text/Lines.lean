import LineLexer.Source

/-! The lines of a text as they are shown: each ends with a line feed, and only what is left
behind the last line feed is a line without one. -/

namespace LineLexer

/-- A line drops one carriage return before its line feed. There is no empty line behind the last
line feed. -/
def shownLines (text : String) : List (List Char) :=
  let pieces := text.toList.splitOn '\n'
  let ended := pieces.dropLast.map dropReturn
  match pieces.getLast? with
  | some [] => ended
  | some last => ended ++ [last]
  | none => ended

end LineLexer
