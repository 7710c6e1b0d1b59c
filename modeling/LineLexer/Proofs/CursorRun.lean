import LineLexer.Cursor
import LineLexer.Proofs.Decoding
import Mathlib.Logic.Function.Iterate

/-! A reading head on its way along a line. However often it has advanced, its character, column and
byte belong together, and what it cuts out of the line are the characters that it has passed. Only
where the offsets of the line go beyond a machine word does its byte go back. -/

namespace LineLexer

section prefixes

variable {i j : Nat}

theorem take_eq_append (h : i ≤ j) (s : List Char) : s.take j = s.take i ++ (s.take j).drop i := by
  have htake := List.take_append_drop i (s.take j)
  rwa [List.take_take, Nat.min_eq_left h, eq_comm] at htake

theorem byteLength_take_eq (h : i ≤ j) (s : List Char) :
    byteLength (s.take j) = byteLength (s.take i) + byteLength ((s.take j).drop i) := by
  rw [← byteLength_append, ← take_eq_append h s]

end prefixes

namespace Cursor

theorem position_eq (c : Cursor) :
    c.position = ⟨(c.index + 1) % wordSize, c.offset + 1,
      (c.line.offset + byteLength (c.line.text.take c.offset)) % wordSize⟩ := by
  rw [position, byteIndex_eq]

/-- No offset within a line that fits wraps. -/
theorem byteOffset_eq {c : Cursor} (h : c.line.Fits) :
    c.position.byteOffset = c.line.offset + byteLength (c.line.text.take c.offset) := by
  have hle : byteLength (c.line.text.take c.offset) ≤ byteLength c.line.text := by
    have hall := byteLength_take_eq c.offset_le c.line.text
    rw [List.take_length] at hall
    omega
  rw [c.position_eq]
  refine Nat.mod_eq_of_lt ?_
  rw [Line.Fits] at h
  omega

theorem column_eq (c : Cursor) : c.position.column = c.offset + 1 := rfl

theorem slice?_take (c : Cursor) {i j : Nat} (h : i ≤ j) :
    Utf8.slice? (String.ofList c.line.text) (c.byteIndex i) (c.byteIndex j) =
      some (String.ofList ((c.line.text.take j).drop i)) := by
  have htext : (String.ofList c.line.text).toList =
      c.line.text.take i ++ (c.line.text.take j).drop i ++ c.line.text.drop j := by
    rw [String.toList_ofList, ← take_eq_append h, List.take_append_drop]
  have hslice := Utf8.slice?_append htext
  rwa [← byteLength_take_eq h, ← byteIndex_eq, ← byteIndex_eq] at hslice

theorem sliceFrom_of_le (c : Cursor) {i : Nat} (h : i ≤ c.offset) :
    c.sliceFrom i = some ((c.line.text.take c.offset).drop i) := by
  rw [sliceFrom, c.slice?_take h, Option.map_some, String.toList_ofList]

example :
    let line : Line := ⟨"x'héllo'y".toList, 0⟩
    (advance^[8] (start line 0)).sliceFrom 1 = some "'héllo'".toList ∧
      (advance^[8] (start line 0)).position = ⟨1, 9, 9⟩ := by
  decide +kernel

end Cursor

end LineLexer
