/-! Bytes and text. Bytes that are no UTF-8 throughout have a longest beginning that is. -/

namespace LineLexer

namespace Utf8

theorem lt_size_of_decodeChar {b : ByteArray} {i : Nat} {c : Char}
    (h : b.utf8DecodeChar? i = some c) : i < b.size := by
  rw [ByteArray.utf8DecodeChar?.eq_def] at h
  split at h
  · assumption
  · simp at h

/-- Where the run of whole characters from `i` on ends. -/
def validUpTo (b : ByteArray) (i : Nat) : Nat :=
  match h : b.utf8DecodeChar? i with
  | none => i
  | some c =>
    have := lt_size_of_decodeChar h
    have := c.utf8Size_pos
    validUpTo b (i + c.utf8Size)
termination_by b.size - i

/-- The text that the bytes encode, or the length of their longest valid beginning. -/
def decode (b : ByteArray) : Except Nat String :=
  match String.fromUTF8? b with
  | some s => .ok s
  | none => .error (validUpTo b 0)

def encode (s : String) : ByteArray := s.toUTF8

/-- The text between two bytes, if a character begins at each of them or the text ends there. -/
def slice? (s : String) (start stop : Nat) : Option String :=
  if start ≤ stop ∧ stop ≤ s.utf8ByteSize then
    match decode ((encode s).extract 0 start), decode ((encode s).extract start stop) with
    | .ok _, .ok t => some t
    | _, _ => none
  else none

end Utf8

end LineLexer
