import LineLexer.Proofs.Layout

/-! Bytes as text. Bytes are a text when some text is encoded by them; then it is the only one.
Any other bytes have a longest beginning that is a text, and decoding tells how long it is. -/

namespace LineLexer

namespace Utf8

def IsText (b : ByteArray) : Prop := ∃ s, encode s = b

/-- The first `n` bytes are a text, and no more of the first bytes are one. -/
structure LongestText (b : ByteArray) (n : Nat) : Prop where
  le_size : n ≤ b.size
  isText : IsText (b.extract 0 n)
  longest : ∀ m, m ≤ b.size → IsText (b.extract 0 m) → m ≤ n

theorem isText_iff {b : ByteArray} : IsText b ↔ b.IsValidUTF8 := by
  constructor
  · rintro ⟨s, rfl⟩
    exact s.isValidUTF8
  · intro h
    exact ⟨String.fromUTF8 b h, rfl⟩

theorem encode_injective {s t : String} (h : encode s = encode t) : s = t :=
  String.toByteArray_inj.mp h

theorem isText_utf8Encode (l : List Char) : IsText l.utf8Encode :=
  isText_iff.mpr ByteArray.isValidUTF8_utf8Encode

theorem exists_eq_utf8Encode {b : ByteArray} (h : IsText b) : ∃ l : List Char, b = l.utf8Encode := by
  obtain ⟨s, rfl⟩ := h
  exact ⟨s.toList, encode_eq s⟩

theorem decode_encode (s : String) : decode (encode s) = .ok s := by
  have h : (encode s).IsValidUTF8 := isText_iff.mp ⟨s, rfl⟩
  rw [decode, String.fromUTF8?, dif_pos h]
  rfl

theorem slice?_append {s : String} {a w b : List Char} (h : s.toList = a ++ w ++ b) :
    slice? s (byteLength a) (byteLength a + byteLength w) = some (String.ofList w) := by
  have hsize := utf8ByteSize_eq s
  rw [h, byteLength_append, byteLength_append] at hsize
  have hfront : (encode s).extract 0 (byteLength a) = encode (String.ofList a) := by
    have hh := extract_utf8Encode [] a (w ++ b)
    rw [byteLength_nil, Nat.zero_add, List.nil_append, ← List.append_assoc, ← h] at hh
    rw [encode_eq, hh, encode_eq, String.toList_ofList]
  have hmiddle : (encode s).extract (byteLength a) (byteLength a + byteLength w) =
      encode (String.ofList w) := by
    rw [encode_eq, h, extract_utf8Encode, encode_eq, String.toList_ofList]
  rw [slice?, if_pos (by omega), hfront, hmiddle, decode_encode, decode_encode]

theorem decode_of_not_isText {b : ByteArray} (h : ¬ IsText b) :
    decode b = .error (validUpTo b 0) := by
  rw [decode, String.fromUTF8?, dif_neg (mt isText_iff.mpr h)]

theorem validUpTo_eq (b : ByteArray) (i : Nat) :
    validUpTo b i =
      match b.utf8DecodeChar? i with
      | none => i
      | some c => validUpTo b (i + c.utf8Size) := by
  rw [validUpTo]
  split <;> next h => simp only [h]

/-- Decoding behind whole characters looks at what is left behind them. -/
theorem decodeChar_append (l : List Char) (tail : ByteArray) :
    (l.utf8Encode ++ tail).utf8DecodeChar? (byteLength l) = tail.utf8DecodeChar? 0 := by
  have hextract : (l.utf8Encode ++ tail).extract (byteLength l) (l.utf8Encode ++ tail).size =
      tail :=
    ByteArray.extract_append_eq_right (size_utf8Encode l).symm ByteArray.size_append
  rw [ByteArray.utf8DecodeChar?_eq_utf8DecodeChar?_extract, hextract]

/-- Where the run of whole characters ends no character can be decoded. -/
theorem exists_of_validUpTo (l : List Char) (tail : ByteArray) :
    ∃ (more : List Char) (rest : ByteArray), tail = more.utf8Encode ++ rest ∧
      rest.utf8DecodeChar? 0 = none ∧
      validUpTo (l.utf8Encode ++ tail) (byteLength l) = byteLength (l ++ more) := by
  induction hn : tail.size using Nat.strongRecOn generalizing l tail with
  | ind n ih =>
    cases hc : tail.utf8DecodeChar? 0 with
    | none =>
      refine ⟨[], tail, by simp, hc, ?_⟩
      rw [validUpTo_eq, decodeChar_append, hc, List.append_nil]
    | some c =>
      obtain ⟨rest, hrest⟩ := ByteArray.exists_of_utf8DecodeChar?_eq_some hc
      rw [← List.utf8Encode_singleton] at hrest
      have hsize : rest.size < n := by
        have hpos := c.utf8Size_pos
        rw [← hn, hrest, ByteArray.size_append, size_utf8Encode, byteLength_cons]
        omega
      obtain ⟨more, left, hmore, hnone, hvalid⟩ := ih _ hsize (l ++ [c]) rest rfl
      refine ⟨c :: more, left, ?_, hnone, ?_⟩
      · rw [hrest, hmore, ← ByteArray.append_assoc, ← List.utf8Encode_append,
          List.singleton_append]
      · rw [validUpTo_eq, decodeChar_append, hc]
        rw [List.utf8Encode_append, ByteArray.append_assoc, ← hrest, byteLength_append,
          byteLength_cons, byteLength_nil, Nat.add_zero, List.append_assoc,
          List.singleton_append] at hvalid
        exact hvalid

/-- Of two beginnings that are texts, the one behind which no character can be decoded is not the
shorter one. -/
theorem byteLength_le_of_append_eq {l m : List Char} {rest more : ByteArray}
    (h : m.utf8Encode ++ more = l.utf8Encode ++ rest) (hrest : rest.utf8DecodeChar? 0 = none) :
    byteLength m ≤ byteLength l := by
  induction m generalizing l with
  | nil => exact Nat.zero_le _
  | cons c m ih =>
    rw [List.utf8Encode_cons, ByteArray.append_assoc] at h
    have hc : ([c].utf8Encode ++ (m.utf8Encode ++ more)).utf8DecodeChar? 0 = some c :=
      List.utf8DecodeChar?_utf8Encode_singleton_append
    cases l with
    | nil =>
      rw [h, List.utf8Encode_nil, ByteArray.empty_append, hrest] at hc
      simp at hc
    | cons d l =>
      rw [@List.utf8Encode_cons d, ByteArray.append_assoc] at h
      rw [h, List.utf8DecodeChar?_utf8Encode_singleton_append] at hc
      obtain rfl : d = c := Option.some.inj hc
      have hh := ih ((ByteArray.append_right_inj _).mp h)
      rw [byteLength_cons, byteLength_cons]
      omega

theorem longestText_validUpTo (b : ByteArray) : LongestText b (validUpTo b 0) := by
  obtain ⟨l, rest, hb, hrest, hvalid⟩ := exists_of_validUpTo [] b
  rw [List.utf8Encode_nil, ByteArray.empty_append, byteLength_nil, List.nil_append] at hvalid
  have hsize : b.size = byteLength l + rest.size := by
    rw [hb, ByteArray.size_append, size_utf8Encode]
  rw [hvalid]
  refine ⟨by omega, ?_, ?_⟩
  · rw [hb, ByteArray.extract_append_eq_left (size_utf8Encode l).symm]
    exact isText_utf8Encode l
  · intro n hn htext
    obtain ⟨m, hm⟩ := exists_eq_utf8Encode htext
    have hlen : byteLength m = n := by
      rw [← size_utf8Encode, ← hm, ByteArray.size_extract]
      omega
    have hsplit : b = m.utf8Encode ++ b.extract n b.size := by
      rw [← hm, ByteArray.extract_append_extract, Nat.zero_min, Nat.max_eq_right hn,
        ByteArray.extract_zero_size]
    rw [← hlen]
    exact byteLength_le_of_append_eq (hsplit.symm.trans hb) hrest

theorem LongestText.unique {b : ByteArray} {m n : Nat} (hm : LongestText b m)
    (hn : LongestText b n) : m = n :=
  Nat.le_antisymm (hn.longest m hm.le_size hm.isText) (hm.longest n hn.le_size hn.isText)

theorem decode_eq_ok_iff {b : ByteArray} {s : String} : decode b = .ok s ↔ encode s = b := by
  constructor
  · intro h
    by_cases ht : IsText b
    · obtain ⟨t, rfl⟩ := ht
      rw [decode_encode] at h
      rw [Except.ok.inj h]
    · rw [decode_of_not_isText ht] at h
      simp at h
  · rintro rfl
    exact decode_encode s

theorem decode_eq_error_iff {b : ByteArray} {n : Nat} :
    decode b = .error n ↔ ¬ IsText b ∧ LongestText b n := by
  by_cases ht : IsText b
  · obtain ⟨t, rfl⟩ := ht
    rw [decode_encode]
    simp only [reduceCtorEq, false_iff, not_and]
    exact fun h => absurd ⟨t, rfl⟩ h
  · rw [decode_of_not_isText ht, Except.error.injEq, and_iff_right ht]
    constructor
    · rintro rfl
      exact longestText_validUpTo b
    · exact (longestText_validUpTo b).unique

end Utf8

end LineLexer
