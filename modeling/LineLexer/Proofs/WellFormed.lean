import LineLexer.Files.Disk
import LineLexer.Proofs.Stored

/-! Well-formed bytes. A table tells which bytes make up one character, and bytes are a text when
they are characters one after the other. So a file is read as text exactly when it is well formed,
and any other file has a longest beginning that is. -/

namespace LineLexer

namespace Utf8

/-- Goes on with a character and begins none. -/
def IsTail (b : UInt8) : Prop := 0x80 ≤ b.toNat ∧ b.toNat ≤ 0xBF

/-- The bytes of one character. -/
inductive IsCharacter : List UInt8 → Prop where
  | one {a : UInt8} (first : a.toNat ≤ 0x7F) : IsCharacter [a]
  | two {a b : UInt8} (first : 0xC2 ≤ a.toNat ∧ a.toNat ≤ 0xDF) (second : IsTail b) :
      IsCharacter [a, b]
  | three {a b c : UInt8} (first : 0xE0 ≤ a.toNat ∧ a.toNat ≤ 0xEF) (second : IsTail b)
      (third : IsTail c) (shortest : a.toNat = 0xE0 → 0xA0 ≤ b.toNat)
      (not_surrogate : a.toNat = 0xED → b.toNat ≤ 0x9F) : IsCharacter [a, b, c]
  | four {a b c d : UInt8} (first : 0xF0 ≤ a.toNat ∧ a.toNat ≤ 0xF4) (second : IsTail b)
      (third : IsTail c) (fourth : IsTail d) (shortest : a.toNat = 0xF0 → 0x90 ≤ b.toNat)
      (not_beyond : a.toNat = 0xF4 → b.toNat ≤ 0x8F) : IsCharacter [a, b, c, d]

inductive WellFormed : List UInt8 → Prop where
  | nil : WellFormed []
  | append {c rest : List UInt8} (h : IsCharacter c) (hrest : WellFormed rest) :
      WellFormed (c ++ rest)

theorem isCharacter_utf8EncodeChar (c : Char) : IsCharacter (String.utf8EncodeChar c) := by
  have hc : c.val.toNat < 0xD800 ∨ 0xDFFF < c.val.toNat ∧ c.val.toNat < 0x110000 := c.valid
  generalize hn : c.val.toNat = n at hc
  simp only [String.utf8EncodeChar, hn]
  split
  · refine .one ?_
    rw [UInt8.toNat_ofNat']
    omega
  split
  · refine .two ?_ ?_ <;> simp only [IsTail, UInt8.toNat_ofNat'] <;> omega
  split
  · refine .three ?_ ?_ ?_ ?_ ?_ <;> simp only [IsTail, UInt8.toNat_ofNat'] <;> omega
  · refine .four ?_ ?_ ?_ ?_ ?_ ?_ <;> simp only [IsTail, UInt8.toNat_ofNat'] <;> omega

/-- A character of which the code point is put together from what the bytes hold beside their
leading bits. -/
theorem exists_of_isCharacter {bytes : List UInt8} (h : IsCharacter bytes) :
    ∃ c, String.utf8EncodeChar c = bytes := by
  have hcode : ∀ n, n < 0xD800 ∨ 0xDFFF < n ∧ n < 0x110000 → (Char.ofNat n).val.toNat = n := by
    intro n hn
    rw [Char.ofNat, dif_pos hn]
    rfl
  have hbyte : ∀ (n : Nat) (b : UInt8), n = b.toNat → UInt8.ofNat n = b := by
    rintro n b rfl
    exact UInt8.ofNat_toNat
  cases h with
  | @one a first =>
    refine ⟨Char.ofNat a.toNat, ?_⟩
    simp only [String.utf8EncodeChar, hcode a.toNat (by omega)]
    rw [if_pos first, hbyte _ a rfl]
  | @two a b first second =>
    obtain ⟨hb, hb'⟩ := second
    let n := (a.toNat - 0xC0) * 64 + (b.toNat - 0x80)
    refine ⟨Char.ofNat n, ?_⟩
    simp only [String.utf8EncodeChar, hcode n (by omega)]
    rw [if_neg (by omega), if_pos (by omega), hbyte _ a (by omega), hbyte _ b (by omega)]
  | @three a b c first second third shortest not_surrogate =>
    obtain ⟨hb, hb'⟩ := second
    obtain ⟨hc, hc'⟩ := third
    let n := (a.toNat - 0xE0) * 4096 + (b.toNat - 0x80) * 64 + (c.toNat - 0x80)
    refine ⟨Char.ofNat n, ?_⟩
    simp only [String.utf8EncodeChar, hcode n (by omega)]
    rw [if_neg (by omega), if_neg (by omega), if_pos (by omega), hbyte _ a (by omega),
      hbyte _ b (by omega), hbyte _ c (by omega)]
  | @four a b c d first second third fourth shortest not_beyond =>
    obtain ⟨hb, hb'⟩ := second
    obtain ⟨hc, hc'⟩ := third
    obtain ⟨hd, hd'⟩ := fourth
    let n := (a.toNat - 0xF0) * 262144 + (b.toNat - 0x80) * 4096 + (c.toNat - 0x80) * 64 +
      (d.toNat - 0x80)
    refine ⟨Char.ofNat n, ?_⟩
    simp only [String.utf8EncodeChar, hcode n (by omega)]
    rw [if_neg (by omega), if_neg (by omega), if_neg (by omega), hbyte _ a (by omega),
      hbyte _ b (by omega), hbyte _ c (by omega), hbyte _ d (by omega)]

theorem wellFormed_utf8EncodeChar (l : List Char) :
    WellFormed (l.flatMap String.utf8EncodeChar) := by
  induction l with
  | nil => exact .nil
  | cons c l ih => exact .append (isCharacter_utf8EncodeChar c) ih

theorem WellFormed.exists_chars {bytes : List UInt8} (h : WellFormed bytes) :
    ∃ l : List Char, l.flatMap String.utf8EncodeChar = bytes := by
  induction h with
  | nil => exact ⟨[], rfl⟩
  | append h hrest ih =>
    obtain ⟨c, rfl⟩ := exists_of_isCharacter h
    obtain ⟨l, rfl⟩ := ih
    exact ⟨c :: l, rfl⟩

theorem isText_iff_wellFormed {b : ByteArray} : IsText b ↔ WellFormed b.data.toList := by
  constructor
  · intro h
    obtain ⟨l, rfl⟩ := exists_eq_utf8Encode h
    rw [List.utf8Encode, List.data_toByteArray, List.toList_toArray]
    exact wellFormed_utf8EncodeChar l
  · intro h
    obtain ⟨l, hl⟩ := h.exists_chars
    have hb : b = l.utf8Encode := by
      apply ByteArray.ext
      rw [List.utf8Encode, hl, List.data_toByteArray, Array.toArray_toList]
    rw [hb]
    exact isText_utf8Encode l

theorem isText_extract_iff {b : ByteArray} {n : Nat} :
    IsText (b.extract 0 n) ↔ WellFormed (b.data.toList.take n) := by
  rw [isText_iff_wellFormed, ByteArray.data_extract, Array.toList_extract,
    List.extract_eq_take_drop, List.drop_zero, Nat.sub_zero]

end Utf8

/-- A file in memory or on a disk is read as a text when its bytes are well formed, and then the text
has these bytes. Otherwise the failure tells where the longest well-formed beginning ends. -/
theorem readText_of_stored (path : String) (b : ByteArray) :
    (∀ inserts, LastInsert inserts path b → (FileTable.ofList inserts).reader.read path = .ok b) ∧
    (∀ d : Disk, d.content path = .ok b → d.reader.read path = .ok b) ∧
    ∀ r : FileReader, r.read path = .ok b →
      match r.readText path with
      | .ok s => Utf8.WellFormed b.data.toList ∧ Utf8.encode s = b
      | .error e => ¬ Utf8.WellFormed b.data.toList ∧
        ∃ n, e = .invalidUtf8 path n ∧ n ≤ b.size ∧ Utf8.WellFormed (b.data.toList.take n) ∧
          ∀ m, n < m → m ≤ b.size → ¬ Utf8.WellFormed (b.data.toList.take m) := by
  refine ⟨?_, fun d h => Disk.read_of_content h, ?_⟩
  · intro inserts h
    exact FileTable.read_of_find? (FileTable.find?_ofList_eq_some_iff.mpr h)
  · intro r h
    rw [FileReader.readText_of_read h]
    cases hdecode : Utf8.decode b with
    | ok s =>
      have hs := Utf8.decode_eq_ok_iff.mp hdecode
      exact ⟨Utf8.isText_iff_wellFormed.mp ⟨s, hs⟩, hs⟩
    | error n =>
      obtain ⟨hnot, hlongest⟩ := Utf8.decode_eq_error_iff.mp hdecode
      refine ⟨mt Utf8.isText_iff_wellFormed.mpr hnot, n, rfl, hlongest.le_size,
        Utf8.isText_extract_iff.mp hlongest.isText, ?_⟩
      intro m hm hsize htext
      have hle := hlongest.longest m hsize (Utf8.isText_extract_iff.mpr htext)
      omega

theorem readText_of_surrogate :
    let b := ByteArray.mk #[0xC3, 0xA9, 0xED, 0xA0, 0x80]
    let files := FileTable.ofList [("a/é", b), ("a", .empty)]
    files.reader.readText "a\\é" = .error (.invalidUtf8 "a\\é" 2) ∧
      ¬ Utf8.WellFormed b.data.toList ∧ Utf8.WellFormed [0xC3, 0xA9] ∧
      ∀ m, 2 < m → m ≤ 5 → ¬ Utf8.WellFormed (b.data.toList.take m) := by
  intro b files
  have hread : files.reader.readText "a\\é" = .error (.invalidUtf8 "a\\é" 2) := by decide +kernel
  obtain ⟨hmemory, -, hanswer⟩ := readText_of_stored "a\\é" b
  have hlast : LastInsert [("a/é", b), ("a", .empty)] "a\\é" b :=
    ⟨[], "a/é", [("a", .empty)], rfl, by decide +kernel, by decide +kernel⟩
  have hfound := hanswer files.reader (hmemory _ hlast)
  rw [hread] at hfound
  obtain ⟨hnot, n, he, -, htext, hlongest⟩ := hfound
  obtain rfl : 2 = n := by simpa using he
  exact ⟨hread, hnot, htext, hlongest⟩

end LineLexer
