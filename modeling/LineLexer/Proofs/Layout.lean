import LineLexer.Source
import LineLexer.Text.Utf8
import Mathlib.Data.List.Basic

/-! Lines within the whole text. The offset of a line counts the bytes before it, so a stretch of
a line stands in the whole text exactly where its offset and its place on the line say. -/

namespace LineLexer

theorem size_utf8Encode (s : List Char) : s.utf8Encode.size = byteLength s := by
  induction s with
  | nil => rfl
  | cons c s ih =>
    rw [List.utf8Encode_cons, ByteArray.size_append, ih, byteLength_cons]
    simp [List.utf8Encode_singleton]

theorem extract_utf8Encode (a w b : List Char) :
    (a ++ w ++ b).utf8Encode.extract (byteLength a) (byteLength a + byteLength w) =
      w.utf8Encode := by
  have hfront := @ByteArray.extract_append_size_add a.utf8Encode (w.utf8Encode ++ b.utf8Encode)
    0 (byteLength w)
  have hback := @ByteArray.extract_append_eq_left w.utf8Encode b.utf8Encode (byteLength w)
    (size_utf8Encode w).symm
  rw [Nat.add_zero, hback, size_utf8Encode] at hfront
  rw [List.append_assoc, List.utf8Encode_append, List.utf8Encode_append]
  exact hfront

theorem encode_eq (s : String) : Utf8.encode s = s.toList.utf8Encode := by
  rw [String.utf8Encode_toList]
  rfl

theorem utf8ByteSize_eq (s : String) : s.utf8ByteSize = byteLength s.toList := by
  rw [← size_utf8Encode, ← encode_eq]
  rfl

/-- The bytes of whole lines, each with its line feed. -/
def linesLength (lines : List (List Char)) : Nat := lines.foldr (byteLength · + 1 + ·) 0

@[simp]
theorem linesLength_nil : linesLength [] = 0 := rfl

@[simp]
theorem linesLength_cons (s : List Char) (lines : List (List Char)) :
    linesLength (s :: lines) = byteLength s + 1 + linesLength lines := rfl

@[simp]
theorem linesLength_append (a b : List (List Char)) :
    linesLength (a ++ b) = linesLength a + linesLength b := by
  induction a with
  | nil => simp
  | cons s a ih => simp [ih, Nat.add_assoc]

namespace Source

theorem layout_append (trim : List Char → List Char) (offset : Nat) (a b : List (List Char)) :
    layout trim offset (a ++ b) =
      layout trim offset a ++ layout trim (offset + linesLength a) b := by
  induction a generalizing offset with
  | nil => rfl
  | cons s a ih =>
    have he : offset + byteLength s + 1 + linesLength a = offset + linesLength (s :: a) := by
      rw [linesLength_cons]
      omega
    rw [List.cons_append, layout, layout, ih, he, List.cons_append]

theorem map_text_layout (trim : List Char → List Char) (offset : Nat)
    (pieces : List (List Char)) : (layout trim offset pieces).map Line.text = pieces.map trim := by
  induction pieces generalizing offset with
  | nil => rfl
  | cons s pieces ih => rw [layout, List.map_cons, List.map_cons, ih]

theorem layout_getElem? {trim : List Char → List Char} {offset i : Nat} {line : Line}
    {pieces : List (List Char)} (h : (layout trim offset pieces)[i]? = some line) :
    ∃ a s b, pieces = a ++ s :: b ∧ a.length = i ∧
      line = ⟨trim s, offset + linesLength a⟩ := by
  induction pieces generalizing offset i with
  | nil => simp [layout] at h
  | cons s pieces ih =>
    cases i with
    | zero =>
      refine ⟨[], s, pieces, rfl, rfl, ?_⟩
      simpa [layout] using h.symm
    | succ i =>
      obtain ⟨a, t, b, rfl, rfl, hl⟩ := ih (by simpa [layout] using h)
      refine ⟨s :: a, t, b, rfl, rfl, ?_⟩
      rw [hl, linesLength_cons]
      simp only [Line.mk.injEq, true_and]
      omega

end Source

theorem intercalate_append_cons (c : Char) (a : List (List Char)) (s : List Char)
    (b : List (List Char)) :
    [c].intercalate (a ++ s :: b) = a.flatMap (· ++ [c]) ++ [c].intercalate (s :: b) := by
  induction a with
  | nil => rfl
  | cons t a ih =>
    rw [List.cons_append, List.intercalate_cons_of_ne_nil (by simp), ih, List.flatMap_cons]
    simp

theorem intercalate_cons_eq (c : Char) (s : List Char) (b : List (List Char)) :
    ∃ more, [c].intercalate (s :: b) = s ++ more := by
  cases b with
  | nil => exact ⟨[], by simp⟩
  | cons t b => exact ⟨_, by rw [List.intercalate_cons_cons, List.append_assoc]⟩

theorem not_mem_of_mem_splitOn {c : Char} {s piece : List Char} (h : piece ∈ s.splitOn c) :
    c ∉ piece := by
  induction s generalizing piece with
  | nil => simp_all [List.splitOn_nil]
  | cons d s ih =>
    rw [List.splitOn_cons_eq_if_modifyHead] at h
    by_cases hd : (d == c) = true
    · rw [if_pos hd] at h
      rcases List.mem_cons.mp h with rfl | h
      · simp
      · exact ih h
    · rw [if_neg hd] at h
      obtain ⟨first, more, hs⟩ := List.exists_cons_of_ne_nil (List.splitOn_ne_nil c s)
      rw [hs, List.modifyHead_cons] at h
      rcases List.mem_cons.mp h with rfl | h
      · have hfirst := ih (hs ▸ List.mem_cons_self)
        rw [List.mem_cons, not_or]
        exact ⟨fun he => hd (by simp [he]), hfirst⟩
      · exact ih (hs ▸ List.mem_cons_of_mem _ h)

theorem length_splitOn (c : Char) (s : List Char) : (s.splitOn c).length = s.count c + 1 := by
  induction s with
  | nil => simp [List.splitOn_nil]
  | cons x s ih =>
    rw [List.splitOn_cons_eq_if_modifyHead, List.count_cons]
    by_cases hx : (x == c) = true
    · simp [hx, ih]
    · simp [hx, ih]

theorem feed_not_mem_toDigits (n : Nat) : '\n' ∉ Nat.toDigits 10 n :=
  fun h => absurd (Nat.isDigit_of_mem_toDigits (by decide) (by decide) h) (by decide)

/-- A text that is cut off within a piece has the pieces before it and what is left of it. -/
theorem splitOn_cut {c : Char} {s piece before after : List Char} {a b : List (List Char)}
    (h : s.splitOn c = a ++ piece :: b) (hp : piece = before ++ after) :
    (a.flatMap (· ++ [c]) ++ before).splitOn c = a ++ [before] ∧
      ∃ more, s = a.flatMap (· ++ [c]) ++ before ++ more := by
  have hmem : ∀ l ∈ a ++ piece :: b, c ∉ l := fun l hl => not_mem_of_mem_splitOn (h ▸ hl)
  constructor
  · have hjoin : [c].intercalate (a ++ [before]) = a.flatMap (· ++ [c]) ++ before := by
      rw [intercalate_append_cons, List.intercalate_singleton]
    rw [← hjoin]
    refine List.splitOn_intercalate c ?_ (by simp)
    intro l hl
    rcases List.mem_append.mp hl with hl | hl
    · exact hmem l (List.mem_append_left _ hl)
    · obtain rfl := List.mem_singleton.mp hl
      have hpiece := hmem piece (by simp)
      rw [hp, List.mem_append, not_or] at hpiece
      exact hpiece.1
  · obtain ⟨more, hmore⟩ := intercalate_cons_eq c piece b
    refine ⟨after ++ more, ?_⟩
    have hs : s = [c].intercalate (a ++ piece :: b) := by
      rw [← h, List.intercalate_splitOn]
    rw [hs, intercalate_append_cons, hmore, hp]
    simp only [List.append_assoc]

theorem byteLength_flatMap_feed (a : List (List Char)) :
    byteLength (a.flatMap (· ++ ['\n'])) = linesLength a := by
  induction a with
  | nil => rfl
  | cons s a ih =>
    rw [List.flatMap_cons, byteLength_append, ih, linesLength_cons, byteLength_append]
    rfl

theorem eq_dropReturn_or (s : List Char) : s = dropReturn s ∨ s = dropReturn s ++ ['\r'] := by
  by_cases h : s.getLast? = some '\r'
  · refine .inr ?_
    rw [dropReturn, if_pos h]
    exact (List.dropLast_append_getLast? '\r' h).symm
  · refine .inl ?_
    rw [dropReturn, if_neg h]

theorem dropReturn_append (s : List Char) : ∃ ending, s = dropReturn s ++ ending := by
  rcases eq_dropReturn_or s with h | h
  · exact ⟨[], by rwa [List.append_nil]⟩
  · exact ⟨_, h⟩

theorem Source.feed_not_mem_text {text : String} {l : Line} (h : l ∈ (ofText text).lines) :
    '\n' ∉ l.text := by
  obtain ⟨i, hi⟩ := List.getElem?_of_mem h
  obtain ⟨a, s, b, hsplit, -, rfl⟩ := layout_getElem? hi
  obtain ⟨ending, hending⟩ := dropReturn_append s
  have hs : '\n' ∉ s := not_mem_of_mem_splitOn (s := text.toList) (by simp [hsplit])
  exact fun hm => hs (hending ▸ List.mem_append_left _ hm)

/-- The sources that can be made, each with the whole text in which its offsets count. -/
inductive Source.Of : Source → String → Prop where
  | text (t : String) : Of (.ofText t) t
  | lines (ls : List String) : Of (.ofLines ls) ("\n".intercalate ls)

namespace Source.Of

theorem exists_layout {source : Source} {whole : String} (h : Of source whole) :
    ∃ trim pieces, (∀ s, ∃ ending, s = trim s ++ ending) ∧
      source.lines = layout trim 0 pieces ∧ whole.toList = ['\n'].intercalate pieces := by
  cases h with
  | text t => exact ⟨dropReturn, _, dropReturn_append, rfl, (List.intercalate_splitOn '\n').symm⟩
  | lines ls =>
    refine ⟨id, ls.map String.toList, fun s => ⟨[], by simp⟩, rfl, ?_⟩
    rw [String.toList_intercalate]
    rfl

/-- Where a stretch of a line stands in the whole text. -/
theorem exists_append {source : Source} {whole : String} (h : Of source whole) {i : Nat}
    {line : Line} (hl : source.lines[i]? = some line) {before w after : List Char}
    (ht : line.text = before ++ w ++ after) :
    ∃ a b, whole.toList = a ++ w ++ b ∧ byteLength a = line.offset + byteLength before := by
  obtain ⟨trim, pieces, htrim, hlines, hwhole⟩ := h.exists_layout
  rw [hlines] at hl
  obtain ⟨p, s, q, rfl, -, rfl⟩ := layout_getElem? hl
  obtain ⟨ending, hs⟩ := htrim s
  obtain ⟨more, hmore⟩ := intercalate_cons_eq '\n' s q
  refine ⟨p.flatMap (· ++ ['\n']) ++ before, after ++ ending ++ more, ?_, ?_⟩
  · rw [hwhole, intercalate_append_cons, hmore, hs, show trim s = before ++ w ++ after from ht]
    simp only [List.append_assoc]
  · rw [byteLength_append, byteLength_flatMap_feed, Nat.zero_add]

theorem extract_encode {source : Source} {whole : String} (h : Of source whole) {i : Nat}
    {line : Line} (hl : source.lines[i]? = some line) {before w after : List Char}
    (ht : line.text = before ++ w ++ after) :
    (Utf8.encode whole).extract (line.offset + byteLength before)
      (line.offset + byteLength before + byteLength w) = w.utf8Encode := by
  obtain ⟨a, b, hwhole, ha⟩ := h.exists_append hl ht
  rw [encode_eq, hwhole, ← ha, extract_utf8Encode]

end Source.Of

end LineLexer
