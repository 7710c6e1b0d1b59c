import LineLexer.Proofs.Caret

/-! The listing of a source. It shows the lines that are scanned, each behind its number, and the
bars behind the numbers stand in one column. -/

namespace LineLexer

/-- `row` is `text` behind a bar and this number, which ends where its column of this width ends. -/
structure IsNumbered (width number : Nat) (text row : List Char) : Prop where
  fits : (Nat.toDigits 10 number).length ≤ width
  row_eq : row = List.replicate (width - (Nat.toDigits 10 number).length) ' ' ++
    Nat.toDigits 10 number ++ " | ".toList ++ text
  drop_eq : row.drop width = " | ".toList ++ text

theorem length_repr_eq (n : Nat) : n.repr.length = (Nat.toDigits 10 n).length := by
  rw [← String.length_toList, Nat.toList_repr]

theorem isNumbered_numberedLine {width number : Nat} (h : number.repr.length ≤ width)
    (text : List Char) : IsNumbered width number text (numberedLine number text width).toList := by
  have hdigits := length_repr_eq number
  have hrow : (numberedLine number text width).toList =
      List.replicate (width - (Nat.toDigits 10 number).length) ' ' ++ Nat.toDigits 10 number ++
        " | ".toList ++ text := by
    simp [numberedLine, alignRight, hdigits]
  refine ⟨hdigits ▸ h, hrow, ?_⟩
  rw [hrow, List.append_assoc, List.drop_left']
  rw [List.length_append, List.length_replicate]
  omega

/-- What stands behind the bar of a numbered line. -/
def behindBar (row : List Char) : List Char := (row.dropWhile (· != '|')).drop 2

theorem IsNumbered.behindBar_eq {width number : Nat} {text row : List Char}
    (h : IsNumbered width number text row) : behindBar row = text := by
  have hlead : ∀ c ∈ List.replicate (width - (Nat.toDigits 10 number).length) ' ' ++
      Nat.toDigits 10 number ++ [' '], (c != '|') = true := by
    intro c hc
    rw [bne_iff_ne]
    rintro rfl
    have hbar : '|' ∈ Nat.toDigits 10 number := by simpa [List.mem_replicate] using hc
    exact absurd (Nat.isDigit_of_mem_toDigits (by decide) (by decide) hbar) (by decide)
  have hs := @takeWhile_append_of_head (· != '|') _ ('|' :: ' ' :: text) hlead (by simp)
  have hrow : row = List.replicate (width - (Nat.toDigits 10 number).length) ' ' ++
      Nat.toDigits 10 number ++ [' '] ++ '|' :: ' ' :: text := by
    rw [h.row_eq]
    simp
  rw [behindBar, hrow, hs.2]
  rfl

/-- The lines that a listing shows: what stands between its first line and its last one, without
the numbers. -/
def listedLines (listing : String) : List (List Char) :=
  ((listing.toList.splitOn '\n').drop 1).dropLast.dropLast.map behindBar

theorem splitOn_of_rows {rows : List (List Char)} (h : ∀ row ∈ rows, '\n' ∉ row) :
    (rows.flatMap (· ++ ['\n'])).splitOn '\n' = rows ++ [[]] := by
  have hjoin : ['\n'].intercalate (rows ++ [[]]) = rows.flatMap (· ++ ['\n']) := by
    rw [intercalate_append_cons, List.intercalate_singleton, List.append_nil]
  rw [← hjoin]
  refine List.splitOn_intercalate '\n' ?_ (by simp)
  simpa [or_imp, forall_and] using h

theorem length_shownLines_le (source : String) :
    (shownLines source).length ≤ source.utf8ByteSize + 1 := by
  have hcount : (Source.ofText source).lineCount = source.toList.count '\n' + 1 := by
    rw [Source.lineCount, Source.ofText, Source.length_layout, length_splitOn]
  have hfeeds := List.count_le_length (a := '\n') (l := source.toList)
  have hbytes := length_le_byteLength source.toList
  rw [utf8ByteSize_eq, length_shownLines]
  split <;> omega

/-- No text that is held in memory has so many lines that their numbers could not be written as wide
as its listing and the windows onto it ask for. -/
theorem numberedLine?_of_text {source : String} (h : source.utf8ByteSize ≤ maxSize) (number : Nat)
    (text : List Char) :
    numberedLine? number text (listingWidth source) =
        some (numberedLine number text (listingWidth source)) ∧
      ∀ stop ≤ (shownLines source).length,
        numberedLine? number text stop.repr.length =
          some (numberedLine number text stop.repr.length) := by
  have hlines := length_shownLines_le source
  have hdigits : ∀ n ≤ maxSize + 1, n.repr.length ≤ 20 := by
    intro n hn
    have hmax : maxSize + 1 < 10 ^ 20 := by decide
    rw [Nat.length_repr_le_iff (by decide)]
    omega
  constructor
  · have hwidth := hdigits (max 1 (shownLines source).length) (by omega)
    refine if_pos ?_
    rw [listingWidth, maxWidth]
    omega
  · intro stop hstop
    have hwidth := hdigits stop (by omega)
    refine if_pos ?_
    rw [maxWidth]
    omega

/-- A listing shows the lines that are scanned, but not the empty one behind a last line feed. -/
theorem listing_shows_lines (text : String) :
    ∃ (width : Nat) (rows : List (List Char)), 3 ≤ width ∧
      rows.length = (if text = "" ∨ text.toList.getLast? = some '\n' then
        (Source.ofText text).lineCount - 1 else (Source.ofText text).lineCount) ∧
      (listing text).toList.splitOn '\n' =
        "[Source]".toList :: rows ++ ["[Tokens]".toList, []] ∧
      (listedLines (listing text)).length = rows.length ∧
      ∀ (index : Nat) (row : List Char), rows[index]? = some row →
        ∃ line, (Source.ofText text).lines[index]? = some line ∧
          IsNumbered width (index + 1) (shownText text index line) row ∧
          (listedLines (listing text))[index]? = some (shownText text index line) := by
  obtain ⟨width, hwidth⟩ : ∃ width, width = listingWidth text := ⟨_, rfl⟩
  let rows := (shownLines text).zipIdx.map fun l => (numberedLine (l.2 + 1) l.1 width).toList
  have hlength : rows.length = (shownLines text).length := by simp [rows]
  have hlisting : (listing text).toList =
      ("[Source]".toList :: rows ++ ["[Tokens]".toList]).flatMap (· ++ ['\n']) := by
    rw [listing]
    simp only [← hwidth, String.toList_append, String.toList_join]
    simp [rows, List.flatMap_map]
  have hfeed : ∀ row ∈ "[Source]".toList :: rows ++ ["[Tokens]".toList], '\n' ∉ row := by
    have hrows : ∀ row ∈ rows, '\n' ∉ row := by
      intro row hrow
      obtain ⟨l, hl, rfl⟩ := List.mem_map.mp hrow
      exact Context.feed_not_mem_numberedLine
        (feed_not_mem_shownLines (List.fst_mem_of_mem_zipIdx hl)) _ _
    simp only [List.cons_append, List.forall_mem_cons, List.forall_mem_append]
    exact ⟨by decide, hrows, by decide⟩
  have hsplit : (listing text).toList.splitOn '\n' =
      "[Source]".toList :: rows ++ ["[Tokens]".toList, []] := by
    rw [hlisting, splitOn_of_rows hfeed, List.append_assoc]
    rfl
  have hlisted : listedLines (listing text) = rows.map behindBar := by
    have hends : "[Source]".toList :: rows ++ ["[Tokens]".toList, []] =
        "[Source]".toList :: rows ++ ["[Tokens]".toList] ++ [[]] := by simp
    rw [listedLines, hsplit, hends, List.cons_append, List.cons_append, List.drop_one,
      List.tail_cons, List.dropLast_concat, List.dropLast_concat]
  refine ⟨width, rows, hwidth ▸ le_max_left _ _, by rw [hlength, length_shownLines], hsplit, ?_, ?_⟩
  · rw [hlisted, List.length_map]
  · intro index row hrow
    obtain ⟨⟨shown, number⟩, hnumber, rfl⟩ :
        ∃ l, (shownLines text).zipIdx[index]? = some l ∧
          (numberedLine (l.2 + 1) l.1 width).toList = row := by
      simpa [rows] using hrow
    obtain ⟨hshown, rfl⟩ : (shownLines text)[index]? = some shown ∧ index = number := by
      simpa [List.getElem?_zipIdx] using hnumber
    obtain ⟨line, hline, rfl⟩ := exists_shownText hshown
    have hfits : (index + 1).repr.length ≤ width := by
      have hlt := (List.getElem?_eq_some_iff.mp hshown).1
      have hmono := Context.length_repr_mono (show index + 1 ≤ max 1 (shownLines text).length by omega)
      rw [hwidth, listingWidth]
      omega
    have hnumbered := isNumbered_numberedLine hfits (shownText text index line)
    refine ⟨line, hline, hnumbered, ?_⟩
    rw [hlisted, List.getElem?_map, hrow, Option.map_some, hnumbered.behindBar_eq]

example : listedLines (listing "a | b\r\n\nc\r") = ["a | b".toList, [], "c\r".toList] := by
  decide +kernel

end LineLexer
