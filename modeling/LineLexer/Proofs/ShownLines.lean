import LineLexer.Proofs.Layout
import LineLexer.Text.Lines

/-! The lines that are shown against those that are scanned. Both are cut at the line feeds; the
shown ones leave out what is empty behind the last line feed, and keep a carriage return there. -/

namespace LineLexer

variable {text : String} {init : List (List Char)} {last : List Char}

theorem shownLines_of_splitOn (h : text.toList.splitOn '\n' = init ++ [last]) :
    shownLines text = init.map dropReturn ++ if last = [] then [] else [last] := by
  simp only [shownLines, h, List.dropLast_concat, List.getLast?_concat]
  cases last <;> simp

theorem toList_of_splitOn (h : text.toList.splitOn '\n' = init ++ [last]) :
    text.toList = init.flatMap (· ++ ['\n']) ++ last := by
  have hjoin : ['\n'].intercalate (text.toList.splitOn '\n') = text.toList :=
    List.intercalate_splitOn '\n'
  rw [← hjoin, h, intercalate_append_cons, List.intercalate_singleton]

theorem getLast?_ne_feed (h : text.toList.splitOn '\n' = init ++ [last]) (hne : last ≠ []) :
    text.toList.getLast? ≠ some '\n' := by
  have hmem : last ∈ text.toList.splitOn '\n' := by simp [h]
  have hfeed : '\n' ∉ last := not_mem_of_mem_splitOn hmem
  rw [toList_of_splitOn h, List.getLast?_append_of_ne_nil _ hne]
  exact fun hlast => hfeed (List.mem_of_getLast? hlast)

theorem exists_splitOn (text : String) :
    ∃ (init : List (List Char)) (last : List Char), text.toList.splitOn '\n' = init ++ [last] := by
  rcases List.eq_nil_or_concat (text.toList.splitOn '\n') with h | ⟨init, last, h⟩
  · exact absurd h (List.splitOn_ne_nil '\n' _)
  · exact ⟨init, last, by rw [h, List.concat_eq_append]⟩

/-- Nothing is left behind the last line feed of a text that ends with it. -/
theorem last_eq_nil_iff (h : text.toList.splitOn '\n' = init ++ [last]) :
    last = [] ↔ text = "" ∨ text.toList.getLast? = some '\n' := by
  have htext := toList_of_splitOn h
  constructor
  · rintro rfl
    rcases List.eq_nil_or_concat init with rfl | ⟨init, piece, rfl⟩
    · exact .inl (String.toList_eq_nil_iff.mp htext)
    · refine .inr ?_
      rw [htext]
      simp
  · rintro (rfl | hfeed)
    · exact (List.append_eq_nil_iff.mp htext.symm).2
    · by_contra hne
      exact getLast?_ne_feed h hne hfeed

theorem getLast?_eq_return_iff (h : text.toList.splitOn '\n' = init ++ [last]) :
    text.toList.getLast? = some '\r' ↔ last.getLast? = some '\r' := by
  have htext := toList_of_splitOn h
  by_cases hlast : last = []
  · subst hlast
    have hend := (last_eq_nil_iff h).mp rfl
    rcases hend with rfl | hfeed
    · simp
    · simp [hfeed]
  · rw [htext, List.getLast?_append_of_ne_nil _ hlast]

/-- What the listing shows of the line with this index: the line as it is scanned, and the carriage
return that ends the text. -/
def shownText (text : String) (index : Nat) (line : Line) : List Char :=
  line.text ++ if index + 1 = (Source.ofText text).lineCount ∧ text.toList.getLast? = some '\r'
    then ['\r'] else []

theorem lineCount_of_splitOn (h : text.toList.splitOn '\n' = init ++ [last]) :
    (Source.ofText text).lineCount = init.length + 1 := by
  rw [Source.lineCount, Source.ofText, Source.length_layout, h, List.length_append,
    List.length_singleton]

theorem exists_line_of_piece {index : Nat} {piece : List Char}
    (h : (text.toList.splitOn '\n')[index]? = some piece) :
    ∃ line, (Source.ofText text).lines[index]? = some line ∧ line.text = dropReturn piece := by
  have htexts : (Source.ofText text).lines.map Line.text =
      (text.toList.splitOn '\n').map dropReturn := Source.map_text_layout ..
  have hget := congrArg (·[index]?) htexts
  simpa only [List.getElem?_map, h, Option.map_some, Option.map_eq_some_iff] using hget

theorem length_shownLines (text : String) :
    (shownLines text).length =
      if text = "" ∨ text.toList.getLast? = some '\n' then (Source.ofText text).lineCount - 1
      else (Source.ofText text).lineCount := by
  obtain ⟨init, last, h⟩ := exists_splitOn text
  rw [shownLines_of_splitOn h, lineCount_of_splitOn h]
  split_ifs with hlast hend hend
  · simp
  · exact absurd ((last_eq_nil_iff h).mp hlast) hend
  · exact absurd ((last_eq_nil_iff h).mpr hend) hlast
  · simp

/-- A shown line is a piece that ended with a line feed, or what is left behind the last one. -/
theorem of_getElem?_shownLines (h : text.toList.splitOn '\n' = init ++ [last]) {index : Nat}
    {shown : List Char} (hs : (shownLines text)[index]? = some shown) :
    (∃ piece, init[index]? = some piece ∧ shown = dropReturn piece) ∨
      index = init.length ∧ shown = last := by
  rw [shownLines_of_splitOn h] at hs
  by_cases hi : index < init.length
  · refine .inl ?_
    rw [List.getElem?_append_left (by rwa [List.length_map]), List.getElem?_map,
      Option.map_eq_some_iff] at hs
    obtain ⟨piece, hpiece, hshown⟩ := hs
    exact ⟨piece, hpiece, hshown.symm⟩
  · refine .inr ?_
    rw [List.getElem?_append_right (by rw [List.length_map]; omega), List.length_map] at hs
    split_ifs at hs
    · simp at hs
    · have hlt := (List.getElem?_eq_some_iff.mp hs).1
      obtain rfl : index = init.length := by
        rw [List.length_singleton] at hlt
        omega
      rw [Nat.sub_self] at hs
      exact ⟨rfl, (Option.some.inj hs).symm⟩

theorem exists_shownText {index : Nat} {shown : List Char}
    (hs : (shownLines text)[index]? = some shown) :
    ∃ line, (Source.ofText text).lines[index]? = some line ∧
      shown = shownText text index line := by
  obtain ⟨init, last, h⟩ := exists_splitOn text
  have hcount := lineCount_of_splitOn h
  rcases of_getElem?_shownLines h hs with ⟨piece, hpiece, rfl⟩ | ⟨rfl, rfl⟩
  · have hi := (List.getElem?_eq_some_iff.mp hpiece).1
    obtain ⟨line, hget, htext⟩ :=
      exists_line_of_piece (by rw [h, List.getElem?_append_left hi, hpiece])
    refine ⟨line, hget, ?_⟩
    rw [shownText, hcount, if_neg (by omega), List.append_nil, htext]
  · obtain ⟨line, hget, htext⟩ := exists_line_of_piece (by rw [h, List.getElem?_concat_length])
    refine ⟨line, hget, ?_⟩
    have hend := getLast?_eq_return_iff h
    rw [shownText, hcount, htext, dropReturn]
    by_cases hreturn : shown.getLast? = some '\r'
    · simp [hend, hreturn, List.dropLast_append_getLast? '\r' hreturn]
    · simp [hend, hreturn]

theorem feed_not_mem_shownLines {shown : List Char} (hs : shown ∈ shownLines text) :
    '\n' ∉ shown := by
  obtain ⟨index, hindex⟩ := List.getElem?_of_mem hs
  obtain ⟨line, hline, rfl⟩ := exists_shownText hindex
  have hfeed := Source.feed_not_mem_text (List.mem_of_getElem? hline)
  unfold shownText
  split_ifs <;> simp [hfeed]

theorem exists_append_cons {α : Type} {l : List α} {index : Nat} (h : index < l.length) :
    ∃ before x after, l = before ++ x :: after ∧ before.length = index ∧ l[index]? = some x := by
  refine ⟨l.take index, l[index], l.drop (index + 1), ?_, ?_, List.getElem?_eq_getElem h⟩
  · rw [← List.drop_eq_getElem_cons h, List.take_append_drop]
  · rw [List.length_take]
    omega

theorem lt_length_shownLines {line : Line} {index : Nat}
    (h : (Source.ofText text).lines[index]? = some line) (hne : line.text ≠ []) :
    index < (shownLines text).length := by
  obtain ⟨a, s, b, hsplit, rfl, rfl⟩ := Source.layout_getElem? h
  rcases List.eq_nil_or_concat b with rfl | ⟨b, last, rfl⟩
  · have hs : s ≠ [] := by
      rintro rfl
      exact hne rfl
    rw [shownLines_of_splitOn hsplit, if_neg hs]
    simp
  · have hinit : text.toList.splitOn '\n' = (a ++ s :: b) ++ [last] := by simpa using hsplit
    rw [shownLines_of_splitOn hinit]
    simp

/-- A line of a source that is not empty is shown under its own number. -/
theorem exists_shown {line : Line} {index : Nat}
    (h : (Source.ofText text).lines[index]? = some line) (hne : line.text ≠ []) :
    ∃ before shown after, shownLines text = before ++ shown :: after ∧ before.length = index ∧
      '\n' ∉ shown ∧
      (shown = line.text ∨ shown = line.text ++ ['\r'] ∧
        index + 1 = (Source.ofText text).lineCount ∧ text.toList.getLast? ≠ some '\n') := by
  obtain ⟨before, shown, after, hlines, hlen, hshown⟩ :=
    exists_append_cons (lt_length_shownLines h hne)
  refine ⟨before, shown, after, hlines, hlen,
    feed_not_mem_shownLines (List.mem_of_getElem? hshown), ?_⟩
  obtain ⟨line', hline, hs⟩ := exists_shownText hshown
  obtain rfl : line = line' := Option.some.inj (h.symm.trans hline)
  rw [hs, shownText]
  split_ifs with hend
  · exact .inr ⟨rfl, hend.1, by simp [hend.2]⟩
  · exact .inl (List.append_nil _)

end LineLexer
