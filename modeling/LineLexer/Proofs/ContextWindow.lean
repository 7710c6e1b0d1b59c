import LineLexer.Proofs.ListingText

/-! The window around a line. Whatever line and column are asked for, it shows the lines around the
line in order, behind their numbers, and one caret under the line. -/

namespace LineLexer

namespace Context

/-- The rows of numbered lines, of which the first is `first`. -/
def rows (width first : Nat) (lines : List (List Char)) : List (List Char) :=
  (lines.zipIdx first).map fun l => (numberedLine l.2 l.1 width).toList

def ruleRow (width : Nat) : List Char := List.replicate (width + 1) '-' ++ "|--".toList

def markerRow (width column : Nat) : List Char :=
  List.replicate width ' ' ++ " | ".toList ++ List.replicate (column - 1) ' ' ++ ['^']

theorem toList_numberedLines (width first : Nat) (lines : List (List Char)) :
    (numberedLines width first lines).toList = (rows width first lines).flatMap (· ++ ['\n']) := by
  simp [numberedLines, rows, String.toList_join, List.flatMap_map]

theorem rows_append (width first : Nat) (a b : List (List Char)) :
    rows width first (a ++ b) = rows width first a ++ rows width (first + a.length) b := by
  rw [rows, List.zipIdx_append, List.map_append]
  rfl

theorem rows_getElem? {width first index : Nat} {lines : List (List Char)} {row : List Char}
    (h : (rows width first lines)[index]? = some row) :
    ∃ text, lines[index]? = some text ∧
      row = (numberedLine (first + index) text width).toList := by
  obtain ⟨⟨text, number⟩, hl, rfl⟩ : ∃ l, (lines.zipIdx first)[index]? = some l ∧
      (numberedLine l.2 l.1 width).toList = row := by
    simpa [rows] using h
  obtain ⟨htext, rfl⟩ : lines[index]? = some text ∧ first + index = number := by
    simpa [List.getElem?_zipIdx] using hl
  exact ⟨text, htext, rfl⟩

theorem feed_not_mem_rows {width first : Nat} {lines : List (List Char)}
    (h : ∀ text ∈ lines, '\n' ∉ text) : ∀ row ∈ rows width first lines, '\n' ∉ row := by
  intro row hrow
  obtain ⟨l, hl, rfl⟩ := List.mem_map.mp hrow
  exact feed_not_mem_numberedLine (h _ (List.fst_mem_of_mem_zipIdx hl)) _ _

/-- A window onto `lines`: those around `line` stand between two rules, each behind its own number,
and right behind `line` comes the caret. -/
structure IsWindow (lines : List (List Char)) (line column : Nat)
    (above below : List (List Char)) (window : String) : Prop where
  split_eq :
    let width := (Nat.toDigits 10 (min lines.length (line + 2))).length
    window.toList.splitOn '\n' =
      ruleRow width :: above ++ markerRow width column :: below ++ [ruleRow width, []]
  length_above : max 1 (line - 2) + above.length = line + 1
  length_below : line + below.length = min lines.length (line + 2)
  isNumbered : ∀ (index : Nat) (row : List Char), (above ++ below)[index]? = some row →
    let number := max 1 (line - 2) + index
    ∃ text, lines[number - 1]? = some text ∧
      IsNumbered (Nat.toDigits 10 (min lines.length (line + 2))).length number text row

section window

variable {source : String} {before after : List (List Char)} {shown : List Char}

/-- The window around a line, if there is a text that has room for its caret. -/
theorem exists_toList_around? (h : shownLines source = before ++ shown :: after) {column : Nat}
    (hcolumn : column - 1 ≤ maxSize) :
    let line := before.length + 1
    let width := (line + min radius after.length).repr.length
    ∃ window, around? source line column = some window ∧
      window.toList =
        (ruleRow width ::
          rows width (before.length - radius + 1)
              (before.drop (before.length - radius) ++ [shown]) ++
            markerRow width column :: rows width (line + 1) (after.take radius) ++
              [ruleRow width]).flatMap (· ++ ['\n']) := by
  intro line width
  have hline : before.length - radius + 1 + (before.drop (before.length - radius)).length = line := by
    rw [List.length_drop]
    omega
  refine ⟨_, (around?_eq h column).trans (if_neg (Nat.not_lt.mpr hcolumn)), ?_⟩
  rw [rows_append, hline]
  simp [toList_numberedLines, rule, marker, ruleRow, markerRow, rows, width, line]

/-- The lines within the radius are a stretch of all lines, and the numbers go on through it. -/
theorem isNumbered_of_rows (h : shownLines source = before ++ shown :: after) {index : Nat}
    {row : List Char} {width : Nat}
    (hwidth : width = (before.length + 1 + min radius after.length).repr.length)
    (hrow : (rows width (before.length - radius + 1)
      (before.drop (before.length - radius) ++ [shown] ++ after.take radius))[index]? = some row) :
    ∃ text, (shownLines source)[before.length - radius + index]? = some text ∧
      IsNumbered width (before.length - radius + 1 + index) text row := by
  obtain ⟨text, htext, hnumbered⟩ := rows_getElem? hrow
  have hlt := (List.getElem?_eq_some_iff.mp htext).1
  have hlines : shownLines source = before.take (before.length - radius) ++
      ((before.drop (before.length - radius) ++ [shown] ++ after.take radius) ++
        after.drop radius) := by
    have hbefore := List.take_append_drop (before.length - radius) before
    have hafter := List.take_append_drop radius after
    rw [List.append_assoc _ _ (after.drop radius), hafter, List.append_assoc, ← List.append_assoc,
      hbefore, h]
    rfl
  have hskip : (before.take (before.length - radius)).length = before.length - radius := by simp
  refine ⟨text, ?_, hnumbered ▸ isNumbered_numberedLine ?_ text⟩
  · rw [hlines, List.getElem?_append_right (by omega), hskip, Nat.add_sub_cancel_left,
      List.getElem?_append_left hlt, htext]
  · rw [hwidth]
    simp only [List.length_append, List.length_drop, List.length_take, List.length_singleton] at hlt
    exact length_repr_mono (by omega)

theorem feed_not_mem_window (h : shownLines source = before ++ shown :: after)
    (column width : Nat) :
    ∀ row ∈ ruleRow width ::
      rows width (before.length - radius + 1) (before.drop (before.length - radius) ++ [shown]) ++
        markerRow width column :: rows width (before.length + 1 + 1) (after.take radius) ++
          [ruleRow width], '\n' ∉ row := by
  have hrule : '\n' ∉ ruleRow width := by simp [ruleRow, List.mem_replicate]
  have hmarker : '\n' ∉ markerRow width column := by simp [markerRow, List.mem_replicate]
  have hfeed : ∀ text ∈ before ++ shown :: after, '\n' ∉ text :=
    fun text htext => feed_not_mem_shownLines (h ▸ htext)
  rw [List.forall_mem_append, List.forall_mem_cons] at hfeed
  have habove : ∀ text ∈ before.drop (before.length - radius) ++ [shown], '\n' ∉ text := by
    rw [List.forall_mem_append, List.forall_mem_singleton]
    exact ⟨fun text htext => hfeed.1 text (List.mem_of_mem_drop htext), hfeed.2.1⟩
  have hbelow : ∀ text ∈ after.take radius, '\n' ∉ text :=
    fun text htext => hfeed.2.2 text (List.mem_of_mem_take htext)
  simp only [List.cons_append, List.forall_mem_cons, List.forall_mem_append]
  exact ⟨hrule, ⟨feed_not_mem_rows habove, hmarker, feed_not_mem_rows hbelow⟩, hrule, by simp⟩

theorem exists_isWindow (h : shownLines source = before ++ shown :: after) {column : Nat}
    (hcolumn : column - 1 ≤ maxSize) :
    ∃ window above below, around? source (before.length + 1) column = some window ∧
      IsWindow (shownLines source) (before.length + 1) column above below window := by
  have hlast : min (shownLines source).length (before.length + 1 + 2) =
      before.length + 1 + min radius after.length := by
    rw [h, List.length_append, List.length_cons, radius]
    omega
  have hfirst : max 1 (before.length + 1 - 2) = before.length - radius + 1 := by
    rw [radius]
    omega
  obtain ⟨window, haround, hwindow⟩ := exists_toList_around? h hcolumn
  obtain ⟨width, hwidth⟩ :
      ∃ width, width = (before.length + 1 + min radius after.length).repr.length := ⟨_, rfl⟩
  have hdigits := hwidth.trans (length_repr_eq _)
  simp only [← hwidth] at hwindow
  refine ⟨window,
    rows width (before.length - radius + 1) (before.drop (before.length - radius) ++ [shown]),
    rows width (before.length + 1 + 1) (after.take radius), haround, ?_, ?_, ?_, ?_⟩
  · rw [hlast, ← hdigits, hwindow, splitOn_of_rows (feed_not_mem_window h column width)]
    simp
  · rw [hfirst]
    simp [rows]
    omega
  · rw [hlast]
    simp [rows]
  · intro index row hrow number
    have hnumber : number = before.length - radius + 1 + index := by rw [← hfirst]
    have hnext : before.length + 1 + 1 = before.length - radius + 1 +
        (before.drop (before.length - radius) ++ [shown]).length := by
      rw [List.length_append, List.length_drop, List.length_singleton]
      omega
    -- the numbers below go on behind those above, so both are the rows of one stretch of lines
    rw [hnext, ← rows_append] at hrow
    obtain ⟨text, htext, hnumbered⟩ := isNumbered_of_rows h hwidth hrow
    refine ⟨text, ?_, ?_⟩
    · rw [hnumber, ← htext]
      congr 1
      omega
    · rw [hlast, ← hdigits, hnumber]
      exact hnumbered

end window

theorem isSome_line? {lines : List (List Char)} {number : Nat} (hfirst : 1 ≤ number)
    (hlast : number ≤ lines.length) : (line? lines number).isSome = true := by
  have hlt : number - 1 < lines.length := by omega
  rw [line?, if_neg (Nat.ne_of_gt hfirst), List.getElem?_eq_getElem hlt]
  rfl

/-- What is printed for any line and any column. Every number of the window is that of a line, so
only a caret that no text can reach is not printed. -/
theorem around?_of_request (source : String) (line column : Nat) :
    (∀ number, max 1 (line - radius) ≤ number →
        number ≤ min (line + radius) (shownLines source).length →
        (line? (shownLines source) number).isSome = true) ∧
      if line = 0 ∨ (shownLines source).length < line then
        around? source line column = some ""
      else if maxSize < column - 1 then around? source line column = none
      else
        ∃ window above below, around? source line column = some window ∧ window ≠ "" ∧
          IsWindow (shownLines source) line column above below window := by
  refine ⟨fun number hfirst hlast => isSome_line? (by omega) (by omega), ?_⟩
  split_ifs with hout hfar
  · rw [around?, if_pos hout]
  · rw [not_or, Nat.not_lt] at hout
    obtain ⟨before, shown, after, h, rfl⟩ := exists_shown_of_le hout.1 hout.2
    rw [around?_eq h, if_pos hfar]
  · rw [not_or, Nat.not_lt] at hout
    obtain ⟨before, shown, after, h, rfl⟩ := exists_shown_of_le hout.1 hout.2
    obtain ⟨window, above, below, haround, hwindow⟩ := exists_isWindow h (Nat.not_lt.mp hfar)
    refine ⟨window, above, below, haround, ?_, hwindow⟩
    intro hempty
    have hsplit := hwindow.split_eq
    rw [hempty] at hsplit
    simp at hsplit

theorem around?_of_far_caret :
    (shownLines "1").length = 1 ∧ around? "1" 1 18446744073709551615 = none := by
  decide +kernel

end Context

end LineLexer
