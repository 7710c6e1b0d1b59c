import LineLexer.Failure
import LineLexer.Proofs.FirstHalt
import LineLexer.Proofs.ShownLines

/-! The place of an error as it is shown. The lines a scan reads and the lines that are shown are
cut differently, but they are the same up to the line of an error, so the caret stands under the
text that the error names. -/

namespace LineLexer

namespace Context

/-- Lines with their numbers, of which the first is `first`. -/
def numberedLines (width first : Nat) (lines : List (List Char)) : String :=
  String.join ((lines.zipIdx first).map fun l => numberedLine l.2 l.1 width ++ "\n")

section stretch

variable {lines before part after : List (List Char)} {line : Nat} (width column : Nat)

theorem line?_of_append {x : List Char} (h : lines = before ++ x :: after) :
    line? lines (before.length + 1) = some x := by
  rw [line?, if_neg (Nat.succ_ne_zero _), Nat.add_sub_cancel, h,
    List.getElem?_append_right (Nat.le_refl _), Nat.sub_self]
  rfl

theorem row?_of_ne {x : List Char} (h : lines = before ++ x :: after)
    (hne : before.length + 1 ≠ line) :
    row? lines width line column (before.length + 1) =
      some (numberedLine (before.length + 1) x width ++ "\n") := by
  rw [row?, line?_of_append h]
  exact if_pos hne

theorem row?_requested {x : List Char} (h : lines = before ++ x :: after) :
    row? lines width (before.length + 1) column (before.length + 1) =
      if maxSize < column - 1 then none
      else some (numberedLine (before.length + 1) x width ++ "\n" ++ marker width column) := by
  rw [row?, line?_of_append h]
  exact if_neg (not_not_intro rfl)

theorem rows?_add (number m n : Nat) :
    rows? lines width line column number (m + n) =
      (rows? lines width line column number m).bind fun above =>
        (rows? lines width line column (number + m) n).map (above ++ ·) := by
  induction m generalizing number with
  | zero => simp [rows?]
  | succ m ih =>
    have hnext : number + 1 + m = number + (m + 1) := by omega
    rw [Nat.succ_add_eq_add_succ, Nat.add_succ, rows?, rows?, ih, hnext]
    cases row? lines width line column number with
    | none => rfl
    | some row =>
      cases rows? lines width line column (number + 1) m with
      | none => rfl
      | some above =>
        cases rows? lines width line column (number + (m + 1)) n with
        | none => rfl
        | some below => simp [String.append_assoc]

/-- Lines away from the requested one are shown as they stand in the source. -/
theorem rows?_of_append (h : lines = before ++ part ++ after)
    (hne : line ≤ before.length ∨ before.length + part.length < line) :
    rows? lines width line column (before.length + 1) part.length =
      some (numberedLines width (before.length + 1) part) := by
  induction part generalizing before with
  | nil => rfl
  | cons x part ih =>
    have hx : lines = before ++ x :: (part ++ after) := by
      rw [h, List.append_assoc]
      rfl
    have hnext : lines = before ++ [x] ++ part ++ after := by
      rw [hx, List.append_assoc, List.append_assoc]
      rfl
    have hrow : before.length + 1 ≠ line := by
      rw [List.length_cons] at hne
      omega
    have hrest := ih hnext (by
      rw [List.length_append, List.length_singleton]
      rw [List.length_cons] at hne
      omega)
    rw [List.length_append, List.length_singleton] at hrest
    rw [List.length_cons, rows?, row?_of_ne width column hx hrow, hrest]
    simp [numberedLines]

end stretch

variable {source : String} {before after : List (List Char)} {shown : List Char}

/-- The lines around a line of the source are the lines above it, the line with the caret under
it, and the lines below. There is no caret that is too far to the right for a text. -/
theorem around?_eq (h : shownLines source = before ++ shown :: after) (column : Nat) :
    let line := before.length + 1
    let width := (line + min radius after.length).repr.length
    around? source line column =
      if maxSize < column - 1 then none
      else some
        (rule width ++
          (numberedLines width (before.length - radius + 1) (before.drop (before.length - radius)) ++
            (numberedLine line shown width ++ "\n" ++ marker width column) ++
            numberedLines width (line + 1) (after.take radius)) ++ rule width) := by
  intro line width
  have hlength : (shownLines source).length = before.length + 1 + after.length := by
    rw [h, List.length_append, List.length_cons]
    omega
  have hstop : min (line + radius) (shownLines source).length = line + min radius after.length := by
    omega
  have hthere : ¬ (line = 0 ∨ (shownLines source).length < line) := by
    omega
  have hskip : (before.take (before.length - radius)).length = before.length - radius := by simp
  have hstart : max 1 (line - radius) = before.length - radius + 1 := by
    omega
  have hcount : line + min radius after.length + 1 - (before.length - radius + 1) =
      (before.drop (before.length - radius)).length + (1 + (after.take radius).length) := by
    rw [List.length_drop, List.length_take]
    omega
  have hline : before.length - radius + 1 + (before.drop (before.length - radius)).length = line := by
    rw [List.length_drop]
    omega
  have habove : rows? (shownLines source) width line column (before.length - radius + 1)
      (before.drop (before.length - radius)).length =
        some (numberedLines width (before.length - radius + 1)
          (before.drop (before.length - radius))) := by
    have hsplit : shownLines source = before.take (before.length - radius) ++
        before.drop (before.length - radius) ++ shown :: after := by
      rw [List.take_append_drop, h]
    have haway : line ≤ (before.take (before.length - radius)).length ∨
        (before.take (before.length - radius)).length +
          (before.drop (before.length - radius)).length < line := by
      rw [← List.length_append, List.take_append_drop]
      omega
    have hrows := rows?_of_append width column hsplit haway
    rwa [hskip] at hrows
  have hbelow : rows? (shownLines source) width line column (line + 1) (after.take radius).length =
      some (numberedLines width (line + 1) (after.take radius)) := by
    have hsplit : shownLines source = before ++ [shown] ++ after.take radius ++
        after.drop radius := by
      rw [List.append_assoc _ _ (after.drop radius), List.take_append_drop, h, List.append_assoc]
      rfl
    have haway : line ≤ (before ++ [shown]).length ∨
        (before ++ [shown]).length + (after.take radius).length < line := by
      rw [List.length_append, List.length_singleton]
      omega
    have hrows := rows?_of_append width column hsplit haway
    rwa [List.length_append, List.length_singleton] at hrows
  have hone := row?_requested width column h
  rw [around?, if_neg hthere]
  simp only [hstop, hstart, hcount]
  rw [rows?_add, habove, hline, rows?_add, hbelow, rows?, hone]
  split
  · rfl
  · simp [rows?, String.append_assoc]
    rfl

/-- A line that is shown at all has lines before it and behind it. -/
theorem exists_shown_of_le {line : Nat} (hpos : line ≠ 0)
    (hle : line ≤ (shownLines source).length) :
    ∃ before shown after, shownLines source = before ++ shown :: after ∧
      before.length + 1 = line := by
  have hlt : line - 1 < (shownLines source).length := by omega
  obtain ⟨before, shown, after, h, hlen, -⟩ := exists_append_cons hlt
  exact ⟨before, shown, after, h, by omega⟩

theorem isSome_around? {column : Nat} (h : column - 1 ≤ maxSize) (source : String) (line : Nat) :
    (around? source line column).isSome = true := by
  by_cases hout : line = 0 ∨ (shownLines source).length < line
  · rw [around?, if_pos hout]
    rfl
  · rw [not_or, Nat.not_lt] at hout
    obtain ⟨before, shown, after, hshown, rfl⟩ := exists_shown_of_le hout.1 hout.2
    rw [around?_eq hshown, if_neg (Nat.not_lt.mpr h)]
    rfl

theorem length_alignRight {width : Nat} {s : String} (h : s.length ≤ width) :
    (alignRight width s).length = width := by
  rw [alignRight, String.length_append, String.length_ofList, List.length_replicate]
  omega

theorem length_repr_mono {m n : Nat} (h : m ≤ n) : m.repr.length ≤ n.repr.length := by
  rw [Nat.length_repr_le_iff Nat.length_repr_pos]
  exact h.trans_lt ((Nat.length_repr_le_iff Nat.length_repr_pos).mp le_rfl)

/-- The row is one line that shows `shown` behind a gutter, and the one caret of the marker stands
as far to the right as `text` does in the row, which is at this column of `shown`. -/
def PointsAt (row marker shown : List Char) (column : Nat) (text : List Char) : Prop :=
  ∃ gutter front rest lead, row = gutter ++ shown ∧ '\n' ∉ row ∧
    shown = front ++ text ++ rest ∧ front.length + 1 = column ∧
    marker = lead ++ ['^', '\n'] ∧ '^' ∉ lead ∧ '\n' ∉ lead ∧
    lead.length = gutter.length + front.length

theorem feed_not_mem_alignRight (width number : Nat) :
    '\n' ∉ (alignRight width number.repr).toList := by
  have hnumber := feed_not_mem_toDigits number
  simp [alignRight, List.mem_replicate, hnumber]

theorem feed_not_mem_numberedLine {shown : List Char} (h : '\n' ∉ shown) (number width : Nat) :
    '\n' ∉ (numberedLine number shown width).toList := by
  have hgutter := feed_not_mem_alignRight width number
  rw [numberedLine, String.toList_append, String.toList_append, List.mem_append,
    List.mem_append, String.toList_ofList, String.toList_ofList, not_or, not_or]
  exact ⟨⟨hgutter, by decide⟩, h⟩

theorem pointsAt_marker {number width : Nat} (h : number.repr.length ≤ width)
    {front text rest : List Char} (hfeed : '\n' ∉ front ++ text ++ rest) :
    PointsAt (numberedLine number (front ++ text ++ rest) width).toList
      (marker width (front.length + 1)).toList (front ++ text ++ rest) (front.length + 1) text := by
  have hwidth : (alignRight width number.repr).toList.length = width := by
    rw [String.length_toList, length_alignRight h]
  refine ⟨(alignRight width number.repr ++ " | ").toList, front, rest,
    List.replicate width ' ' ++ " | ".toList ++ List.replicate front.length ' ',
    ?_, ?_, rfl, rfl, ?_, ?_, ?_, ?_⟩
  · rw [numberedLine, String.toList_append, String.toList_ofList]
  · exact feed_not_mem_numberedLine hfeed number width
  · simp [marker]
  · simp [List.mem_replicate]
  · simp [List.mem_replicate]
  · simp only [List.length_append, List.length_replicate, String.toList_append, hwidth]

end Context

theorem Source.length_le_size {text : String} {i : Nat} {line : Line}
    (h : (ofText text).lines[i]? = some line) : line.text.length ≤ text.utf8ByteSize := by
  have hline : line.text = [] ++ line.text ++ [] := by simp
  obtain ⟨a, b, htext, -⟩ := (Of.text text).exists_append h hline
  have hlen := length_le_byteLength line.text
  rw [utf8ByteSize_eq, htext, byteLength_append, byteLength_append]
  omega

namespace Failure

variable {settings : LexerSettings} {text : String} {e : LexError}

theorem explain?_lexer (e : LexError) (text : String) :
    (lexer e).explain? (some text) =
      (Context.around? text e.position.line e.position.column).map
        ((lexer e).report ++ "\n" ++ ·) := rfl

theorem column_le_of_tokenize (h : tokenize settings text = .error (.lexer e))
    (hsize : text.utf8ByteSize ≤ maxSize) : e.position.column - 1 ≤ maxSize := by
  obtain ⟨e', hf, hfailure⟩ := exists_of_tokenize_error h
  obtain rfl : e = e' := Failure.lexer.inj hf
  obtain ⟨a, line, b, items, kind, found, rest, hlines, -, hr, -, -, rfl, -⟩ :=
    Scan.exists_halt hfailure
  have hget : (Source.ofText text).lines[a.length]? = some line := by simp [hlines]
  have hlong := Source.length_le_size hget
  have hcolumn : ((line.start a.length).after (itemsText items)).column - 1 =
      (itemsText items).length := Nat.add_sub_cancel_left ..
  rw [hr.eq_append, List.length_append, List.length_append] at hlong
  rw [hcolumn]
  omega

/-- What is printed for an error of the lexer shows the line of the error, cut as it is shown,
with a caret under the text that the error names. Only a text that no memory holds can have its
error too far to the right for that. -/
theorem explain_of_lexer (h : tokenize settings text = .error (.lexer e)) :
    ∃ before line shown after, shownLines text = before ++ shown :: after ∧
      before.length + 1 = e.position.line ∧
      (Source.ofText text).lines[before.length]? = some line ∧
      (shown = line.text ∨ shown = line.text ++ ['\r'] ∧
        e.position.line = (Source.ofText text).lineCount ∧ text.toList.getLast? ≠ some '\n') ∧
      ∃ width above below,
        let row := numberedLine e.position.line shown width
        let marker := Context.marker width e.position.column
        (lexer e).explain? (some text) =
          (if maxSize < e.position.column - 1 then none
          else some ((lexer e).report ++ "\n" ++
            (Context.rule width ++ (above ++ (row ++ "\n" ++ marker) ++ below) ++
              Context.rule width))) ∧
        above = Context.numberedLines width (before.length - Context.radius + 1)
          (before.drop (before.length - Context.radius)) ∧
        below = Context.numberedLines width (e.position.line + 1) (after.take Context.radius) ∧
        Context.PointsAt row.toList marker.toList shown e.position.column e.text.toList ∧
        e.text ≠ "" ∧
        (text.utf8ByteSize ≤ maxSize → e.position.column - 1 ≤ maxSize) := by
  obtain ⟨e', hf, hfailure⟩ := exists_of_tokenize_error h
  obtain rfl : e = e' := Failure.lexer.inj hf
  obtain ⟨a, line, b, items, kind, found, rest, hlines, -, hr, -, hhalt, he, -⟩ :=
    Scan.exists_halt hfailure
  have hget : (Source.ofText text).lines[a.length]? = some line := by simp [hlines]
  have hline : line.text = itemsText items ++ found ++ rest := by
    rw [hr.eq_append, List.append_assoc]
  have hne : line.text ≠ [] := by simp [hline, hhalt.text_ne_nil]
  obtain ⟨before, shown, after, hshown, hlen, hfeed, hsame⟩ := exists_shown hget hne
  have hplace : e.position.line = before.length + 1 := by
    rw [he, hlen]
    rfl
  have hcolumn : e.position.column = (itemsText items).length + 1 := by
    rw [he, Nat.add_comm]
    rfl
  have htext : e.text.toList = found := by rw [he, String.toList_ofList]
  have hmore : ∃ more, shown = itemsText items ++ found ++ more := by
    rcases hsame with hs | ⟨hs, -⟩
    · exact ⟨rest, by rw [hs, hline]⟩
    · exact ⟨rest ++ ['\r'], by rw [hs, hline, List.append_assoc]⟩
  obtain ⟨more, hmore⟩ := hmore
  refine ⟨before, line, shown, after, hshown, hplace.symm, by rwa [hlen], ?_,
    (before.length + 1 + min Context.radius after.length).repr.length, _, _, ?_, rfl, rfl, ?_, ?_,
    column_le_of_tokenize h⟩
  · rwa [hplace, hlen]
  · rw [explain?_lexer, hplace, Context.around?_eq hshown]
    split <;> rfl
  · have hwidth := Context.length_repr_mono
      (Nat.le_add_right (before.length + 1) (min Context.radius after.length))
    rw [hplace, hcolumn, htext, hmore]
    exact Context.pointsAt_marker hwidth (hmore ▸ hfeed)
  · intro hnil
    rw [hnil] at htext
    exact hhalt.text_ne_nil htext.symm

theorem explain_of_open_string :
    let text := "é 1\r\n€'a\r"
    let e : LexError := ⟨.unterminatedString, ⟨2, 2, 9⟩, "'a"⟩
    tokenize {} text = .error (.lexer e) ∧
      (lexer e).explain? (some text) =
        some ("UnterminatedString: unterminated string literal ''a' at line 2, column 2\n" ++
          "--|--\n1 | é 1\n2 | €'a\r\n  |  ^\n--|--\n") ∧
      ∃ before shown after, shownLines text = before ++ shown :: after ∧ before.length + 1 = 2 ∧
        ∃ width, Context.PointsAt (numberedLine 2 shown width).toList
          (Context.marker width 2).toList shown 2 "'a".toList := by
  intro text e
  have h : tokenize {} text = .error (.lexer e) := by decide +kernel
  obtain ⟨before, line, shown, after, hshown, hplace, -, -, width, above, below, -, -, -, hpoints,
    -, -⟩ := explain_of_lexer h
  exact ⟨h, by decide +kernel, before, shown, after, hshown, hplace, width, hpoints⟩

end Failure

end LineLexer
