import LineLexer.Proofs.Emission
import LineLexer.Proofs.Ending
import LineLexer.Proofs.Halt
import LineLexer.Proofs.Layout

/-! Soundness of a failed scan. The failure stands at its place in the source and shows what
halts the scan there, and the text cut off at that place is scanned to its end. -/

namespace LineLexer

theorem Halt.ne_internal {policy : Policy} {kind : LexErrorKind} {text rest : List Char}
    (h : Halt policy kind text rest) : kind ≠ .internal := by
  cases h with
  | fault h => cases h <;> simp
  | stray => simp

namespace Scan

/-- The place on its line where a failed scan halts, and what it has found before. -/
theorem exists_halt {settings : LexerSettings} {lines : List Line} {e : LexError}
    (h : firstFailure (ofLines settings 0 lines) = some e) :
    ∃ a line b items kind text rest, lines = a ++ line :: b ∧
      firstFailure (ofLines settings 0 a) = none ∧ Reads line.text items (text ++ rest) ∧
      settings.unrecognized.Admits items ∧ Halt settings.unrecognized kind text rest ∧
      e = ⟨kind, (line.start a.length).after (itemsText items), String.ofList text⟩ ∧
      (ofLines settings 0 lines).flatMap LineScan.strays =
        (ofLines settings 0 a).flatMap LineScan.strays ++
          itemsStrays (line.start a.length) items := by
  obtain ⟨a, line, b, hlines, ha, hline, hscan⟩ := ofLines_of_failure h
  rw [Nat.zero_add] at hline hscan
  obtain ⟨items, kind, text, rest, hr, hadmits, hhalt, he⟩ := LineScan.reads_of_failure hline
  refine ⟨a, line, b, items, kind, text, rest, hlines, ha, hr, hadmits, hhalt, he, ?_⟩
  rw [hscan, List.flatMap_append, List.flatMap_singleton, LineScan.ofLine,
    LineScan.under_eq_of_halt hr hadmits hhalt, strays_found]

theorem ofLines_append_reads {settings : LexerSettings} {a : List Line} {line : Line}
    {items : List Item} {trim : List Char → List Char} (htrim : Unnoticed trim)
    (ha : firstFailure (ofLines settings 0 a) = none) (hr : Reads line.text items [])
    (hadmits : settings.unrecognized.Admits items) :
    let found := ofLines settings 0 (a ++ [⟨trim line.text, line.offset⟩])
    firstFailure found = none ∧ found.flatMap LineScan.strays =
      (ofLines settings 0 a).flatMap LineScan.strays ++
        itemsStrays (line.start a.length) items := by
  have hline : LineScan.ofLine settings a.length ⟨trim line.text, line.offset⟩ =
      ⟨itemsFound settings.stripQuotes (line.start a.length) items, none⟩ := by
    rw [LineScan.ofLine, htrim _ _ hr]
    exact LineScan.under_eq_of_reads hr hadmits _ _
  have hlast : ofLines settings a.length [⟨trim line.text, line.offset⟩] =
      [⟨itemsFound settings.stripQuotes (line.start a.length) items, none⟩] := by
    rw [ofLines_singleton, hline]
  intro found
  have hfound : found = ofLines settings 0 a ++
      [⟨itemsFound settings.stripQuotes (line.start a.length) items, none⟩] := by
    rw [← hlast, ← Nat.zero_add a.length]
    exact ofLines_append_of_success ha _
  constructor
  · rw [hfound, firstFailure_append, ha]
    rfl
  · rw [hfound, List.flatMap_append, List.flatMap_singleton, strays_found]

end Scan

/-- The part of a text before a place on one of its lines, as a text of its own. -/
theorem Source.exists_cut {text : String} {a b : List Line} {line : Line}
    (hl : (ofText text).lines = a ++ line :: b) {before after : List Char}
    (ht : line.text = before ++ after) :
    ∃ cut : String, (ofText cut).lines = a ++ [⟨dropReturn before, line.offset⟩] ∧
      (Utf8.encode text).extract 0 (line.offset + byteLength before) = Utf8.encode cut := by
  have hget : (ofText text).lines[a.length]? = some line := by simp [hl]
  obtain ⟨p, piece, q, hpieces, hlen, rfl⟩ := layout_getElem? hget
  obtain ⟨ending, hending⟩ := dropReturn_append piece
  have hpiece : piece = before ++ (after ++ ending) := by
    rw [← List.append_assoc, ← ht]
    exact hending
  obtain ⟨hsplit, more, hmore⟩ := splitOn_cut hpieces hpiece
  have hlines : layout dropReturn 0 p = a := by
    have hsame : layout dropReturn 0 p ++ layout dropReturn (0 + linesLength p) (piece :: q) =
        a ++ ⟨dropReturn piece, 0 + linesLength p⟩ :: b := by
      rw [← layout_append, ← hpieces]
      exact hl
    exact (List.append_inj hsame (by rw [length_layout, hlen])).1
  refine ⟨String.ofList (p.flatMap (· ++ ['\n']) ++ before), ?_, ?_⟩
  · rw [ofText, String.toList_ofList, hsplit, layout_append, hlines]
    rfl
  · have hextract := extract_utf8Encode [] (p.flatMap (· ++ ['\n']) ++ before) more
    rw [List.nil_append, ← hmore, byteLength_nil, byteLength_append, byteLength_flatMap_feed]
      at hextract
    rw [encode_eq, encode_eq, String.toList_ofList, ← hextract]
    simp only [Nat.zero_add]

/-- A failed scan stops at the first halt of the text. -/
theorem first_halt_of_scan (s : Scanner) {text : String} {e : LexError}
    (h : (s.scan (.ofText text)).1 = .error e) :
    e.kind ≠ .internal ∧
      (∃ index line before rest, (Source.ofText text).lines[index]? = some line ∧
        line.text = before ++ e.text.toList ++ rest ∧
        e.position = ⟨index + 1, 1 + before.length, line.offset + byteLength before⟩ ∧
        Halt s.settings.unrecognized e.kind e.text.toList rest) ∧
      ∃ cut table, (Utf8.encode text).extract 0 e.position.byteOffset = Utf8.encode cut ∧
        (s.scan (.ofText cut)).1 = .ok table ∧ table.lineCount = e.position.line ∧
        (s.scan (.ofText cut)).2.diagnostics = (s.scan (.ofText text)).2.diagnostics := by
  rw [Scanner.scan_result] at h
  obtain ⟨a, line, b, items, kind, shown, rest, hlines, ha, hr, hadmits, hhalt, rfl, hstrays⟩ :=
    Scan.exists_halt (Scan.result_eq_error h)
  have htext : line.text = itemsText items ++ (shown ++ rest) := hr.eq_append
  obtain ⟨cut, hcut, hextract⟩ := Source.exists_cut hlines htext
  obtain ⟨hfail, hcutstrays⟩ := @Scan.ofLines_append_reads s.settings a
    ⟨itemsText items, line.offset⟩ items dropReturn unnoticed_dropReturn ha hr.truncate hadmits
  rw [← hcut] at hfail hcutstrays
  refine ⟨hhalt.ne_internal, ⟨a.length, line, itemsText items, rest, ?_, ?_, rfl, ?_⟩, cut, _,
    hextract, Scanner.scan_of_success hfail, ?_, ?_⟩
  · simp [hlines]
  · rw [htext, String.toList_ofList, List.append_assoc]
  · rw [String.toList_ofList]
    exact hhalt
  · rw [TokenTable.lineCount_ofRows, List.length_map, Scan.length_ofLines_of_success hfail, hcut,
      List.length_append]
    rfl
  · rw [Scanner.scan_diagnostics, Scanner.scan_diagnostics, hstrays, hcutstrays]
    rfl

theorem first_halt_of_two_lines :
    let s := Scanner.new {}
    let text := "é\r\n 1.2.3"
    (s.scan (.ofText text)).1 = .error ⟨.malformedNumber, ⟨2, 2, 5⟩, "1.2"⟩ ∧
      ∃ cut table, (Utf8.encode text).extract 0 5 = Utf8.encode cut ∧
        (s.scan (.ofText cut)).1 = .ok table ∧ table.lineCount = 2 ∧
        (s.scan (.ofText cut)).2.diagnostics = (s.scan (.ofText text)).2.diagnostics := by
  intro s text
  have h : (s.scan (.ofText text)).1 = .error ⟨.malformedNumber, ⟨2, 2, 5⟩, "1.2"⟩ := by
    decide +kernel
  exact ⟨h, (first_halt_of_scan s h).2.2⟩

end LineLexer
