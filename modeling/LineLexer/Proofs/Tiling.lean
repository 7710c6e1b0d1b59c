import LineLexer.Proofs.Emission
import LineLexer.Proofs.Halt
import LineLexer.Proofs.Layout

/-! Soundness of a successful scan. Each line is its lexemes with gaps between them, one token for
each lexeme, and the span of a token is the place of its lexeme on the line and in the whole
text. -/

namespace LineLexer

structure Tile where
  gap : List Char
  lexeme : Lexeme

namespace Tile

def text (t : Tile) : List Char := t.gap ++ t.lexeme.text

end Tile

def tilesText (tiles : List Tile) : List Char := tiles.flatMap Tile.text

/-- The items as tiles, and the gap behind the last lexeme. -/
def itemsTiles : List Item → List Tile × List Char
  | [] => ([], [])
  | .lexeme l :: items => (⟨[], l⟩ :: (itemsTiles items).1, (itemsTiles items).2)
  | .gap c _ :: items =>
    match (itemsTiles items).1 with
    | [] => ([], c :: (itemsTiles items).2)
    | t :: tiles => (⟨c :: t.gap, t.lexeme⟩ :: tiles, (itemsTiles items).2)

def tilesTokens (strip : Bool) (p : Position) : List Tile → List Token
  | [] => []
  | t :: tiles =>
    ⟨t.lexeme.value strip, .covering (p.after t.gap) t.lexeme.text⟩ ::
      tilesTokens strip (p.after t.text) tiles

theorem itemsText_tiles (items : List Item) :
    itemsText items = tilesText (itemsTiles items).1 ++ (itemsTiles items).2 := by
  induction items with
  | nil => rfl
  | cons i items ih =>
    have hh : itemsText (i :: items) = i.text ++ itemsText items := rfl
    rw [hh, ih]
    cases i with
    | lexeme l => simp [itemsTiles, tilesText, Tile.text, Item.text]
    | gap c h =>
      cases ht : (itemsTiles items).1 <;>
        simp [itemsTiles, ht, tilesText, Tile.text, Item.text]

theorem itemsTokens_tiles (strip : Bool) (p : Position) (items : List Item) :
    itemsTokens strip p items = tilesTokens strip p (itemsTiles items).1 := by
  induction items generalizing p with
  | nil => rfl
  | cons i items ih =>
    cases i with
    | lexeme l => simp [itemsTokens, itemsTiles, tilesTokens, Tile.text, ih]
    | gap c h =>
      cases ht : (itemsTiles items).1 with
      | nil => simp [itemsTokens, itemsTiles, tilesTokens, ih, ht]
      | cons t tiles =>
        have hg : p.after (c :: t.gap) = (p.after [c]).after t.gap := by
          rw [← Position.after_append, List.singleton_append]
        have ht' : p.after (c :: t.gap ++ t.lexeme.text) =
            (p.after [c]).after (t.gap ++ t.lexeme.text) := by
          rw [← Position.after_append, List.singleton_append, List.cons_append]
        simp only [itemsTokens, itemsTiles, tilesTokens, ih, ht, Tile.text, hg, ht']

theorem length_tilesTokens (strip : Bool) (p : Position) (tiles : List Tile) :
    (tilesTokens strip p tiles).length = tiles.length := by
  induction tiles generalizing p with
  | nil => rfl
  | cons t tiles ih => simp [tilesTokens, ih]

theorem getElem?_tilesTokens (strip : Bool) (p : Position) (before : List Tile) (t : Tile)
    (after : List Tile) :
    (tilesTokens strip p (before ++ t :: after))[before.length]? =
      some ⟨t.lexeme.value strip,
        .covering (p.after (tilesText before ++ t.gap)) t.lexeme.text⟩ := by
  induction before generalizing p with
  | nil => simp [tilesTokens, tilesText]
  | cons u before ih =>
    have hp : p.after (tilesText (u :: before) ++ t.gap) =
        (p.after u.text).after (tilesText before ++ t.gap) := by
      rw [← Position.after_append]
      simp [tilesText]
    rw [hp, List.cons_append, tilesTokens, List.length_cons, List.getElem?_cons_succ]
    exact ih _

theorem mem_gap_of_tiles {items : List Item} {c : Char}
    (h : c ∈ (itemsTiles items).2 ∨ ∃ t ∈ (itemsTiles items).1, c ∈ t.gap) :
    ∃ hc, Item.gap c hc ∈ items := by
  induction items with
  | nil => simp [itemsTiles] at h
  | cons i items ih =>
    have hcons : (∃ hc, Item.gap c hc ∈ items) → ∃ hc, Item.gap c hc ∈ i :: items := by
      rintro ⟨hc, hm⟩
      exact ⟨hc, List.mem_cons_of_mem _ hm⟩
    cases i with
    | lexeme l => exact hcons (ih (by simpa [itemsTiles] using h))
    | gap d hd =>
      by_cases he : c = d
      · subst he
        exact ⟨hd, List.mem_cons_self⟩
      · apply hcons
        apply ih
        cases ht : (itemsTiles items).1 with
        | nil => simpa [itemsTiles, ht, he] using h
        | cons t tiles => simpa [itemsTiles, ht, he] using h

theorem endsBefore_of_tiles {items : List Item} {s : List Char} (h : Reads s items [])
    {before after : List Tile} {t : Tile} (ht : (itemsTiles items).1 = before ++ t :: after) :
    t.lexeme.EndsBefore (tilesText after ++ (itemsTiles items).2) := by
  induction items generalizing s before t with
  | nil => simp [itemsTiles] at ht
  | cons i items ih =>
    cases h with
    | @step _ s _ _ ends h =>
      cases i with
      | lexeme l =>
        have hs := h.eq_append
        rw [List.append_nil, itemsText_tiles] at hs
        cases before with
        | nil =>
          simp only [itemsTiles, List.nil_append, List.cons.injEq] at ht ⊢
          rw [← ht.1, ← ht.2, ← hs]
          exact ends
        | cons u before =>
          simp only [itemsTiles, List.cons_append, List.cons.injEq] at ht ⊢
          exact ih h ht.2
      | gap c hc =>
        -- a gap joins the tile behind it, so the same tile is looked for behind the gap
        cases hi : (itemsTiles items).1 with
        | nil => simp [itemsTiles, hi] at ht
        | cons u tiles =>
          simp only [itemsTiles, hi] at ht ⊢
          cases before with
          | nil =>
            simp only [List.nil_append, List.cons.injEq] at ht
            rw [ht.2] at hi
            rw [← ht.1]
            exact @ih s h [] u hi
          | cons v before =>
            simp only [List.cons_append, List.cons.injEq] at ht
            exact @ih s h (u :: before) t (by rw [hi, ht.2, List.cons_append])

/-- The span covers exactly `w`, which stands on the line with this index behind `before`. -/
structure Covers (whole : String) (index : Nat) (line : Line) (before w : List Char)
    (span : Span) : Prop where
  start_line : span.start.line = index + 1
  stop_line : span.stop.line = index + 1
  start_column : span.start.column = 1 + before.length
  stop_column : span.stop.column = span.start.column + w.length
  start_byte : span.start.byteOffset = line.offset + byteLength before
  bytes : (Utf8.encode whole).extract span.start.byteOffset span.stop.byteOffset = w.utf8Encode
  start_lt_stop : span.start.byteOffset < span.stop.byteOffset
  size : span.size = byteLength w

/-- The line is `tiles` and then the gap `last`, and `row` holds the tokens of the tiles. -/
structure Tiling (settings : LexerSettings) (whole : String) (index : Nat) (line : Line)
    (row : List Token) (tiles : List Tile) (last : List Char) : Prop where
  text_eq : line.text = tilesText tiles ++ last
  length_eq : row.length = tiles.length
  token : ∀ before t after, tiles = before ++ t :: after →
    ∃ span, row[before.length]? = some ⟨t.lexeme.value settings.stripQuotes, span⟩ ∧
      Covers whole index line (tilesText before ++ t.gap) t.lexeme.text span
  endsBefore : ∀ before t after, tiles = before ++ t :: after →
    t.lexeme.EndsBefore (tilesText after ++ last)
  isGap : ∀ c, (c ∈ last ∨ ∃ t ∈ tiles, c ∈ t.gap) → IsGap c
  not_stray : settings.unrecognized = .reject →
    ∀ c, (c ∈ last ∨ ∃ t ∈ tiles, c ∈ t.gap) → CharClass.of c = .blank

theorem covers_covering {source : Source} {whole : String} (ho : source.Of whole) {index : Nat}
    {line : Line} (hl : source.lines[index]? = some line) {before w after : List Char}
    (ht : line.text = before ++ w ++ after) (hw : w ≠ []) :
    Covers whole index line before w (.covering ((line.start index).after before) w) where
  start_line := rfl
  stop_line := rfl
  start_column := rfl
  stop_column := rfl
  start_byte := rfl
  bytes := ho.extract_encode hl ht
  start_lt_stop := Nat.lt_add_of_pos_right (byteLength_pos hw)
  size := Nat.add_sub_cancel_left _ _

theorem tiling_of_reads {settings : LexerSettings} {source : Source} {whole : String}
    (ho : source.Of whole) {index : Nat} {line : Line} (hl : source.lines[index]? = some line)
    {items : List Item} (hr : Reads line.text items [])
    (ha : settings.unrecognized.Admits items) :
    Tiling settings whole index line
      (itemsTokens settings.stripQuotes (line.start index) items)
      (itemsTiles items).1 (itemsTiles items).2 where
  text_eq := by rw [hr.eq_append, List.append_nil, itemsText_tiles]
  length_eq := by rw [itemsTokens_tiles, length_tilesTokens]
  token := by
    intro before t after ht
    refine ⟨_, by rw [itemsTokens_tiles, ht, getElem?_tilesTokens], ?_⟩
    have htext : line.text = (tilesText before ++ t.gap) ++ t.lexeme.text ++
        (tilesText after ++ (itemsTiles items).2) := by
      rw [hr.eq_append, List.append_nil, itemsText_tiles, ht]
      simp [tilesText, Tile.text]
    exact covers_covering ho hl htext t.lexeme.text_ne_nil
  endsBefore := fun _ _ _ ht => endsBefore_of_tiles hr ht
  isGap := fun c hc => (mem_gap_of_tiles hc).1
  not_stray := by
    intro hp c hc
    obtain ⟨hg, hm⟩ := mem_gap_of_tiles hc
    have hs := ha hp _ hm
    rcases hg with hg | hg
    · exact hg
    · simp [Item.isStray, hg] at hs

/-- A scan that succeeds has tiled every line of its source. -/
theorem tiling_of_scan (s : Scanner) {source : Source} {whole : String} (ho : source.Of whole)
    {table : TokenTable} (h : (s.scan source).1 = .ok table) :
    table.lineCount = source.lineCount ∧
      table.display = table.tokens.map (·.map Token.display) ∧
      ∀ index line, source.lines[index]? = some line →
        ∃ row tiles last, table.tokens[index]? = some row ∧
          Tiling s.settings whole index line row tiles last := by
  rw [Scanner.scan_result] at h
  obtain ⟨hfail, rfl⟩ := Scan.result_eq_ok h
  have hlen := Scan.length_ofLines_of_success hfail
  refine ⟨?_, rfl, ?_⟩
  · rw [TokenTable.lineCount_ofRows, List.length_map, hlen]
    rfl
  · intro index line hl
    obtain ⟨hline, hnone⟩ := Scan.getElem?_ofLines_of_success hfail hl
    rw [Nat.zero_add] at hline hnone
    obtain ⟨items, hr, ha⟩ := LineScan.reads_of_success hnone
    refine ⟨_, _, _, ?_, tiling_of_reads ho hl hr ha⟩
    have hscan := LineScan.under_eq_of_reads hr ha s.settings.stripQuotes (line.start index)
    simp only [TokenTable.ofRows, List.getElem?_map, hline, Option.map_some, LineScan.ofLine,
      hscan, tokens_found]

theorem tiling_of_two_lines :
    let whole := "é1\r\n.'a'"
    let rows : List (List Token) := [[⟨.int 1, ⟨⟨1, 2, 2⟩, ⟨1, 3, 3⟩⟩⟩],
      [⟨.str "'a'", ⟨⟨2, 2, 6⟩, ⟨2, 5, 9⟩⟩⟩]]
    ((Scanner.new {}).scan (.ofText whole)).1 = .ok (.ofRows rows) ∧
      ∀ index line, (Source.ofText whole).lines[index]? = some line →
        ∃ row tiles last, rows[index]? = some row ∧
          Tiling {} whole index line row tiles last := by
  intro whole rows
  have h : ((Scanner.new {}).scan (.ofText whole)).1 = .ok (.ofRows rows) := by decide +kernel
  exact ⟨h, (tiling_of_scan (Scanner.new {}) (.text whole) h).2.2⟩

end LineLexer
