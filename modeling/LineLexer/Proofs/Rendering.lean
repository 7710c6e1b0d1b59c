import LineLexer.Proofs.Emission
import LineLexer.Proofs.Ending
import LineLexer.Proofs.Halt
import LineLexer.Proofs.Layout

/-! Completeness. Items that keep numbers apart are read back as they are, whatever they are, from
lines and from one text, and the scan finds their tokens and their stray characters. -/

namespace LineLexer

namespace Item

def isNumber : Item → Bool
  | lexeme l => l.isNumber
  | gap .. => false

/-- Nothing that would go on with a number follows it. -/
def Apart (i j : Item) : Prop :=
  i.isNumber = true → j.isNumber = false ∧ ∀ h, j ≠ gap '.' h

theorem isNumberPart_head {i : Item} (hn : i.isNumber = false) (hg : ∀ h, i ≠ gap '.' h)
    (rest : List Char) : ∀ c ∈ (i.text ++ rest).head?, isNumberPart c = false := by
  intro c hc
  rw [isNumberPart_eq_false_iff]
  cases i with
  | lexeme l =>
    cases l with
    | int run fits => simp [isNumber, Lexeme.isNumber] at hn
    | float whole fraction digits => simp [isNumber, Lexeme.isNumber] at hn
    | str mark body quote closed =>
      obtain rfl : mark = c := by simpa [text, Lexeme.text] using hc
      rcases isQuote_iff.mp quote with rfl | rfl <;> decide
    | operator op =>
      obtain rfl : op.toChar = c := by simpa [text, Lexeme.text] using hc
      cases op <;> decide
  | gap d h =>
    obtain rfl : d = c := by simpa [text] using hc
    constructor
    · by_contra hd
      have hclass := CharClass.of_digit (Bool.not_eq_false _ ▸ hd)
      rcases h with h | h <;> simp [h] at hclass
    · intro hd
      subst hd
      exact hg h rfl

theorem Apart.endsBefore {i j : Item} (h : i.Apart j) (rest : List Char) :
    i.EndsBefore (j.text ++ rest) := by
  cases i with
  | gap c hc => trivial
  | lexeme l =>
    intro hn
    obtain ⟨hj, hg⟩ := h hn
    exact isNumberPart_head hj hg rest

end Item

/-- Items that keep numbers apart are a split of their text. -/
theorem reads_of_isChain {items : List Item} (h : items.IsChain Item.Apart) :
    Reads (itemsText items) items [] := by
  induction h with
  | nil => exact .done []
  | singleton i =>
    refine .step ?_ (.done [])
    cases i with
    | gap c hc => trivial
    | lexeme l => exact fun _ => by simp
  | @cons_cons i j items hij _ ih => exact .step (hij.endsBefore _) ih

/-- The tokens of lines of items, of which the first has this index and begins at this offset. -/
def linesTokens (strip : Bool) (index offset : Nat) : List (List Item) → List (List Token)
  | [] => []
  | items :: lines =>
    itemsTokens strip ⟨index + 1, 1, offset⟩ items ::
      linesTokens strip (index + 1) (offset + byteLength (itemsText items) + 1) lines

def linesStrays (index offset : Nat) : List (List Item) → List LexError
  | [] => []
  | items :: lines =>
    itemsStrays ⟨index + 1, 1, offset⟩ items ++
      linesStrays (index + 1) (offset + byteLength (itemsText items) + 1) lines

theorem Scan.ofLines_layout {settings : LexerSettings} {trim : List Char → List Char}
    (htrim : Unnoticed trim) {lines : List (List Item)}
    (hr : ∀ items ∈ lines, Reads (itemsText items) items [])
    (ha : ∀ items ∈ lines, settings.unrecognized.Admits items) (index offset : Nat) :
    let found := ofLines settings index (Source.layout trim offset (lines.map itemsText))
    firstFailure found = none ∧
      found.map LineScan.tokens = linesTokens settings.stripQuotes index offset lines ∧
      found.flatMap LineScan.strays = linesStrays index offset lines := by
  induction lines generalizing index offset with
  | nil => exact ⟨rfl, rfl, rfl⟩
  | cons items lines ih =>
    have hread := hr items List.mem_cons_self
    have hline : LineScan.ofLine settings index ⟨trim (itemsText items), offset⟩ =
        ⟨itemsFound settings.stripQuotes ⟨index + 1, 1, offset⟩ items, none⟩ := by
      rw [LineScan.ofLine, htrim _ _ hread]
      exact LineScan.under_eq_of_reads hread (ha items List.mem_cons_self) _ _
    obtain ⟨hfail, htokens, hstrays⟩ :=
      ih (fun i h => hr i (List.mem_cons_of_mem _ h)) (fun i h => ha i (List.mem_cons_of_mem _ h))
        (index + 1) (offset + byteLength (itemsText items) + 1)
    simp only [List.map_cons, Source.layout]
    rw [ofLines_cons_of_success (by rw [hline]), hline]
    refine ⟨?_, ?_, ?_⟩
    · rw [firstFailure_cons, hfail]
      rfl
    · rw [List.map_cons, tokens_found, htokens]
      rfl
    · rw [List.flatMap_cons, strays_found, hstrays]
      rfl

theorem Scanner.scan_layout (s : Scanner) {source : Source} {trim : List Char → List Char}
    (htrim : Unnoticed trim) {lines : List (List Item)}
    (hapart : ∀ items ∈ lines, items.IsChain Item.Apart)
    (hadmits : ∀ items ∈ lines, s.settings.unrecognized.Admits items)
    (hs : source.lines = Source.layout trim 0 (lines.map itemsText)) :
    (s.scan source).1 = .ok (.ofRows (linesTokens s.settings.stripQuotes 0 0 lines)) ∧
      (s.scan source).2.diagnostics = s.settings.unrecognized.kept (linesStrays 0 0 lines) := by
  have hr : ∀ items ∈ lines, Reads (itemsText items) items [] :=
    fun items h => reads_of_isChain (hapart items h)
  obtain ⟨hfail, htokens, hstrays⟩ := Scan.ofLines_layout htrim hr hadmits 0 0
  rw [← hs] at hfail htokens hstrays
  constructor
  · rw [Scanner.scan_of_success hfail, htokens]
  · rw [Scanner.scan_diagnostics, hstrays]

/-- Items that keep numbers apart lex to themselves. -/
theorem scan_of_items (s : Scanner) {lines : List (List Item)}
    (hapart : ∀ items ∈ lines, items.IsChain Item.Apart)
    (hadmits : ∀ items ∈ lines, s.settings.unrecognized.Admits items) :
    let written := lines.map fun items => String.ofList (itemsText items)
    let table := TokenTable.ofRows (linesTokens s.settings.stripQuotes 0 0 lines)
    let kept := s.settings.unrecognized.kept (linesStrays 0 0 lines)
    ((s.scan (.ofLines written)).1 = .ok table ∧
      (s.scan (.ofLines written)).2.diagnostics = kept) ∧
    (lines ≠ [] → (∀ items ∈ lines, '\n' ∉ itemsText items) →
      (s.scan (.ofText ("\n".intercalate written))).1 = .ok table ∧
        (s.scan (.ofText ("\n".intercalate written))).2.diagnostics = kept) := by
  intro written table kept
  have hwritten : written.map String.toList = lines.map itemsText := by
    simp [written, Function.comp_def]
  constructor
  · refine s.scan_layout unnoticed_id hapart hadmits ?_
    rw [Source.ofLines, hwritten]
  · intro hne hfeed
    refine s.scan_layout unnoticed_dropReturn hapart hadmits ?_
    have hsplit : (['\n'].intercalate (lines.map itemsText)).splitOn '\n' = lines.map itemsText :=
      List.splitOn_intercalate '\n' (by simpa using hfeed) (by simpa using hne)
    rw [Source.ofText, String.toList_intercalate, hwritten]
    exact congrArg (Source.layout dropReturn 0) hsplit

theorem scan_of_two_lines :
    let one : Item := .lexeme (.int ⟨['1'], by simp, List.forall_mem_singleton.mpr rfl⟩ (by decide))
    let quoted : Item := .lexeme (.str '"' ['é', '.'] (by decide) (by decide))
    let stray : Item := .gap '?' (.inr (by decide))
    let plus : Item := .lexeme (.operator .plus)
    let s := Scanner.new { unrecognized := .collect }
    (∀ items ∈ [[one, quoted, one], [stray, plus]], items.IsChain Item.Apart) ∧
      (s.scan (.ofText "1\"é.\"1\n?+")).1 = .ok (.ofRows
        [[⟨.int 1, ⟨⟨1, 1, 0⟩, ⟨1, 2, 1⟩⟩⟩, ⟨.str "\"é.\"", ⟨⟨1, 2, 1⟩, ⟨1, 6, 6⟩⟩⟩,
          ⟨.int 1, ⟨⟨1, 6, 6⟩, ⟨1, 7, 7⟩⟩⟩], [⟨.operator .plus, ⟨⟨2, 2, 9⟩, ⟨2, 3, 10⟩⟩⟩]]) ∧
      (s.scan (.ofText "1\"é.\"1\n?+")).2.diagnostics =
        [⟨.unrecognizedCharacter, ⟨2, 1, 8⟩, "?"⟩] := by
  intro one quoted stray plus s
  have hapart : ∀ items ∈ [[one, quoted, one], [stray, plus]], items.IsChain Item.Apart := by
    simp [Item.Apart, Item.isNumber, Lexeme.isNumber, one, quoted, stray]
  have hadmits : ∀ items ∈ [[one, quoted, one], [stray, plus]],
      s.settings.unrecognized.Admits items := fun _ _ hp => absurd hp (by decide)
  have htext : "\n".intercalate ([[one, quoted, one], [stray, plus]].map fun items =>
      String.ofList (itemsText items)) = "1\"é.\"1\n?+" := by decide +kernel
  have hfound := (scan_of_items s hapart hadmits).2 (by simp) (by decide +kernel)
  rw [htext] at hfound
  exact ⟨hapart, hfound.1.trans (by decide +kernel), hfound.2.trans (by decide +kernel)⟩

end LineLexer
