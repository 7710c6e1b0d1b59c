import LineLexer.Proofs.Emission
import LineLexer.Proofs.Ending
import LineLexer.Proofs.Halt
import LineLexer.Proofs.Layout

/-! Lines that are given one by one, and the text that joins them. Cut again, the text has the same
lines but for the carriage returns at their ends, and only a string that does not end on its line
shows them. -/

namespace LineLexer

theorem dropReturn_eq_self_iff {s : List Char} : dropReturn s = s ↔ s.getLast? ≠ some '\r' := by
  constructor
  · intro h hr
    have hs := List.dropLast_append_getLast? '\r' hr
    rw [dropReturn, if_pos hr] at h
    rw [h] at hs
    simp at hs
  · intro h
    rw [dropReturn, if_neg h]

/-- The error when the carriage return at the end of its line is dropped. -/
def LexError.withoutReturn (e : LexError) : LexError :=
  if e.kind = .unterminatedString then
    { e with text := String.ofList (dropReturn e.text.toList) }
  else e

def LineScan.withoutReturn (s : LineScan) : LineScan :=
  { s with failure := s.failure.map LexError.withoutReturn }

def Line.withoutReturn (l : Line) : Line := { l with text := dropReturn l.text }

/-- A halt stays where it is when the line loses a carriage return at its end. -/
theorem Halt.exists_dropReturn {policy : Policy} {kind : LexErrorKind} {text rest : List Char}
    (h : Halt policy kind text rest) :
    ∃ shown more, Halt policy kind shown more ∧ dropReturn (text ++ rest) = shown ++ more ∧
      shown = if kind = .unterminatedString then dropReturn text else text := by
  cases h with
  | fault h =>
    cases h with
    | @malformedNumber whole fraction digits rest =>
      refine ⟨_, '.' :: dropReturn rest, .fault (.malformedNumber whole digits _), ?_, by simp⟩
      have hpoint := @dropReturn_append_right (whole.chars ++ '.' :: fraction ++ ['.']) rest
        (fun _ => by rw [List.getLast?_concat]; decide)
      simpa using hpoint
    | @numberOutOfRange run rest large ends =>
      refine ⟨_, dropReturn rest, .fault (.numberOutOfRange run large ?_), ?_, by simp⟩
      · obtain ⟨ending, hending⟩ := dropReturn_append rest
        intro c hc
        refine ends c ?_
        rw [hending, List.head?_append, Option.mem_def.mp hc]
        rfl
      · exact dropReturn_append_right (fun _ => run.getLast?_ne_return)
    | @unterminatedString mark body quote unclosed =>
      have hmark : mark ≠ '\r' := by
        rintro rfl
        exact absurd quote (by decide)
      have hbody : dropReturn (mark :: body) = mark :: dropReturn body :=
        @dropReturn_append_right [mark] body (fun _ => by simpa using hmark)
      have hsub : mark ∉ dropReturn body := by
        obtain ⟨ending, hending⟩ := dropReturn_append body
        rw [hending, List.mem_append, not_or] at unclosed
        exact unclosed.1
      exact ⟨_, [], .fault (.unterminatedString quote hsub), by simp [hbody], by simp [hbody]⟩
  | @stray c reject other rest =>
    have hc : c ≠ '\r' := by
      rintro rfl
      exact absurd other (by decide)
    refine ⟨[c], dropReturn rest, .stray reject other _, ?_, by simp⟩
    exact @dropReturn_append_right [c] rest (fun _ => by simpa using hc)

namespace LineScan

theorem under_dropReturn (policy : Policy) (strip : Bool) (p : Position) (s : List Char) :
    (ofChars strip p (dropReturn s)).under policy =
      ((ofChars strip p s).under policy).withoutReturn := by
  obtain ⟨items, rest, hr, ha, rfl | ⟨kind, text, more, hh, rfl⟩⟩ := exists_reads policy s
  · rw [unnoticed_dropReturn s items hr, under_eq_of_reads hr ha]
    rfl
  · obtain ⟨shown, after, hcut, hdrop, hshown⟩ := hh.exists_dropReturn
    have hs : dropReturn s = itemsText items ++ (shown ++ after) := by
      rw [hr.eq_append, ← hdrop]
      exact dropReturn_append_right (fun he => absurd he (by simp [hh.text_ne_nil]))
    obtain ⟨ending, hending⟩ := dropReturn_append (text ++ more)
    rw [hdrop] at hending
    have hkept : Reads s items ((shown ++ after) ++ ending) := hending ▸ hr
    rw [hs, under_eq_of_halt hkept.cut ha hcut, under_eq_of_halt hr ha hh, hshown]
    by_cases hk : kind = .unterminatedString <;> simp [withoutReturn, LexError.withoutReturn, hk]

theorem ofLine_withoutReturn (settings : LexerSettings) (index : Nat) (l : Line) :
    ofLine settings index l.withoutReturn = (ofLine settings index l).withoutReturn :=
  under_dropReturn _ _ _ _

end LineScan

namespace Source

theorem layout_dropReturn (offset : Nat) (pieces : List (List Char)) :
    layout dropReturn offset pieces = (layout id offset pieces).map Line.withoutReturn := by
  induction pieces generalizing offset with
  | nil => rfl
  | cons s pieces ih =>
    rw [layout, layout, ih]
    rfl

theorem layout_congr {trim trim' : List Char → List Char} {pieces : List (List Char)}
    (h : ∀ s ∈ pieces, trim s = trim' s) (offset : Nat) :
    layout trim offset pieces = layout trim' offset pieces := by
  induction pieces generalizing offset with
  | nil => rfl
  | cons s pieces ih =>
    have hs := h s (by simp)
    have hh := ih (fun t ht => h t (List.mem_cons_of_mem _ ht)) (offset + byteLength s + 1)
    rw [layout, layout, hs, hh]

variable {ls : List String}

theorem splitOn_join (hne : ls ≠ []) (hfeed : ∀ l ∈ ls, '\n' ∉ l.toList) :
    ("\n".intercalate ls).toList.splitOn '\n' = ls.map String.toList := by
  have hjoin : ("\n".intercalate ls).toList = ['\n'].intercalate (ls.map String.toList) := by
    rw [String.toList_intercalate]
    rfl
  rw [hjoin]
  refine List.splitOn_intercalate '\n' ?_ (by simpa using hne)
  intro s hs
  obtain ⟨l, hl, rfl⟩ := List.mem_map.mp hs
  exact hfeed l hl

theorem ofText_join (hne : ls ≠ []) (hfeed : ∀ l ∈ ls, '\n' ∉ l.toList) :
    (ofText ("\n".intercalate ls)).lines = (ofLines ls).lines.map Line.withoutReturn := by
  rw [ofText, splitOn_join hne hfeed, layout_dropReturn]
  rfl

theorem ofLines_eq_ofText (hne : ls ≠ [])
    (h : ∀ l ∈ ls, '\n' ∉ l.toList ∧ l.toList.getLast? ≠ some '\r') :
    ofLines ls = ofText ("\n".intercalate ls) := by
  have hkeep : ∀ s ∈ ls.map String.toList, id s = dropReturn s := by
    intro s hs
    obtain ⟨l, hl, rfl⟩ := List.mem_map.mp hs
    exact (dropReturn_eq_self_iff.mpr (h l hl).2).symm
  rw [ofText, splitOn_join hne (fun l hl => (h l hl).1), ofLines, layout_congr hkeep]

theorem of_ofLines_eq_ofText (h : ofLines ls = ofText ("\n".intercalate ls)) :
    ls ≠ [] ∧ ∀ l ∈ ls, '\n' ∉ l.toList ∧ l.toList.getLast? ≠ some '\r' := by
  have htexts : ls.map String.toList =
      (("\n".intercalate ls).toList.splitOn '\n').map dropReturn := by
    have hh := congrArg (fun source => source.lines.map Line.text) h
    simpa only [ofLines, ofText, map_text_layout, List.map_id] using hh
  have hne : ls ≠ [] := by
    rintro rfl
    simp at htexts
  have hfeed : ∀ l ∈ ls, '\n' ∉ l.toList := by
    intro l hl hm
    have hpiece : l.toList ∈ (("\n".intercalate ls).toList.splitOn '\n').map dropReturn :=
      htexts ▸ List.mem_map_of_mem hl
    obtain ⟨piece, hp, he⟩ := List.mem_map.mp hpiece
    obtain ⟨ending, hending⟩ := dropReturn_append piece
    refine not_mem_of_mem_splitOn hp ?_
    rw [hending, he]
    exact List.mem_append_left _ hm
  -- without line feeds the cut gives the lines themselves, so dropping changes none of them
  rw [splitOn_join hne hfeed, List.map_map] at htexts
  have hkeep := List.map_inj_left.mp htexts
  exact ⟨hne, fun l hl => ⟨hfeed l hl, dropReturn_eq_self_iff.mp (hkeep l hl).symm⟩⟩

end Source

theorem Scan.ofText_join {ls : List String} (settings : LexerSettings) (hne : ls ≠ [])
    (hfeed : ∀ l ∈ ls, '\n' ∉ l.toList) :
    ofLines settings 0 (Source.ofText ("\n".intercalate ls)).lines =
      (ofLines settings 0 (Source.ofLines ls).lines).map LineScan.withoutReturn := by
  rw [Source.ofText_join hne hfeed]
  exact @ofLines_map settings 0 settings 0 _ _ LexError.withoutReturn (fun _ => rfl)
    (LineScan.ofLine_withoutReturn settings) _

theorem LexError.text_withoutReturn (e : LexError) :
    e.text = e.withoutReturn.text ∨
      e.kind = .unterminatedString ∧ e.text = e.withoutReturn.text ++ "\r" := by
  by_cases hk : e.kind = .unterminatedString
  · rw [withoutReturn, if_pos hk]
    rcases eq_dropReturn_or e.text.toList with h | h
    · refine .inl (String.toList_injective ?_)
      rwa [String.toList_ofList]
    · refine .inr ⟨hk, String.toList_injective ?_⟩
      rwa [String.toList_append, String.toList_ofList]
  · rw [withoutReturn, if_neg hk]
    exact .inl rfl

theorem LexError.kind_withoutReturn (e : LexError) : e.withoutReturn.kind = e.kind := by
  rw [withoutReturn]
  split <;> rfl

theorem LexError.position_withoutReturn (e : LexError) :
    e.withoutReturn.position = e.position := by
  rw [withoutReturn]
  split <;> rfl

/-- Lines and the text that joins them are the same source unless there is no line, or one that
holds a line feed or ends in a carriage return. Such an ending alone is seen by no scan, but for
the text of a string that does not end on its line. -/
theorem joined_lines_agree (ls : List String) :
    (Source.ofLines ls = Source.ofText ("\n".intercalate ls) ↔
      ls ≠ [] ∧ ∀ l ∈ ls, '\n' ∉ l.toList ∧ l.toList.getLast? ≠ some '\r') ∧
    (ls ≠ [] → (∀ l ∈ ls, '\n' ∉ l.toList) → ∀ settings : LexerSettings,
      match tokenizeLines settings ls, tokenize settings ("\n".intercalate ls) with
      | .ok t, .ok u => t = u
      | .error (.lexer e), .error (.lexer f) =>
        e.kind = f.kind ∧ e.position = f.position ∧
          (e.text = f.text ∨ e.kind = .unterminatedString ∧ e.text = f.text ++ "\r")
      | _, _ => False) := by
  refine ⟨⟨Source.of_ofLines_eq_ofText, fun h => Source.ofLines_eq_ofText h.1 h.2⟩, ?_⟩
  intro hne hfeed settings
  have hscan := Scan.ofText_join settings hne hfeed
  have hfailure : Scan.firstFailure
      (Scan.ofLines settings 0 (Source.ofText ("\n".intercalate ls)).lines) =
        (Scan.firstFailure (Scan.ofLines settings 0 (Source.ofLines ls).lines)).map
          LexError.withoutReturn := by
    rw [hscan]
    exact Scan.firstFailure_map (fun _ => rfl) _
  cases hf : Scan.firstFailure (Scan.ofLines settings 0 (Source.ofLines ls).lines) with
  | some e =>
    rw [hf, Option.map_some] at hfailure
    simp only [tokenizeLines, tokenize, Tokenized.ofSource_of_failure hf,
      Tokenized.ofSource_of_failure hfailure]
    exact ⟨e.kind_withoutReturn.symm, e.position_withoutReturn.symm, e.text_withoutReturn⟩
  | none =>
    rw [hf, Option.map_none] at hfailure
    simp only [tokenizeLines, tokenize, Tokenized.ofSource_of_success hf,
      Tokenized.ofSource_of_success hfailure, hscan, List.map_map, List.flatMap_map]
    rfl

theorem joined_lines_agree_on_open_string :
    let ls := ["é 1\r", "#'a\r"]
    let whole := "é 1\r\n#'a\r"
    tokenizeLines {} ls = .error (.lexer ⟨.unterminatedString, ⟨2, 2, 7⟩, "'a\r"⟩) ∧
      tokenize {} whole = .error (.lexer ⟨.unterminatedString, ⟨2, 2, 7⟩, "'a"⟩) ∧
      ls ≠ [] ∧ (∀ l ∈ ls, '\n' ∉ l.toList) ∧ Source.ofLines ls ≠ Source.ofText whole ∧
      ∀ settings : LexerSettings,
        match tokenizeLines settings ls, tokenize settings whole with
        | .ok t, .ok u => t = u
        | .error (.lexer e), .error (.lexer f) =>
          e.kind = f.kind ∧ e.position = f.position ∧
            (e.text = f.text ∨ e.kind = .unterminatedString ∧ e.text = f.text ++ "\r")
        | _, _ => False := by
  intro ls whole
  have hne : ls ≠ [] := by simp [ls]
  have hfeed : ∀ l ∈ ls, '\n' ∉ l.toList := by decide
  have hwhole : "\n".intercalate ls = whole := by decide
  obtain ⟨hsame, hagree⟩ := joined_lines_agree ls
  rw [hwhole] at hsame hagree
  refine ⟨by decide +kernel, by decide +kernel, hne, hfeed, ?_, hagree hne hfeed⟩
  intro h
  exact absurd ((hsame.mp h).2 "é 1\r" (by decide)).2 (by decide)

end LineLexer
