import LineLexer.Proofs.Layout
import LineLexer.Proofs.Moving

/-! Line ends with and without a carriage return. The return before each line feed is dropped with
it, so it is seen by nothing but the byte offsets of what follows. -/

namespace LineLexer

/-- The text with a carriage return before every line feed. -/
def withReturns (text : String) : String :=
  String.ofList (text.toList.flatMap fun c => if c = '\n' then ['\r', '\n'] else [c])

/-- The pieces with a carriage return at the end of each but the last. -/
def returnPieces : List (List Char) → List (List Char)
  | [] => []
  | [s] => [s]
  | s :: t :: pieces => (s ++ ['\r']) :: returnPieces (t :: pieces)

theorem Position.after_later (p : Position) (s : List Char) (bytes : Nat) :
    Position.after { p with byteOffset := p.byteOffset + bytes } s =
      { p.after s with byteOffset := (p.after s).byteOffset + bytes } := by
  simp only [after, mk.injEq, true_and]
  omega

/-- One byte more for each line before. -/
def Move.returns : Move where
  place p := { p with byteOffset := p.byteOffset + (p.line - 1) }
  place_after p s := (p.after_later s (p.line - 1)).symm

theorem returnPieces_cons {pieces : List (List Char)} (h : pieces ≠ []) (s : List Char) :
    returnPieces (s :: pieces) = (s ++ ['\r']) :: returnPieces pieces := by
  obtain ⟨t, pieces, rfl⟩ := List.exists_cons_of_ne_nil h
  rfl

theorem returnPieces_modifyHead (c : Char) (pieces : List (List Char)) :
    returnPieces (pieces.modifyHead (c :: ·)) = (returnPieces pieces).modifyHead (c :: ·) := by
  match pieces with
  | [] | [_] | _ :: _ :: _ => rfl

theorem splitOn_withReturns (text : String) :
    (withReturns text).toList.splitOn '\n' = returnPieces (text.toList.splitOn '\n') := by
  rw [withReturns, String.toList_ofList]
  induction text.toList with
  | nil => rfl
  | cons c s ih =>
    rw [List.flatMap_cons, List.splitOn_cons_eq_if_modifyHead]
    by_cases hc : c = '\n'
    · have hne := List.splitOn_ne_nil '\n' s
      simp [hc, List.splitOn_cons_eq_if_modifyHead, ih, returnPieces_cons hne]
    · simp [hc, List.splitOn_cons_eq_if_modifyHead, ih, returnPieces_modifyHead]

theorem Scan.ofLines_returnPieces (settings : LexerSettings) {pieces : List (List Char)}
    (h : ¬ ['\r', '\n'] <:+: ['\n'].intercalate pieces) (index offset : Nat) :
    ofLines settings index (Source.layout dropReturn (offset + index) (returnPieces pieces)) =
      (ofLines settings index (Source.layout dropReturn offset pieces)).map (·.move .returns) := by
  have hfailure : ∀ l : LineScan, (l.move .returns).failure = l.failure.map (·.move .returns) :=
    fun _ => rfl
  have hstart : ∀ (index offset : Nat) (text text' : List Char),
      (Line.mk text' (offset + index)).start index =
        Move.returns.place ((Line.mk text offset).start index) := fun _ _ _ _ => rfl
  induction pieces generalizing index offset with
  | nil => rfl
  | cons s pieces ih =>
    cases pieces with
    | nil =>
      exact ofLines_cons_map hfailure (LineScan.ofLine_move settings rfl (hstart _ _ _ _)) rfl
    | cons t pieces =>
      rw [List.intercalate_cons_cons] at h
      have hs : s.getLast? ≠ some '\r' := by
        intro hr
        obtain ⟨init, rfl⟩ := List.getLast?_eq_some_iff.mp hr
        exact h ⟨init, ['\n'].intercalate (t :: pieces), by simp⟩
      have hdrop : dropReturn (s ++ ['\r']) = dropReturn s := by
        rw [dropReturn, List.getLast?_concat, if_pos rfl, List.dropLast_concat, dropReturn,
          if_neg hs]
      have hnext : offset + index + byteLength (s ++ ['\r']) + 1 =
          offset + byteLength s + 1 + (index + 1) := by
        rw [byteLength_append]
        have : byteLength ['\r'] = 1 := rfl
        omega
      have hrest : ¬ ['\r', '\n'] <:+: ['\n'].intercalate (t :: pieces) :=
        fun hi => h (hi.trans (List.suffix_append _ _).isInfix)
      rw [returnPieces, Source.layout, hnext, Source.layout]
      exact ofLines_cons_map hfailure (LineScan.ofLine_move settings hdrop (hstart _ _ _ _))
        (ih hrest _ _)

theorem Scan.ofText_withReturns (settings : LexerSettings) {text : String}
    (h : ¬ ['\r', '\n'] <:+: text.toList) :
    ofLines settings 0 (Source.ofText (withReturns text)).lines =
      (ofLines settings 0 (Source.ofText text).lines).map (·.move .returns) := by
  have hpieces : ¬ ['\r', '\n'] <:+: ['\n'].intercalate (text.toList.splitOn '\n') := by
    rwa [List.intercalate_splitOn]
  rw [Source.ofText, splitOn_withReturns]
  exact ofLines_returnPieces settings hpieces 0 0

/-- A text and the text with a carriage return before each line feed are scanned alike, only that
the byte offsets on a line count one byte more for each line before it. -/
theorem scan_withReturns (s : Scanner) {text : String} (h : ¬ ['\r', '\n'] <:+: text.toList) :
    let plain := s.scan (.ofText text)
    let returned := s.scan (.ofText (withReturns text))
    (match plain.1, returned.1 with
      | .ok t, .ok u => u = t.move .returns
      | .error e, .error f => f = e.move .returns
      | _, _ => False) ∧
    returned.2.diagnostics = plain.2.diagnostics.map (·.move .returns) := by
  intro plain returned
  have hscan := Scan.ofText_withReturns s.settings h
  have hfailure := Scan.firstFailure_move (m := .returns)
    (Scan.ofLines s.settings 0 (Source.ofText text).lines)
  rw [← hscan] at hfailure
  constructor
  · cases hf : Scan.firstFailure (Scan.ofLines s.settings 0 (Source.ofText text).lines) with
    | none =>
      rw [hf, Option.map_none] at hfailure
      have hplain : plain.1 = .ok _ := Scanner.scan_of_success hf
      have hreturned : returned.1 = .ok _ := Scanner.scan_of_success hfailure
      rw [hplain, hreturned, hscan]
      exact TokenTable.ofRows_move _
    | some e =>
      rw [hf, Option.map_some] at hfailure
      have hplain : plain.1 = .error e := Scanner.scan_of_failure hf
      have hreturned : returned.1 = .error _ := Scanner.scan_of_failure hfailure
      rw [hplain, hreturned]
  · rw [Scanner.scan_diagnostics, Scanner.scan_diagnostics, hscan, Scan.strays_move,
      Policy.kept_map]

theorem scan_withReturns_of_two_lines :
    let s := Scanner.new {}
    ¬ ['\r', '\n'] <:+: "é 1\n?'a'".toList ∧ withReturns "é 1\n?'a'" = "é 1\r\n?'a'" ∧
      (s.scan (.ofText "é 1\n?'a'")).1 = .ok (.ofRows
        [[⟨.int 1, ⟨⟨1, 3, 3⟩, ⟨1, 4, 4⟩⟩⟩], [⟨.str "'a'", ⟨⟨2, 2, 6⟩, ⟨2, 5, 9⟩⟩⟩]]) ∧
      (s.scan (.ofText "é 1\r\n?'a'")).1 = .ok (.ofRows
        [[⟨.int 1, ⟨⟨1, 3, 3⟩, ⟨1, 4, 4⟩⟩⟩], [⟨.str "'a'", ⟨⟨2, 2, 7⟩, ⟨2, 5, 10⟩⟩⟩]]) := by
  intro s
  have h : ¬ ['\r', '\n'] <:+: "é 1\n?'a'".toList := by decide +kernel
  have hreturns : withReturns "é 1\n?'a'" = "é 1\r\n?'a'" := by decide +kernel
  have hplain : (s.scan (.ofText "é 1\n?'a'")).1 = .ok (.ofRows
      [[⟨.int 1, ⟨⟨1, 3, 3⟩, ⟨1, 4, 4⟩⟩⟩], [⟨.str "'a'", ⟨⟨2, 2, 6⟩, ⟨2, 5, 9⟩⟩⟩]]) := by
    decide +kernel
  have hscan := (scan_withReturns s h).1
  rw [hreturns, hplain] at hscan
  refine ⟨h, hreturns, hplain, ?_⟩
  cases hr : (s.scan (.ofText "é 1\r\n?'a'")).1 with
  | error e => simp [hr] at hscan
  | ok u =>
    simp only [hr] at hscan
    rw [hscan]
    exact congrArg Except.ok (by decide +kernel)

end LineLexer
