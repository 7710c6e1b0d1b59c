import LineLexer.Proofs.Layout
import LineLexer.Proofs.Moving

/-! Scanning is a homomorphism. Of two texts with a line feed between them the second is scanned as
if it stood alone, only that its lines and its bytes are counted on from the first. -/

namespace LineLexer

/-- How far a text moves when whole lines are put before it. -/
structure Shift where
  lines : Nat
  bytes : Nat

def Position.shift (p : Position) (d : Shift) : Position :=
  ⟨p.line + d.lines, p.column, p.byteOffset + d.bytes⟩

def Span.shift (s : Span) (d : Shift) : Span := ⟨s.start.shift d, s.stop.shift d⟩

def Token.shift (t : Token) (d : Shift) : Token := { t with span := t.span.shift d }

def LexError.shift (e : LexError) (d : Shift) : LexError :=
  { e with position := e.position.shift d }

def ScanItem.shift (d : Shift) : ScanItem → ScanItem
  | .token t => .token (t.shift d)
  | .stray p c => .stray (p.shift d) c

def LineScan.shift (s : LineScan) (d : Shift) : LineScan :=
  ⟨s.items.map (ScanItem.shift d), s.failure.map (·.shift d)⟩

def Line.shift (l : Line) (d : Shift) : Line := { l with offset := l.offset + d.bytes }

/-- The shift of a text that stands behind `text` and a line feed. -/
def Shift.behind (text : String) : Shift :=
  ⟨text.toList.count '\n' + 1, (Utf8.encode text).size + 1⟩

variable {d : Shift}

@[simp]
theorem Token.display_shift (t : Token) : (t.shift d).display = t.display := rfl

theorem Position.after_shift (p : Position) (s : List Char) :
    (p.shift d).after s = (p.after s).shift d := by
  simp only [after, shift, Position.mk.injEq, true_and]
  omega

def Shift.move (d : Shift) : Move := ⟨(·.shift d), fun p s => (p.after_shift s).symm⟩

theorem LineScan.shift_eq_move (s : LineScan) : s.shift d = s.move d.move := by
  have hitem : ScanItem.shift d = ScanItem.move d.move := by
    funext i
    cases i <;> rfl
  rw [shift, move, hitem]
  rfl

namespace Scan

theorem ofLines_shift (settings : LexerSettings) (index : Nat) (lines : List Line) :
    ofLines settings (index + d.lines) (lines.map (·.shift d)) =
      (ofLines settings index lines).map (·.shift d) := by
  refine ofLines_map (g := (·.shift d)) (fun _ => rfl) (fun index l => ?_) lines
  rw [LineScan.shift_eq_move]
  refine LineScan.ofLine_move settings rfl ?_
  simp only [Shift.move, Line.start, Line.shift, Position.shift, Position.mk.injEq, and_self,
    and_true]
  omega

theorem firstFailure_shift (lines : List LineScan) :
    firstFailure (lines.map (·.shift d)) = (firstFailure lines).map (·.shift d) :=
  firstFailure_map (fun _ => rfl) lines

theorem strays_shift (lines : List LineScan) :
    (lines.map (·.shift d)).flatMap LineScan.strays =
      (lines.flatMap LineScan.strays).map (·.shift d) := by
  simp only [LineScan.shift_eq_move]
  exact strays_move lines

end Scan

theorem TokenTable.ofRows_append_shift (a b : List LineScan) :
    ofRows ((a ++ b.map (·.shift d)).map LineScan.tokens) =
      ⟨a.map LineScan.tokens ++ (b.map LineScan.tokens).map (·.map (·.shift d)),
        (ofRows (a.map LineScan.tokens)).display ++ (ofRows (b.map LineScan.tokens)).display⟩ := by
  have hrows : (b.map (·.shift d)).map LineScan.tokens =
      (b.map LineScan.tokens).map (·.map (·.shift d)) := by
    simp only [LineScan.shift_eq_move]
    exact congrArg tokens (ofRows_move b)
  rw [List.map_append, hrows]
  simp [ofRows, Function.comp_def]

theorem Policy.kept_shift (policy : Policy) (strays : List LexError) :
    policy.kept (strays.map (·.shift d)) = (policy.kept strays).map (·.shift d) :=
  policy.kept_map (·.shift d) strays

theorem linesLength_eq {pieces : List (List Char)} (h : pieces ≠ []) :
    linesLength pieces = byteLength (['\n'].intercalate pieces) + 1 := by
  obtain ⟨init, last, rfl⟩ := List.eq_nil_or_concat pieces |>.resolve_left h
  rw [List.concat_eq_append, intercalate_append_cons, linesLength_append, byteLength_append,
    byteLength_flatMap_feed]
  simp [Nat.add_assoc]

namespace Source

theorem layout_shift (trim : List Char → List Char) (offset : Nat) (pieces : List (List Char)) :
    layout trim (offset + d.bytes) pieces = (layout trim offset pieces).map (·.shift d) := by
  induction pieces generalizing offset with
  | nil => rfl
  | cons s pieces ih =>
    have he : offset + d.bytes + byteLength s + 1 = offset + byteLength s + 1 + d.bytes := by omega
    rw [layout, layout, he, ih]
    rfl

theorem ofText_append (a b : String) :
    (ofText (a ++ "\n" ++ b)).lines =
        (ofText a).lines ++ (ofText b).lines.map (·.shift (.behind a)) ∧
      (ofText a).lines.length = (Shift.behind a).lines := by
  have hsplit : (a ++ "\n" ++ b).toList.splitOn '\n' =
      a.toList.splitOn '\n' ++ b.toList.splitOn '\n' := by
    rw [String.toList_append, String.toList_append, List.append_assoc]
    exact List.splitOn_append_cons_self _ _
  have hbytes : linesLength (a.toList.splitOn '\n') = (Shift.behind a).bytes := by
    rw [linesLength_eq (List.splitOn_ne_nil _ _), List.intercalate_splitOn, Shift.behind, encode_eq,
      size_utf8Encode]
  constructor
  · rw [ofText, hsplit, layout_append, hbytes, layout_shift]
    rfl
  · rw [ofText, length_layout, length_splitOn]
    rfl

end Source

namespace Scan

theorem ofText_append_of_failure {settings : LexerSettings} {a : String} {e : LexError}
    (h : firstFailure (ofLines settings 0 (Source.ofText a).lines) = some e) (b : String) :
    ofLines settings 0 (Source.ofText (a ++ "\n" ++ b)).lines =
      ofLines settings 0 (Source.ofText a).lines := by
  rw [(Source.ofText_append a b).1]
  exact ofLines_append_of_failure h _

theorem ofText_append_of_success {settings : LexerSettings} {a : String}
    (h : firstFailure (ofLines settings 0 (Source.ofText a).lines) = none) (b : String) :
    ofLines settings 0 (Source.ofText (a ++ "\n" ++ b)).lines =
      ofLines settings 0 (Source.ofText a).lines ++
        (ofLines settings 0 (Source.ofText b).lines).map (·.shift (.behind a)) := by
  obtain ⟨hlines, hcount⟩ := Source.ofText_append a b
  rw [hlines, ofLines_append_of_success h, hcount, ofLines_shift]

end Scan

/-- The scan of two texts with a line feed between them is the scan of the first and then the scan
of the second, moved behind the first. -/
theorem scan_append (s : Scanner) (a b : String) :
    let whole := s.scan (.ofText (a ++ "\n" ++ b))
    let first := s.scan (.ofText a)
    let second := s.scan (.ofText b)
    match first.1, second.1 with
    | .ok t, .ok u =>
      whole.1 = .ok ⟨t.tokens ++ u.tokens.map (·.map (·.shift (.behind a))),
          t.display ++ u.display⟩ ∧
        whole.2.diagnostics =
          first.2.diagnostics ++ second.2.diagnostics.map (·.shift (.behind a))
    | .ok _, .error e =>
      whole.1 = .error (e.shift (.behind a)) ∧
        whole.2.diagnostics =
          first.2.diagnostics ++ second.2.diagnostics.map (·.shift (.behind a))
    | .error e, _ => whole.1 = .error e ∧ whole.2.diagnostics = first.2.diagnostics := by
  intro whole first second
  cases ha : Scan.firstFailure (Scan.ofLines s.settings 0 (Source.ofText a).lines) with
  | some e =>
    have hwhole := Scan.ofText_append_of_failure ha b
    have hfirst : first.1 = .error e := Scanner.scan_of_failure ha
    simp only [hfirst]
    constructor
    · exact Scanner.scan_of_failure (by rw [hwhole, ha])
    · rw [Scanner.scan_diagnostics, Scanner.scan_diagnostics, hwhole]
  | none =>
    have hwhole := Scan.ofText_append_of_success ha b
    have hfirst : first.1 = .ok _ := Scanner.scan_of_success ha
    have hfailure : Scan.firstFailure
        (Scan.ofLines s.settings 0 (Source.ofText (a ++ "\n" ++ b)).lines) =
          (Scan.firstFailure (Scan.ofLines s.settings 0 (Source.ofText b).lines)).map
            (·.shift (.behind a)) := by
      rw [hwhole, Scan.firstFailure_append, ha, Option.none_or, Scan.firstFailure_shift]
    have hkept : whole.2.diagnostics =
        first.2.diagnostics ++ second.2.diagnostics.map (·.shift (.behind a)) := by
      rw [Scanner.scan_diagnostics, Scanner.scan_diagnostics, Scanner.scan_diagnostics, hwhole,
        List.flatMap_append, Scan.strays_shift, Policy.kept_append, Policy.kept_shift]
    cases hb : Scan.firstFailure (Scan.ofLines s.settings 0 (Source.ofText b).lines) with
    | some e =>
      have hsecond : second.1 = .error e := Scanner.scan_of_failure hb
      rw [hb, Option.map_some] at hfailure
      simp only [hfirst, hsecond]
      exact ⟨Scanner.scan_of_failure hfailure, hkept⟩
    | none =>
      have hsecond : second.1 = .ok _ := Scanner.scan_of_success hb
      rw [hb, Option.map_none] at hfailure
      simp only [hfirst, hsecond]
      refine ⟨(Scanner.scan_of_success hfailure).trans ?_, hkept⟩
      rw [hwhole, TokenTable.ofRows_append_shift]
      rfl

end LineLexer
