import LineLexer.Proofs.Emission

/-! A scanner that is used again and again. Whatever it did before, a scan starts afresh; from one
step to the next it carries its settings and the diagnostics that nobody has taken. -/

namespace LineLexer

inductive ScannerStep where
  | scan (source : Source)
  | take

inductive ScannerAnswer where
  | scanned (result : Except LexError TokenTable)
  | taken (diagnostics : List LexError)

namespace Scanner

def step (s : Scanner) : ScannerStep → ScannerAnswer × Scanner
  | .scan source => (.scanned (s.scan source).1, (s.scan source).2)
  | .take => (.taken s.takeDiagnostics.1, s.takeDiagnostics.2)

/-- What each step answers, and the diagnostics that the scanner holds behind it. -/
def answers (s : Scanner) : List ScannerStep → List (ScannerAnswer × List LexError)
  | [] => []
  | step :: steps =>
    ((s.step step).1, (s.step step).2.diagnostics) :: (s.step step).2.answers steps

/-- The same where every scan has a new scanner of its own; `held` are the diagnostics of the scan
before the first step. -/
def freshAnswers (settings : LexerSettings) (held : List LexError) :
    List ScannerStep → List (ScannerAnswer × List LexError)
  | [] => []
  | .scan source :: steps =>
    let fresh := (new settings).scan source
    (.scanned fresh.1, fresh.2.diagnostics) :: freshAnswers settings fresh.2.diagnostics steps
  | .take :: steps => (.taken held, []) :: freshAnswers settings [] steps

variable {s t : Scanner}

theorem scan_congr (h : s.settings = t.settings) (source : Source) :
    (s.scan source).1 = (t.scan source).1 ∧
      (s.scan source).2.diagnostics = (t.scan source).2.diagnostics := by
  constructor
  · rw [scan_result, scan_result, h]
  · rw [scan_diagnostics, scan_diagnostics, h]

theorem settings_step (s : Scanner) (step : ScannerStep) :
    (s.step step).2.settings = s.settings := by
  cases step with
  | scan source =>
    obtain ⟨current, h⟩ := s.scan_eq source
    rw [step, h]
  | take => rfl

/-- Neither the table nor the line that a scan before has left is seen by any step. -/
theorem answers_eq_fresh (s : Scanner) (steps : List ScannerStep) :
    s.answers steps = freshAnswers s.settings s.diagnostics steps := by
  induction steps generalizing s with
  | nil => rfl
  | cons step steps ih =>
    rw [answers, ih, settings_step]
    cases step with
    | scan source =>
      obtain ⟨hresult, hheld⟩ := @scan_congr s (new s.settings) rfl source
      simp only [Scanner.step, freshAnswers, hresult, hheld]
    | take => rfl

/-- On one scanner every scan gives what a new one gives, also behind scans that failed midway, and
what is taken are the diagnostics of the scan before. -/
theorem answers_of_new (settings : LexerSettings) (steps : List ScannerStep) :
    (new settings).answers steps = freshAnswers settings [] steps :=
  answers_eq_fresh (new settings) steps

end Scanner

end LineLexer
