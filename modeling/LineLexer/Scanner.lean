import LineLexer.Scan

/-! A scanner that is used again and again. It works on one table, in which it files each token as
it is found; when a scan succeeds it hands the table out, when a scan fails it drops it. Between
scans it keeps the diagnostics of the last one. -/

namespace LineLexer

structure Scanner where
  settings : LexerSettings
  table : TokenTable
  diagnostics : List LexError
  /-- index of the line under the scanner -/
  current : Nat
deriving DecidableEq, Repr

namespace Scanner

def new (settings : LexerSettings) : Scanner := ⟨settings, .empty, [], 0⟩

/-- Files a token under the current line. That the table refuses it is an internal failure. -/
def emit (s : Scanner) (t : Token) : Except LexError Scanner :=
  match s.table.add t s.current with
  | .ok table => .ok { s with table := table }
  | .error e => .error ⟨.internal, t.span.start, e.message⟩

/-- Passes a character that begins nothing, as the policy has it. -/
def unrecognized (s : Scanner) (p : Position) (c : Char) : Except LexError Scanner :=
  match s.settings.unrecognized with
  | .collect => .ok { s with diagnostics := s.diagnostics ++ [.unrecognized p c] }
  | .skip => .ok s
  | .reject => .error (.unrecognized p c)

/-- Scans the rest of the current line, which begins at `p`, and gives the failure if there is
one. The scanner stays as the failure found it. -/
def scanChars (s : Scanner) (p : Position) : List Char → Option LexError × Scanner
  | [] => (none, s)
  | c :: r =>
    match _h : Munch.first s.settings.stripQuotes c r with
    | .blank => s.scanChars (p.after [c]) r
    | .stray =>
      match s.unrecognized p c with
      | .ok s => s.scanChars (p.after [c]) r
      | .error e => (some e, s)
    | .token v text rest =>
      match s.emit ⟨v, .covering p text⟩ with
      | .ok s => s.scanChars (p.after text) rest
      | .error e => (some e, s)
    | .failure kind text => (some ⟨kind, p, String.ofList text⟩, s)
termination_by r => r.length
decreasing_by
  · exact Nat.lt_succ_self _
  · exact Nat.lt_succ_self _
  · exact Munch.length_lt_of_first _h

def scanLines (s : Scanner) (index : Nat) : List Line → Option LexError × Scanner
  | [] => (none, s)
  | l :: rest =>
    match { s with current := index }.scanChars (l.start index) l.text with
    | (none, s) => s.scanLines (index + 1) rest
    | (some e, s) => (some e, s)

/-- Scans a source. After a failure too the scanner keeps what was collected before it. -/
def scan (s : Scanner) (source : Source) : Except LexError TokenTable × Scanner :=
  match { s with diagnostics := [], table := .create source.lineCount }.scanLines 0
      source.lines with
  | (none, s) => (.ok s.table, { s with table := .empty })
  | (some e, s) => (.error e, { s with table := .empty })

def takeDiagnostics (s : Scanner) : List LexError × Scanner :=
  (s.diagnostics, { s with diagnostics := [] })

end Scanner

end LineLexer
