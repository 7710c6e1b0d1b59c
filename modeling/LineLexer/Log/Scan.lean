import LineLexer.Log
import LineLexer.Scan

/-! What a scan reports to the log. The events are read off the scan after it is done, so they
cannot change it. -/

namespace LineLexer

def ScanItem.event (policy : Policy) (index : Nat) : ScanItem → LogEvent
  | .token t =>
    ⟨.trace, .lexer, "emit", [("line", .number index), ("token", .plain t.display)]⟩
  | .stray p c =>
    let fields := [("ch", .plain (String.singleton c)), ("position", .plain p.describe)]
    match policy with
    | .skip => ⟨.trace, .lexer, "skipping character", fields⟩
    | _ => ⟨.debug, .lexer, "unrecognized character", fields⟩

/-- The line itself, its items, and the failure if the scan ends here. -/
def LineScan.events (policy : Policy) (index : Nat) (line : Line) (s : LineScan) :
    List LogEvent :=
  let begin : LogEvent :=
    ⟨.debug, .lexer, "scanning line",
      [("line", .number index), ("text", .quoted (String.ofList line.text))]⟩
  let abort : List LogEvent := match s.failure with
    | some e => [⟨.debug, .lexer, "scan aborted", [("error", .plain e.message)]⟩]
    | none => []
  begin :: s.items.map (·.event policy index) ++ abort

namespace Scan

def finished (s : Scan) : List LogEvent :=
  match s.result with
  | .ok table =>
    [⟨.info, .lexer, "scan finished",
      [("tokens", .number table.tokenCount), ("diagnostics", .number s.diagnostics.length)]⟩]
  | .error _ => []

def events (s : Scan) (source : Source) : List LogEvent :=
  let started : LogEvent :=
    ⟨.info, .lexer, "scan started", [("lines", .number source.lineCount)]⟩
  started ::
    (((source.lines.zip s.lines).zipIdx.flatMap fun l =>
      l.1.2.events s.settings.unrecognized l.2 l.1.1) ++ s.finished)

end Scan

end LineLexer
