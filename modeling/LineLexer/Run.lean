import LineLexer.CommandLine
import LineLexer.Compile
import LineLexer.Dump
import LineLexer.Files.Disk
import LineLexer.Log.Scan
import LineLexer.ProjectFile

/-! A run of the program on a disk: the exit status, what is printed, and the disk afterwards.
Log lines go to the error stream and, if there is a log file, to where that leads as well. -/

namespace LineLexer

/-- Reads a project file. A named one must be there; without a name the default one is read where
there is one. What the reader of project files says of a text that is none is its own affair, and
given by `wording`. -/
def Project.load (d : Disk) (named : Option String) (wording : String → String := fun _ => "") :
    Except Failure Project :=
  match named with
  | some path => file path
  | none => if d.isFile defaultProjectFile then file defaultProjectFile else .ok {}
where
  file (path : String) : Except Failure Project :=
    match d.content path with
    | .error e => .error (.settings (.unreadable path e.message))
    | .ok bytes =>
      match Utf8.decode bytes with
      | .error _ => .error (.settings (.unreadable path "stream did not contain valid UTF-8"))
      | .ok s =>
        match Project.decode? s with
        | some p => .ok p
        | none => .error (.settings (.malformed path (wording s)))

structure Logger where
  filter : LogFilter
  format : LogFormat
  sink : Option Sink

/-- Opens the log; a log file that is not there yet is made. -/
def Logger.start (d : Disk) (s : LoggingSettings) : Except Failure (Logger × Disk) :=
  let filter := LogFilter.ofLimits (.ofSettings s)
  match s.file with
  | none => .ok (⟨filter, s.format, none⟩, d)
  | some path =>
    match d.openForAppend path with
    | .ok (sink, d) => .ok (⟨filter, s.format, some sink⟩, d)
    | .error e => .error (.settings (.logUnopened path e.message))

structure Outcome where
  exitCode : Nat
  stdout : String
  stderr : String
  disk : Disk

/-- A run under way: what has been printed, and the disk as it is now. -/
structure Session where
  disk : Disk
  stdout : String := ""
  stderr : String := ""

namespace Session

def out (s : Session) (text : String) : Session := { s with stdout := s.stdout ++ text }

def err (s : Session) (text : String) : Session := { s with stderr := s.stderr ++ text }

def put (s : Session) (text : String) : Sink → Session
  | .file index => { s with disk := s.disk.append index (Utf8.encode text) }
  | .outlet .output => s.out text
  | .outlet .error => s.err text
  | .outlet .elsewhere => s

def logLine (l : Logger) (s : Session) (line : String) : Session :=
  match l.sink with
  | some sink => (s.err line).put line sink
  | none => s.err line

def log (s : Session) (l : Logger) (events : List LogEvent) : Session :=
  (logLines l.filter l.format events).foldl (logLine l) s

def exit (s : Session) (code : Nat) : Outcome := ⟨code, s.stdout, s.stderr, s.disk⟩

/-- A failure that no memory has room to explain ends the run in another way. -/
def fail (s : Session) (f : Failure) (format : OutputFormat) (source : Option String) : Outcome :=
  match f.print? format source with
  | some text => (s.err text).exit 1
  | none => s.exit 101

end Session

namespace CompileRequest

def event (r : CompileRequest) : LogEvent :=
  ⟨.debug, .cli, "compile requested", [("args", .plain r.describe)]⟩

/-- Reading a file is logged once its bytes are there, be they text or not. -/
def readEvents (d : Disk) (path : String) : List LogEvent :=
  match d.isFile path, d.content path with
  | true, .ok bytes =>
    [⟨.debug, .vfs, "read file", [("path", .plain path), ("bytes", .number bytes.size)]⟩]
  | _, _ => []

def tokenizedEvent (t : Tokenized) : LogEvent :=
  ⟨.debug, .api, "tokenized",
    [("lines", .number t.table.lineCount), ("diagnostics", .number t.diagnostics.length)]⟩

def warnings (diagnostics : List LexError) : String :=
  String.join (diagnostics.map fun e => "warning: " ++ e.kind.name ++ ": " ++ e.message ++ "\n")

/-- Scans the source and prints its tokens, or why there are none. In JSON the listing goes to the
error stream, so that the output stays a JSON text. -/
def printTokens (s : Session) (l : Logger) (p : Project) (source : String) : Outcome :=
  let s :=
    if p.output.showSource then
      match p.output.format with
      | .text => s.out (listing source)
      | .json => s.err (listing source)
    else s
  let lines := Source.ofText source
  let s := s.log l ((Scan.ofSource p.lexer lines).events lines)
  match tokenize p.lexer source with
  | .error f => s.fail f p.output.format (some source)
  | .ok t =>
    let s := s.log l [tokenizedEvent t]
    ((s.err (warnings t.diagnostics)).out (t.table.dump p.output)).exit 0

def runLogged (r : CompileRequest) (p : Project) (l : Logger) (d : Disk) : Outcome :=
  let s : Session := { disk := d }
  let s := s.log l [r.event]
  let source := readSource s.disk.reader r.path
  let s := s.log l (readEvents s.disk r.path)
  match source with
  | .error f => s.fail f p.output.format none
  | .ok source => printTokens s l p source

/-- The paths that a run follows, as far as the disk tells: a log file may be named in the project
file only. -/
def paths (r : CompileRequest) (d : Disk) : List String :=
  let logFile := match Project.load d r.config with
    | .ok p => (r.override p).logging.file
    | .error _ => none
  r.path :: r.config.getD defaultProjectFile :: logFile.toList

/-- A failure before the log is open is reported as text, whatever the format. -/
def run (r : CompileRequest) (d : Disk) (wording : String → String := fun _ => "") : Outcome :=
  match Project.load d r.config wording with
  | .error f => Session.fail { disk := d } f .text none
  | .ok p =>
    let p := r.override p
    match Logger.start d p.logging with
    | .error f => Session.fail { disk := d } f .text none
    | .ok (l, d) => r.runLogged p l d

end CompileRequest

namespace Command

def run (c : Command) (d : Disk) (wording : String → String := fun _ => "") : Outcome :=
  match c with
  | .compile r => r.run d wording
  | .unknown verb => Session.fail { disk := d } (.unknownCommand verb) .text none
  | .version => Session.exit { disk := d, stdout := versionText } 0
  | .help => Session.exit { disk := d, stdout := helpText } 0
  | .misuse => Session.exit { disk := d, stderr := misuseText } 2

def paths (c : Command) (d : Disk) : List String :=
  match c with
  | .compile r => r.paths d
  | _ => []

end Command

end LineLexer
