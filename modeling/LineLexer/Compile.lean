import LineLexer.Failure
import LineLexer.Scanner
import LineLexer.Text.Record

/-! Compiling: finding a file, reading it, and scanning it. What only this step needs from a
project, and a reader of files, are its settings. -/

namespace LineLexer

structure CompileSettings where
  lexer : LexerSettings := {}
  output : OutputSettings := {}
deriving DecidableEq, Repr, Inhabited

namespace CompileSettings

def ofProject (p : Project) : CompileSettings := ⟨p.lexer, p.output⟩

def describe (s : CompileSettings) : String :=
  recordText "RunConfig"
    [("lexer", recordText "LexerConfig"
        [("unrecognized", capitalText s.lexer.unrecognized.name),
         ("strip_quotes", boolText s.lexer.stripQuotes)]),
     ("output", recordText "OutputConfig"
        [("format", capitalText s.output.format.name),
         ("show_source", boolText s.output.showSource), ("tokens", boolText s.output.tokens)])]

end CompileSettings

structure Tokenized where
  table : TokenTable
  diagnostics : List LexError
deriving DecidableEq, Repr

/-- What a new scanner makes of a source. -/
def Tokenized.ofSource (settings : LexerSettings) (source : Source) : Except Failure Tokenized :=
  match (Scanner.new settings).scan source with
  | (.ok table, s) => .ok ⟨table, s.takeDiagnostics.1⟩
  | (.error e, _) => .error (.lexer e)

def tokenize (settings : LexerSettings) (text : String) : Except Failure Tokenized :=
  Tokenized.ofSource settings (.ofText text)

def tokenizeLines (settings : LexerSettings) (lines : List String) : Except Failure Tokenized :=
  Tokenized.ofSource settings (.ofLines lines)

/-- The text of a file. A path that names no file is reported as it was given. -/
def readSource (files : FileReader) (path : String) : Except Failure String :=
  if files.isFile path then
    match files.readText path with
    | .ok s => .ok s
    | .error e => .error (.ofFileError e)
  else .error (.fileNotFound path)

structure Compiled where
  path : String
  source : String
  table : TokenTable
  diagnostics : List LexError
deriving DecidableEq, Repr

def compile (files : FileReader) (settings : CompileSettings) (path : String) :
    Except Failure Compiled := do
  let source ← readSource files path
  let t ← tokenize settings.lexer source
  return ⟨path, source, t.table, t.diagnostics⟩

/-- Compiles with the settings that are installed for the program as a whole. -/
def compileInstalled (files : FileReader) (installed : Option CompileSettings) (path : String) :
    Except Failure Compiled :=
  match installed with
  | some settings => compile files settings path
  | none => .error (.settings .notInstalled)

end LineLexer
