import LineLexer.Files.Error
import LineLexer.Json.Printer
import LineLexer.LexError
import LineLexer.Listing
import LineLexer.Settings

/-! Everything that can end a run, and its report. A report is the same for people and for
tools: as one line of text, or as JSON on one line. -/

namespace LineLexer

inductive SettingsError where
  | unreadable (path reason : String)
  | malformed (path : String) (reason : String := "")
  | logUnopened (path reason : String)
  /-- no settings have been installed for the program as a whole -/
  | notInstalled
  | other (message : String)
deriving DecidableEq, Repr

def SettingsError.message : SettingsError → String
  | unreadable path reason => "cannot read '" ++ path ++ "': " ++ reason
  | malformed path reason => "cannot parse '" ++ path ++ "': " ++ reason
  | logUnopened path reason => "cannot open log file '" ++ path ++ "': " ++ reason
  | notInstalled => "global configuration not initialized"
  | other message => message

inductive Failure where
  | unknownCommand (verb : String)
  | fileNotFound (path : String)
  | file (e : FileError)
  | lexer (e : LexError)
  | settings (e : SettingsError)
deriving DecidableEq, Repr

namespace Failure

/-- A file that is not there is reported by its path alone. -/
def ofFileError (e : FileError) : Failure :=
  if e.isNotFound then .fileNotFound e.path else .file e

def phase : Failure → String
  | unknownCommand _ => "cli"
  | fileNotFound _ => "vfs"
  | file _ => "vfs"
  | lexer _ => "lexer"
  | settings _ => "config"

def kind : Failure → String
  | unknownCommand _ => "UnknownCommand"
  | fileNotFound _ => "FileNotFound"
  | file _ => "IoError"
  | lexer e => e.kind.name
  | settings _ => "ConfigError"

def message : Failure → String
  | unknownCommand verb => "Command '" ++ verb ++ "' does not exist!"
  | fileNotFound path => "File '" ++ path ++ "' could not be found!"
  | file e => e.message
  | lexer e => e.message
  | settings e => e.message

def lexError? : Failure → Option LexError
  | lexer e => some e
  | _ => none

def position? (f : Failure) : Option Position := f.lexError?.map (·.position)

def report (f : Failure) : String := f.kind ++ ": " ++ f.message

/-- The report as JSON. The offending text is there only for a failure of the lexer. -/
def toJson (f : Failure) : Json :=
  let place (part : Position → Nat) : Json := .ofOption (fun p => .nat (part p)) f.position?
  let text := match f.lexError? with
    | some e => [("text", Json.text e.text)]
    | none => []
  .record
    ([("phase", .text f.phase), ("line", place (·.line)), ("column", place (·.column)),
      ("byte_offset", place (·.byteOffset)), ("error_kind", .text f.kind),
      ("message", .text f.message)] ++ text)

/-- The report, and the place in the source if there is one and the source is known. -/
def explain? (f : Failure) (source : Option String) : Option String :=
  let context := match f.position?, source with
    | some p, some s => Context.around? s p.line p.column
    | _, _ => some ""
  context.map (f.report ++ "\n" ++ ·)

def print? (f : Failure) (format : OutputFormat) (source : Option String) : Option String :=
  match format with
  | .text => f.explain? source
  | .json => some (f.toJson.compact ++ "\n")

end Failure

end LineLexer
