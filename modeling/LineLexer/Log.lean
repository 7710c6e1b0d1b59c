import LineLexer.Json.Printer
import LineLexer.Listing
import LineLexer.Settings
import LineLexer.Text.Quoted

/-! The log. Every event belongs to a phase of the run and names it as its target; a filter lets
it through by the level that is set for the target. -/

namespace LineLexer

inductive Phase where
  | lexer
  | api
  | vfs
  | cli
deriving DecidableEq, Repr

namespace Phase

/-- In the order in which a run passes through them. -/
def all : List Phase := [vfs, lexer, api, cli]

def name : Phase → String
  | lexer => "lexer"
  | api => "api"
  | vfs => "vfs"
  | cli => "cli"

def target (p : Phase) : String := "basil::" ++ p.name

end Phase

/-- The level for every target, and levels for some phases in particular. -/
structure LogLimits where
  global : LogLevel := .warn
  lexer : Option LogLevel := none
  api : Option LogLevel := none
  vfs : Option LogLevel := none
deriving DecidableEq, Repr, Inhabited

namespace LogLimits

def ofSettings (s : LoggingSettings) : LogLimits := ⟨s.level, s.lexer, s.api, s.vfs⟩

def levelFor (limits : LogLimits) (target : String) : LogLevel :=
  let own :=
    if target = Phase.lexer.target then limits.lexer
    else if target = Phase.api.target then limits.api
    else if target = Phase.vfs.target then limits.vfs
    else none
  own.getD limits.global

end LogLimits

/-- Levels by the beginning of a target. -/
structure LogFilter where
  fallback : LogLevel
  entries : List (String × LogLevel)
deriving DecidableEq, Repr

namespace LogFilter

def ofLimits (limits : LogLimits) : LogFilter :=
  ⟨limits.global, Phase.all.map fun p => (p.target, limits.levelFor p.target)⟩

def longer (a b : String × LogLevel) : String × LogLevel :=
  if a.1.length < b.1.length then b else a

/-- The level of the longest entry that the target begins with. -/
def levelFor (f : LogFilter) (target : String) : LogLevel :=
  match f.entries.filter fun e => e.1.toList.isPrefixOf target.toList with
  | [] => f.fallback
  | e :: rest => (rest.foldl longer e).2

def enables (f : LogFilter) (target : String) (level : LogLevel) : Bool :=
  level.passes (f.levelFor target)

end LogFilter

inductive LogValue where
  | number (n : Nat)
  /-- text that is quoted in a line -/
  | quoted (s : String)
  /-- text that stands in a line as it is -/
  | plain (s : String)
deriving DecidableEq, Repr

structure LogEvent where
  level : LogLevel
  phase : Phase
  message : String
  fields : List (String × LogValue)
deriving DecidableEq, Repr

def LogLevel.label (l : LogLevel) : String :=
  String.ofList (l.name.toList.map Char.toUpper)

def LogValue.inLine : LogValue → String
  | number n => n.repr
  | quoted s => quoteText s
  | plain s => s

def LogValue.toJson : LogValue → Json
  | number n => .nat n
  | quoted s => .text s
  | plain s => .text s

namespace LogEvent

def compact (e : LogEvent) : String :=
  alignRight 5 e.level.label ++ " " ++ e.phase.target ++ ": " ++ e.message ++
    String.join (e.fields.map fun f => " " ++ f.1 ++ "=" ++ f.2.inLine) ++ "\n"

/-- Without the time of day that such a line begins with, and the line in the program behind it. -/
def pretty (e : LogEvent) : String :=
  "  " ++ alignRight 5 e.level.label ++ " " ++ e.phase.target ++ ": " ++ e.message ++
    String.join (e.fields.map fun f => ", " ++ f.1 ++ ": " ++ f.2.inLine) ++ "\n\n"

/-- A JSON object on one line; the message is its first field. The time of day, which the object
begins with, is left out. -/
def json (e : LogEvent) : String :=
  (Json.record
    [("level", .text e.level.label),
     ("fields", .record (("message", .text e.message) ::
       e.fields.map fun f => (f.1, f.2.toJson))),
     ("target", .text e.phase.target)]).compact ++ "\n"

def render (e : LogEvent) : LogFormat → String
  | .pretty => e.pretty
  | .compact => e.compact
  | .json => e.json

end LogEvent

/-- The lines of the events that the filter lets through. -/
def logLines (filter : LogFilter) (format : LogFormat) (events : List LogEvent) : List String :=
  (events.filter fun e => filter.enables e.phase.target e.level).map (·.render format)

end LineLexer
