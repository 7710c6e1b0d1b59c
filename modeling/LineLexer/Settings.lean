/-! What a run can be told: how to lex, what to log, what to print. A project holds all of it,
and its default values are those of a project file that says nothing. -/

namespace LineLexer

/-- What happens at a character that begins nothing. -/
inductive Policy where
  /-- reported, and the scan goes on -/
  | collect
  /-- dropped -/
  | skip
  /-- the scan fails -/
  | reject
deriving DecidableEq, Repr, Inhabited

namespace Policy

def all : List Policy := [collect, skip, reject]

def name : Policy → String
  | collect => "collect"
  | skip => "skip"
  | reject => "reject"

def ofName? (s : String) : Option Policy := all.find? (·.name == s)

theorem ofName?_name (p : Policy) : ofName? p.name = some p := by
  cases p <;> decide

end Policy

structure LexerSettings where
  unrecognized : Policy := .collect
  /-- keep only what lies between the quotes of a string -/
  stripQuotes : Bool := false
deriving DecidableEq, Repr, Inhabited

inductive LogLevel where
  | trace
  | debug
  | info
  | warn
  | error
deriving DecidableEq, Repr, Inhabited

namespace LogLevel

def all : List LogLevel := [trace, debug, info, warn, error]

def name : LogLevel → String
  | trace => "trace"
  | debug => "debug"
  | info => "info"
  | warn => "warn"
  | error => "error"

def ofName? (s : String) : Option LogLevel := all.find? (·.name == s)

theorem ofName?_name (l : LogLevel) : ofName? l.name = some l := by
  cases l <;> decide

def severity : LogLevel → Nat
  | trace => 0
  | debug => 1
  | info => 2
  | warn => 3
  | error => 4

/-- Whether a limit of `limit` lets this level through. -/
def passes (l limit : LogLevel) : Bool := limit.severity ≤ l.severity

/-- A level as a user writes it: letters of any case, and `silent` for the fewest lines. No letter
outside A to Z has one of the letters used here as its lower case. -/
def ofUser? (s : String) : Option LogLevel :=
  let lower := String.ofList (s.toList.map Char.toLower)
  if lower = "silent" then some .error else ofName? lower

end LogLevel

inductive LogFormat where
  | pretty
  | compact
  | json
deriving DecidableEq, Repr, Inhabited

namespace LogFormat

def all : List LogFormat := [pretty, compact, json]

def name : LogFormat → String
  | pretty => "pretty"
  | compact => "compact"
  | json => "json"

def ofName? (s : String) : Option LogFormat := all.find? (·.name == s)

theorem ofName?_name (f : LogFormat) : ofName? f.name = some f := by
  cases f <;> decide

end LogFormat

structure LoggingSettings where
  level : LogLevel := .warn
  lexer : Option LogLevel := none
  api : Option LogLevel := none
  vfs : Option LogLevel := none
  format : LogFormat := .compact
  /-- lines are appended to this file too -/
  file : Option String := none
deriving DecidableEq, Repr, Inhabited

inductive OutputFormat where
  | text
  | json
deriving DecidableEq, Repr, Inhabited

namespace OutputFormat

def all : List OutputFormat := [text, json]

def name : OutputFormat → String
  | text => "text"
  | json => "json"

def ofName? (s : String) : Option OutputFormat := all.find? (·.name == s)

theorem ofName?_name (f : OutputFormat) : ofName? f.name = some f := by
  cases f <;> decide

end OutputFormat

structure OutputSettings where
  format : OutputFormat := .text
  /-- echo the numbered source first -/
  showSource : Bool := false
  /-- in JSON, whole tokens instead of their display -/
  tokens : Bool := false
deriving DecidableEq, Repr, Inhabited

structure Project where
  lexer : LexerSettings := {}
  logging : LoggingSettings := {}
  output : OutputSettings := {}
deriving DecidableEq, Repr, Inhabited

def defaultProjectFile : String := "basil.json"

end LineLexer
