import LineLexer.Log
import LineLexer.Text.Record

/-! The command line. Arguments are read from left to right; the first that is wrong, or that
asks for help, decides. -/

namespace LineLexer

/-- What a compile command asks for. What is not given is left to the project. -/
structure CompileRequest where
  path : String
  format : Option OutputFormat := none
  showSource : Bool := false
  tokens : Bool := false
  stripQuotes : Bool := false
  unrecognized : Option Policy := none
  logLevel : Option LogLevel := none
  logFile : Option String := none
  logFormat : Option LogFormat := none
  config : Option String := none
deriving DecidableEq, Repr

inductive Command where
  | compile (request : CompileRequest)
  | unknown (verb : String)
  | version
  | help
  /-- arguments that make no command -/
  | misuse
deriving DecidableEq, Repr

namespace CompileRequest

def describe (r : CompileRequest) : String :=
  recordText "CompileArgs"
    [("path", quoteText r.path),
     ("format", optionText (fun f => capitalText f.name) r.format),
     ("show_source", boolText r.showSource),
     ("tokens", boolText r.tokens),
     ("strip_quotes", boolText r.stripQuotes),
     ("unrecognized", optionText (fun p => capitalText p.name) r.unrecognized),
     ("log_level", optionText (fun l => capitalText l.name) r.logLevel),
     ("log_file", optionText quoteText r.logFile),
     ("log_format", optionText (fun f => capitalText f.name) r.logFormat),
     ("config", optionText quoteText r.config)]

/-- The project with what is asked for in place of its own settings. A flag can only set. -/
def override (r : CompileRequest) (p : Project) : Project :=
  { lexer :=
      { unrecognized := r.unrecognized.getD p.lexer.unrecognized
        stripQuotes := p.lexer.stripQuotes || r.stripQuotes }
    logging :=
      { p.logging with
        level := r.logLevel.getD p.logging.level
        format := r.logFormat.getD p.logging.format
        file := r.logFile <|> p.logging.file }
    output :=
      { format := r.format.getD p.output.format
        showSource := p.output.showSource || r.showSource
        tokens := p.output.tokens || r.tokens } }

end CompileRequest

/-- One argument by its form. A single dash is plain. -/
inductive Argument where
  /-- two dashes: only plain arguments follow -/
  | escape
  | long (name : String) (value : Option String)
  | short (letters : List Char)
  | plain (s : String)
deriving DecidableEq, Repr

def Argument.ofString (s : String) : Argument :=
  match s.toList with
  | ['-', '-'] => .escape
  | '-' :: '-' :: r =>
    let name := String.ofList (r.takeWhile (· != '='))
    match r.dropWhile (· != '=') with
    | _ :: v => .long name (some (String.ofList v))
    | [] => .long name none
  | '-' :: c :: r => .short (c :: r)
  | _ => .plain s

inductive Flag where
  | showSource
  | tokens
  | stripQuotes
deriving DecidableEq, Repr

def Flag.ofName? : String → Option Flag
  | "show-source" => some .showSource
  | "tokens" => some .tokens
  | "strip-quotes" => some .stripQuotes
  | _ => none

inductive Setting where
  | format
  | unrecognized
  | logLevel
  | logFile
  | logFormat
  | config
deriving DecidableEq, Repr

def Setting.ofName? : String → Option Setting
  | "format" => some .format
  | "unrecognized" => some .unrecognized
  | "log-level" => some .logLevel
  | "log-file" => some .logFile
  | "log-format" => some .logFormat
  | "config" => some .config
  | _ => none

/-- A request while its arguments are read; the path may still be missing. -/
structure Draft where
  path : Option String := none
  request : CompileRequest := ⟨"", none, false, false, false, none, none, none, none, none⟩
deriving DecidableEq, Repr

namespace Draft

/-- Sets a flag that is not set yet. -/
def flag? (d : Draft) : Flag → Option Draft
  | .showSource =>
    if d.request.showSource then none
    else some { d with request := { d.request with showSource := true } }
  | .tokens =>
    if d.request.tokens then none
    else some { d with request := { d.request with tokens := true } }
  | .stripQuotes =>
    if d.request.stripQuotes then none
    else some { d with request := { d.request with stripQuotes := true } }

/-- Gives an option its value, once. -/
def setting? (d : Draft) (value : String) : Setting → Option Draft
  | .format =>
    if d.request.format.isSome then none
    else (OutputFormat.ofName? value).map fun v =>
      { d with request := { d.request with format := some v } }
  | .unrecognized =>
    if d.request.unrecognized.isSome then none
    else (Policy.ofName? value).map fun v =>
      { d with request := { d.request with unrecognized := some v } }
  | .logLevel =>
    if d.request.logLevel.isSome then none
    else (LogLevel.ofUser? value).map fun v =>
      { d with request := { d.request with logLevel := some v } }
  | .logFile =>
    if d.request.logFile.isSome then none
    else some { d with request := { d.request with logFile := some value } }
  | .logFormat =>
    if d.request.logFormat.isSome then none
    else (LogFormat.ofName? value).map fun v =>
      { d with request := { d.request with logFormat := some v } }
  | .config =>
    if d.request.config.isSome ∨ value = "" then none
    else some { d with request := { d.request with config := some value } }

def path? (d : Draft) (value : String) : Option Draft :=
  if d.path.isSome then none else some { d with path := some value }

def finish (d : Draft) : Command :=
  match d.path with
  | some p => .compile { d.request with path := p }
  | none => .misuse

def readPaths (d : Draft) : List String → Command
  | [] => d.finish
  | a :: rest =>
    match d.path? a with
    | some d => d.readPaths rest
    | none => .misuse

/-- Takes the arguments behind the verb. A value that is not attached to its option is the next
argument, which must be plain. -/
def read (d : Draft) : List String → Command
  | [] => d.finish
  | a :: rest =>
    match Argument.ofString a with
    | .escape => d.readPaths rest
    | .plain s =>
      match d.path? s with
      | some d => d.read rest
      | none => .misuse
    | .short letters => if letters.head? = some 'h' then .help else .misuse
    | .long name value =>
      match Flag.ofName? name, Setting.ofName? name, value with
      | some f, _, none =>
        match d.flag? f with
        | some d => d.read rest
        | none => .misuse
      | none, some s, some v =>
        match d.setting? v s with
        | some d => d.read rest
        | none => .misuse
      | none, some s, none =>
        match rest with
        | v :: rest =>
          match Argument.ofString v with
          | .plain v =>
            match d.setting? v s with
            | some d => d.read rest
            | none => .misuse
          | _ => .misuse
        | [] => .misuse
      | none, none, none => if name = "help" then .help else .misuse
      | _, _, _ => .misuse

end Draft

namespace Command

def ofArguments : List String → Command
  | [] => .misuse
  | a :: rest =>
    match Argument.ofString a with
    | .escape =>
      match rest with
      | verb :: _ => .unknown verb
      | [] => .misuse
    | .long "help" none => .help
    | .long "version" none => .version
    | .long _ _ => .misuse
    | .short letters =>
      if letters.head? = some 'h' then .help
      else if letters.head? = some 'V' then .version
      else .misuse
    | .plain "compile" => Draft.read {} rest
    | .plain "help" =>
      if rest = [] ∨ rest = ["compile"] ∨ rest = ["help"] then .help else .misuse
    | .plain verb => .unknown verb

def versionText : String := "basil 0.1.0\n"

def helpText : String :=
  String.join
    ["Usage: basil compile [OPTIONS] <PATH>\n\n",
     "Tokenizes a source file and prints its tokens.\n\n",
     "Options:\n",
     "  --format <text|json>\n",
     "  --show-source\n",
     "  --tokens\n",
     "  --strip-quotes\n",
     "  --unrecognized <collect|skip|reject>\n",
     "  --log-level <silent|error|warn|info|debug|trace>\n",
     "  --log-file <FILE>\n",
     "  --log-format <pretty|compact|json>\n",
     "  --config <FILE>\n",
     "  -h, --help\n",
     "  -V, --version\n"]

def misuseText : String := "The arguments make no command; see basil --help.\n"

end Command

end LineLexer
