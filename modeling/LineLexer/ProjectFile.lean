import LineLexer.Json.Printer
import LineLexer.Json.Reader
import LineLexer.Settings

/-! The project file: settings as a JSON text. What is written has every field; what is read may
leave any out, which then has its default value. -/

namespace LineLexer

def LexerSettings.toJson (s : LexerSettings) : Json :=
  .record [("unrecognized", .text s.unrecognized.name), ("strip_quotes", .bool s.stripQuotes)]

def LoggingSettings.toJson (s : LoggingSettings) : Json :=
  let level (l : LogLevel) : Json := .text l.name
  .record
    [("level", level s.level), ("lexer", .ofOption level s.lexer), ("api", .ofOption level s.api),
     ("vfs", .ofOption level s.vfs), ("format", .text s.format.name),
     ("file", .ofOption .text s.file)]

def OutputSettings.toJson (s : OutputSettings) : Json :=
  .record
    [("format", .text s.format.name), ("show_source", .bool s.showSource),
     ("tokens", .bool s.tokens)]

def Project.toJson (p : Project) : Json :=
  .record
    [("lexer", p.lexer.toJson), ("logging", p.logging.toJson), ("output", p.output.toJson)]

/-- The value of a field, or its default where the field is missing. -/
def fieldOr (default : α) (read? : Json → Option α) : Option Json → Option α
  | some v => read? v
  | none => some default

def LexerSettings.ofJson? (v : Json) : Option LexerSettings := do
  match ← v.fields? ["unrecognized", "strip_quotes"] with
  | [unrecognized, stripQuotes] =>
    some
      { unrecognized := ← fieldOr .collect (Json.choice? Policy.ofName?) unrecognized
        stripQuotes := ← fieldOr false Json.bool? stripQuotes }
  | _ => none

def LoggingSettings.ofJson? (v : Json) : Option LoggingSettings := do
  let level? := Json.choice? LogLevel.ofName?
  match ← v.fields? ["level", "lexer", "api", "vfs", "format", "file"] with
  | [level, lexer, api, vfs, format, file] =>
    some
      { level := ← fieldOr .warn level? level
        lexer := ← fieldOr none (Json.optional? level?) lexer
        api := ← fieldOr none (Json.optional? level?) api
        vfs := ← fieldOr none (Json.optional? level?) vfs
        format := ← fieldOr .compact (Json.choice? LogFormat.ofName?) format
        file := ← fieldOr none (Json.optional? Json.text?) file }
  | _ => none

def OutputSettings.ofJson? (v : Json) : Option OutputSettings := do
  match ← v.fields? ["format", "show_source", "tokens"] with
  | [format, showSource, tokens] =>
    some
      { format := ← fieldOr .text (Json.choice? OutputFormat.ofName?) format
        showSource := ← fieldOr false Json.bool? showSource
        tokens := ← fieldOr false Json.bool? tokens }
  | _ => none

def Project.ofJson? (v : Json) : Option Project := do
  match ← v.fields? ["lexer", "logging", "output"] with
  | [lexer, logging, output] =>
    some
      { lexer := ← fieldOr {} LexerSettings.ofJson? lexer
        logging := ← fieldOr {} LoggingSettings.ofJson? logging
        output := ← fieldOr {} OutputSettings.ofJson? output }
  | _ => none

namespace Project

def encode (p : Project) : String := p.toJson.compact

def decode? (s : String) : Option Project := (Json.parse? s).bind ofJson?

end Project

end LineLexer
