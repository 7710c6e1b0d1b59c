import LineLexer.Json.Printer
import LineLexer.Scan

/-! How tokens are written out: as JSON values, and as the two dumps that a run prints. -/

namespace LineLexer

def Position.toJson (p : Position) : Json :=
  .record [("line", .nat p.line), ("column", .nat p.column), ("byte_offset", .nat p.byteOffset)]

def Span.toJson (s : Span) : Json :=
  .record [("start", s.start.toJson), ("end", s.stop.toJson)]

/-- The literal as a JSON value. A float that is not finite has none and is null. -/
def TokenValue.literalJson? : TokenValue → Option Json
  | .int n => some (.int n)
  | .float x => some (.ofOption .number x.jsonNumber?)
  | .str s => some (.text s)
  | .ident s => some (.text s)
  | .operator _ => none

def Token.toJson (t : Token) : Json :=
  let literal := match t.value.literalJson? with
    | some v => [("literal", v)]
    | none => []
  .record (("kind", .text t.kind.name) :: literal ++ [("span", t.span.toJson)])

namespace TokenTable

def toJson (t : TokenTable) : Json :=
  .record
    [("tokens", .array (t.tokens.map fun row => .array (row.map Token.toJson))),
     ("display", .array (t.display.map fun row => .array (row.map Json.text)))]

def textDump (t : TokenTable) : String :=
  String.join (t.display.zipIdx.map fun row =>
    row.2.repr ++ ": [" ++ ", ".intercalate row.1 ++ "]\n")

def linesJson (rows : List Json) : Json :=
  .record (rows.zipIdx.map fun row => (row.2.repr, row.1))

/-- The displays by line, or with `tokens` the tokens, with sorted keys in pretty form. -/
def jsonDump (t : TokenTable) (tokens : Bool) : String :=
  let rows : List Json :=
    if tokens then t.tokens.map fun row => .array (row.map Token.toJson)
    else t.display.map fun row => .array (row.map Json.text)
  (linesJson rows).sortKeys.pretty ++ "\n"

def dump (t : TokenTable) (settings : OutputSettings) : String :=
  match settings.format with
  | .text => t.textDump
  | .json => t.jsonDump settings.tokens

end TokenTable

end LineLexer
