import LineLexer.Json

/-! The two printed forms of a JSON value: compact, on one line, and pretty, with one entry on
each line. Strings are escaped only where JSON demands it. -/

namespace LineLexer

namespace Json

def hexDigits (width n : Nat) : List Char :=
  let ds := Nat.toDigits 16 n
  List.replicate (width - ds.length) '0' ++ ds

def escapeChar (c : Char) : List Char :=
  if c = '"' then ['\\', '"']
  else if c = '\\' then ['\\', '\\']
  else if c = '\x08' then ['\\', 'b']
  else if c = '\x0c' then ['\\', 'f']
  else if c = '\n' then ['\\', 'n']
  else if c = '\r' then ['\\', 'r']
  else if c = '\t' then ['\\', 't']
  else if c.toNat < 0x20 then '\\' :: 'u' :: hexDigits 4 c.toNat
  else [c]

def quoted (s : String) : String :=
  String.ofList ('"' :: s.toList.flatMap escapeChar ++ ['"'])

/-- A string without text is shown as one half of a pair. -/
def printString : Option String → String
  | some s => quoted s
  | none => "\"\\ud800\""

mutual

def compact : Json → String
  | .null => "null"
  | .bool b => if b then "true" else "false"
  | .number lexeme => lexeme
  | .string s => printString s
  | .array items => "[" ++ compactItems items ++ "]"
  | .object members => "\x7b" ++ compactMembers members ++ "\x7d"

def compactItems : List Json → String
  | [] => ""
  | [v] => compact v
  | v :: w :: rest => compact v ++ "," ++ compactItems (w :: rest)

def compactMembers : List (Option String × Json) → String
  | [] => ""
  | [(k, v)] => printString k ++ ":" ++ compact v
  | (k, v) :: m :: rest => printString k ++ ":" ++ compact v ++ "," ++ compactMembers (m :: rest)

end

def newLine (depth : Nat) : String :=
  String.ofList ('\n' :: List.replicate (2 * depth) ' ')

mutual

/-- Prints a value whose first line is not indented. Empty arrays and objects stay on it. -/
def prettyAt (depth : Nat) : Json → String
  | .array (v :: items) =>
    "[" ++ newLine (depth + 1) ++ prettyItems (depth + 1) (v :: items) ++ newLine depth ++ "]"
  | .object (m :: members) =>
    "\x7b" ++ newLine (depth + 1) ++ prettyMembers (depth + 1) (m :: members) ++ newLine depth ++
      "\x7d"
  | .array [] => "[]"
  | .object [] => "\x7b\x7d"
  | .null => "null"
  | .bool b => if b then "true" else "false"
  | .number lexeme => lexeme
  | .string s => printString s

def prettyItems (depth : Nat) : List Json → String
  | [] => ""
  | [v] => prettyAt depth v
  | v :: w :: rest => prettyAt depth v ++ "," ++ newLine depth ++ prettyItems depth (w :: rest)

def prettyMembers (depth : Nat) : List (Option String × Json) → String
  | [] => ""
  | [(k, v)] => printString k ++ ": " ++ prettyAt depth v
  | (k, v) :: m :: rest =>
    printString k ++ ": " ++ prettyAt depth v ++ "," ++ newLine depth ++
      prettyMembers depth (m :: rest)

end

def pretty (v : Json) : String := prettyAt 0 v

end Json

end LineLexer
