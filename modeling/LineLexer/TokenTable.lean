import LineLexer.Token

/-! Tokens by line. The table keeps two mappings from lines, the tokens and their displays, and
every operation that changes one changes the other. -/

namespace LineLexer

structure TokenTable where
  tokens : List (List Token)
  display : List (List String)
deriving DecidableEq, Repr

inductive TableError where
  | unknownLine (line lines : Nat)
  | indexOutOfBounds (index line count : Nat)
deriving DecidableEq, Repr

namespace TableError

def name : TableError → String
  | unknownLine .. => "UnknownLine"
  | indexOutOfBounds .. => "IndexOutOfBounds"

def message : TableError → String
  | unknownLine line lines =>
    "line " ++ line.repr ++ " was never created (stream has " ++ lines.repr ++ " lines)"
  | indexOutOfBounds index line count =>
    "no token at index " ++ index.repr ++ " on line " ++ line.repr ++ " (line has " ++
      count.repr ++ " tokens)"

end TableError

namespace TokenTable

def empty : TokenTable := ⟨[], []⟩

/-- The table whose lines hold exactly these tokens. -/
def ofRows (rows : List (List Token)) : TokenTable :=
  ⟨rows, rows.map (·.map Token.display)⟩

def create (count : Nat) : TokenTable :=
  ⟨List.replicate count [], List.replicate count []⟩

/-- No table has more lines. -/
def maxLines : Nat := maxSize / 24

def create? (count : Nat) : Option TokenTable :=
  if count ≤ maxLines then some (create count) else none

def lineCount (t : TokenTable) : Nat := t.tokens.length

def tokenCount (t : TokenTable) : Nat := t.tokens.foldr (·.length + ·) 0

def isEmpty (t : TokenTable) : Bool := t.tokenCount == 0

def add (t : TokenTable) (token : Token) (line : Nat) : Except TableError TokenTable :=
  if line < t.lineCount then
    .ok ⟨t.tokens.modify line (· ++ [token]), t.display.modify line (· ++ [token.display])⟩
  else .error (.unknownLine line t.lineCount)

/-- Takes the token at `index` out of a line; the others keep their order. -/
def remove (t : TokenTable) (index line : Nat) : Except TableError (Token × TokenTable) :=
  match t.tokens[line]? with
  | none => .error (.unknownLine line t.lineCount)
  | some row =>
    match row[index]? with
    | none => .error (.indexOutOfBounds index line row.length)
    | some token =>
      .ok (token,
        ⟨t.tokens.modify line (·.eraseIdx index), t.display.modify line (·.eraseIdx index)⟩)

/-- All tokens in order, each with the index of its line. -/
def entries (t : TokenTable) : List (Nat × Token) :=
  t.tokens.zipIdx.flatMap fun row => row.1.map fun token => (row.2, token)

theorem lineCount_ofRows (rows : List (List Token)) : (ofRows rows).lineCount = rows.length := rfl

end TokenTable

end LineLexer
