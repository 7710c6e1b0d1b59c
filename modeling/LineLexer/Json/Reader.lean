import LineLexer.Json.Symbol

/-! Reading a JSON text. One symbol after the other moves a machine whose stack holds the arrays
and objects that are still open, so a text may nest to any depth. -/

namespace LineLexer

namespace Json

/-- An open array or object, with what it holds so far in reverse order. The value of `key` is
still to come. -/
inductive Frame where
  | array (done : List Json)
  | object (done : List (Option String × Json)) (key : Option String)

/-- What has been read, and what may come next. -/
inductive Reading where
  /-- a value -/
  | value (stack : List Frame)
  /-- the first item of an array, or its end -/
  | firstItem (stack : List Frame)
  /-- the first key of an object, or its end -/
  | firstKey (stack : List Frame)
  /-- another key of an object -/
  | nextKey (stack : List Frame) (done : List (Option String × Json))
  /-- the colon behind a key -/
  | afterKey (stack : List Frame) (done : List (Option String × Json)) (key : Option String)
  /-- `v` is complete: more of the frame around it, or its end -/
  | complete (stack : List Frame) (v : Json)

namespace Reading

def open? (stack : List Frame) : Symbol → Option Reading
  | .openBracket => some (.firstItem stack)
  | .openBrace => some (.firstKey stack)
  | .null => some (.complete stack .null)
  | .bool b => some (.complete stack (.bool b))
  | .number lexeme => some (.complete stack (.number lexeme))
  | .string s => some (.complete stack (.string s))
  | _ => none

def close? : List Frame → Json → Symbol → Option Reading
  | .array done :: stack, v, .comma => some (.value (.array (v :: done) :: stack))
  | .array done :: stack, v, .closeBracket => some (.complete stack (.array (v :: done).reverse))
  | .object done key :: stack, v, .comma => some (.nextKey stack ((key, v) :: done))
  | .object done key :: stack, v, .closeBrace =>
    some (.complete stack (.object ((key, v) :: done).reverse))
  | _, _, _ => none

def step? : Reading → Symbol → Option Reading
  | .value stack, x => open? stack x
  | .firstItem stack, .closeBracket => some (.complete stack (.array []))
  | .firstItem stack, x => open? (.array [] :: stack) x
  | .firstKey stack, .closeBrace => some (.complete stack (.object []))
  | .firstKey stack, .string k => some (.afterKey stack [] k)
  | .nextKey stack done, .string k => some (.afterKey stack done k)
  | .afterKey stack done key, .colon => some (.value (.object done key :: stack))
  | .complete stack v, x => close? stack v x
  | _, _ => none

/-- The value, once nothing is open any more. -/
def result? : Reading → Option Json
  | .complete [] v => some v
  | _ => none

/-- Reads all symbols of a text; blanks between them are skipped. -/
def run (r : Reading) : List Char → Option Reading
  | [] => some r
  | c :: s =>
    if isJsonBlank c then run r s
    else
      match h : Symbol.first? c s with
      | none => none
      | some (x, rest) =>
        match r.step? x with
        | none => none
        | some r' =>
          have := length_le_of_first? h
          run r' rest
termination_by s => s.length

end Reading

def parse? (s : String) : Option Json :=
  (Reading.run (.value []) s.toList).bind Reading.result?

end Json

end LineLexer
