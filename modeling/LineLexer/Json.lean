/-! JSON values. Numbers are kept as they are written. A string is the text it denotes; a string
whose escapes leave half of a surrogate pair denotes no text. -/

namespace LineLexer

inductive Json where
  | null
  | bool (b : Bool)
  | number (lexeme : String)
  | string (text : Option String)
  | array (items : List Json)
  | object (members : List (Option String × Json))
deriving Repr, Inhabited

namespace Json

def text (s : String) : Json := .string (some s)

def nat (n : Nat) : Json := .number n.repr

def int (n : Int) : Json := .number n.repr

def record (members : List (String × Json)) : Json :=
  .object (members.map fun m => (some m.1, m.2))

def ofOption (f : α → Json) : Option α → Json
  | some a => f a
  | none => .null

mutual

/-- The value with the members of every object in ascending order of their keys. -/
def sortKeys : Json → Json
  | .array items => .array (sortItems items)
  | .object members =>
    .object ((sortMembers members).mergeSort fun a b => !decide (b.1.getD "" < a.1.getD ""))
  | v => v

def sortItems : List Json → List Json
  | [] => []
  | v :: rest => sortKeys v :: sortItems rest

def sortMembers : List (Option String × Json) → List (Option String × Json)
  | [] => []
  | (k, v) :: rest => (k, sortKeys v) :: sortMembers rest

end

/-- The fields of a record, by name, in the order of `names`. An object may have other members
too, but no field twice and no key without text. An array gives the fields in order and may end
early. -/
def fields? (names : List String) : Json → Option (List (Option Json))
  | .array items =>
    if items.length ≤ names.length then
      some (items.map some ++ List.replicate (names.length - items.length) none)
    else none
  | .object members =>
    if members.any (·.1.isNone) then none
    else names.mapM fun name =>
      match members.filter (·.1 == some name) with
      | [] => some none
      | [m] => some (some m.2)
      | _ => none
  | _ => none

/-- The choice that a value names: by a string, or by an object with this key and null. -/
def choice? (ofName? : String → Option α) : Json → Option α
  | .string (some name) => ofName? name
  | .object [(some name, .null)] => ofName? name
  | _ => none

def bool? : Json → Option Bool
  | .bool b => some b
  | _ => none

def text? : Json → Option String
  | .string s => s
  | _ => none

/-- Null stands for nothing. -/
def optional? (f : Json → Option α) : Json → Option (Option α)
  | .null => some none
  | v => (f v).map some

end Json

end LineLexer
