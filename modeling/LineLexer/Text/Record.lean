/-! A record for people to read: its name and its fields in braces. -/

namespace LineLexer

def recordText (name : String) (fields : List (String × String)) : String :=
  name ++ " \x7b " ++ ", ".intercalate (fields.map fun f => f.1 ++ ": " ++ f.2) ++ " \x7d"

def optionText (f : α → String) : Option α → String
  | some a => "Some(" ++ f a ++ ")"
  | none => "None"

def boolText (b : Bool) : String := if b then "true" else "false"

def capitalText (s : String) : String :=
  match s.toList with
  | c :: r => String.ofList (c.toUpper :: r)
  | [] => ""

end LineLexer
