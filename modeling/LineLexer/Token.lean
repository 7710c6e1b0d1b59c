import LineLexer.Binary64.Text
import LineLexer.CharClass
import LineLexer.Position

/-! Tokens. The value of a token fixes its kind, so a literal is there exactly when the kind
carries one. -/

namespace LineLexer

inductive TokenKind where
  | int
  | float
  | str
  | ident
  | operator (op : Operator)
deriving DecidableEq, Repr

namespace TokenKind

def all : List TokenKind :=
  [int, float, str, ident, operator .plus, operator .minus, operator .mul, operator .div]

def name : TokenKind → String
  | int => "INT"
  | float => "FLOAT"
  | str => "STR"
  | ident => "IDENT"
  | operator .plus => "PLUS"
  | operator .minus => "MINUS"
  | operator .mul => "MUL"
  | operator .div => "DIV"

def hasLiteral : TokenKind → Bool
  | operator _ => false
  | _ => true

end TokenKind

inductive TokenValue where
  | int (value : Int)
  | float (value : Binary64)
  | str (text : String)
  | ident (name : String)
  | operator (op : Operator)
deriving DecidableEq, Repr

namespace TokenValue

def kind : TokenValue → TokenKind
  | int _ => .int
  | float _ => .float
  | str _ => .str
  | ident _ => .ident
  | operator o => .operator o

def literal? : TokenValue → Option String
  | int n => some n.repr
  | float x => some x.plain
  | str s => some s
  | ident s => some s
  | operator _ => none

end TokenValue

structure Token where
  value : TokenValue
  span : Span
deriving DecidableEq, Repr

namespace Token

def kind (t : Token) : TokenKind := t.value.kind

def operator? (c : Char) (span : Span) : Option Token :=
  (Operator.ofChar? c).map fun o => ⟨.operator o, span⟩

def display (t : Token) : String :=
  match t.value.literal? with
  | some s => t.kind.name ++ ":" ++ s
  | none => t.kind.name

end Token

end LineLexer
