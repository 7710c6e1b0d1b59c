import LineLexer.Text.Blank

/-! What a character may begin. Every character has one class, and only its class decides how
the lexer goes on from it. -/

namespace LineLexer

inductive Operator where
  | plus
  | minus
  | mul
  | div
deriving DecidableEq, Repr

def Operator.ofChar? : Char → Option Operator
  | '+' => some .plus
  | '-' => some .minus
  | '*' => some .mul
  | '/' => some .div
  | _ => none

def Operator.toChar : Operator → Char
  | .plus => '+'
  | .minus => '-'
  | .mul => '*'
  | .div => '/'

inductive CharClass where
  /-- begins a number -/
  | digit
  /-- begins a string that ends at the next `mark` -/
  | quote (mark : Char)
  | operator (op : Operator)
  /-- separates and is dropped -/
  | blank
  /-- begins nothing -/
  | other
deriving DecidableEq, Repr

def isQuote (c : Char) : Bool := c == '\'' || c == '"'

/-- Characters that a number may go on with. -/
def isNumberPart (c : Char) : Bool := c.isDigit || c == '.'

def CharClass.of (c : Char) : CharClass :=
  if c.isDigit then .digit
  else if isQuote c then .quote c
  else match Operator.ofChar? c with
    | some o => .operator o
    | none => if isBlank c then .blank else .other

theorem Operator.ofChar?_eq_some {c : Char} {o : Operator} (h : Operator.ofChar? c = some o) :
    c = o.toChar := by
  unfold Operator.ofChar? at h
  split at h <;> simp at h <;> subst h <;> rfl

theorem isQuote_iff {c : Char} : isQuote c = true ↔ c = '\'' ∨ c = '"' := by
  simp [isQuote]

namespace CharClass

theorem of_digit {c : Char} (h : c.isDigit = true) : of c = .digit := by
  simp [of, h]

theorem of_quote {c : Char} (h : isQuote c = true) : of c = .quote c := by
  rcases isQuote_iff.mp h with rfl | rfl <;> decide

theorem of_toChar (o : Operator) : of o.toChar = .operator o := by
  cases o <;> decide

theorem isDigit_of_eq_digit {c : Char} (h : of c = .digit) : c.isDigit = true := by
  unfold of at h
  grind

theorem isQuote_of_eq_quote {c mark : Char} (h : of c = .quote mark) :
    isQuote c = true ∧ mark = c := by
  unfold of at h
  grind

theorem eq_toChar_of_eq_operator {c : Char} {o : Operator} (h : of c = .operator o) :
    c = o.toChar := by
  unfold of at h
  grind [Operator.ofChar?_eq_some]

end CharClass

end LineLexer
