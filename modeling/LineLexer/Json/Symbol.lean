import LineLexer.Json

/-! The symbols of a JSON text: its punctuation, words, numbers and strings, without the blanks
between them. -/

namespace LineLexer

namespace Json

inductive Symbol where
  | openBrace
  | closeBrace
  | openBracket
  | closeBracket
  | comma
  | colon
  | null
  | bool (b : Bool)
  | number (lexeme : String)
  | string (text : Option String)
deriving DecidableEq, Repr

def isJsonBlank (c : Char) : Bool := c == ' ' || c == '\n' || c == '\t' || c == '\r'

/-- A piece of a string: a character, or the code unit of an escape. -/
inductive Piece where
  | char (c : Char)
  | codeUnit (n : Nat)
deriving DecidableEq, Repr

def isHighSurrogate (n : Nat) : Bool := 0xd800 ≤ n && n ≤ 0xdbff

def isLowSurrogate (n : Nat) : Bool := 0xdc00 ≤ n && n ≤ 0xdfff

/-- The text of the pieces. A high surrogate pairs with the low one right behind it; one that is
left alone has no text. -/
def joinPieces : List Piece → Option (List Char)
  | [] => some []
  | .char c :: rest => (joinPieces rest).map (c :: ·)
  | .codeUnit n :: .codeUnit m :: rest =>
    if isHighSurrogate n then
      if isLowSurrogate m then
        (joinPieces rest).map
          (Char.ofNat (0x10000 + (n - 0xd800) * 0x400 + (m - 0xdc00)) :: ·)
      else none
    else if isLowSurrogate n then none
    else (joinPieces (.codeUnit m :: rest)).map (Char.ofNat n :: ·)
  | .codeUnit n :: rest =>
    if isHighSurrogate n || isLowSurrogate n then none
    else (joinPieces rest).map (Char.ofNat n :: ·)

def hexValue? (c : Char) : Option Nat :=
  if c.isDigit then some (c.toNat - '0'.toNat)
  else if 'a' ≤ c ∧ c ≤ 'f' then some (c.toNat - 'a'.toNat + 10)
  else if 'A' ≤ c ∧ c ≤ 'F' then some (c.toNat - 'A'.toNat + 10)
  else none

def codeUnit? (a b c d : Char) : Option Nat := do
  some ((((← hexValue? a) * 16 + (← hexValue? b)) * 16 + (← hexValue? c)) * 16 + (← hexValue? d))

/-- The character that one letter behind a backslash stands for. -/
def unescape? : Char → Option Char
  | '"' => some '"'
  | '\\' => some '\\'
  | '/' => some '/'
  | 'b' => some '\x08'
  | 'f' => some '\x0c'
  | 'n' => some '\n'
  | 'r' => some '\r'
  | 't' => some '\t'
  | _ => none

/-- The pieces of a string up to its closing quote, and what follows. -/
def pieces? : List Char → Option (List Piece × List Char)
  | [] => none
  | '"' :: r => some ([], r)
  | '\\' :: 'u' :: a :: b :: c :: d :: r => do
    let n ← codeUnit? a b c d
    let (ps, rest) ← pieces? r
    some (.codeUnit n :: ps, rest)
  | '\\' :: e :: r => do
    let c ← unescape? e
    let (ps, rest) ← pieces? r
    some (.char c :: ps, rest)
  | c :: r =>
    if c.toNat < 0x20 ∨ c = '\\' then none
    else do
      let (ps, rest) ← pieces? r
      some (.char c :: ps, rest)

def digits? (s : List Char) : Option (List Char × List Char) :=
  match s.takeWhile Char.isDigit with
  | [] => none
  | ds => some (ds, s.dropWhile Char.isDigit)

/-- Zero stands alone; any other number begins with another digit. -/
def whole? : List Char → Option (List Char × List Char)
  | '0' :: r => some (['0'], r)
  | s => digits? s

def fraction? : List Char → Option (List Char × List Char)
  | '.' :: r => (digits? r).map fun x => ('.' :: x.1, x.2)
  | s => some ([], s)

def exponent? : List Char → Option (List Char × List Char)
  | e :: r =>
    if e = 'e' ∨ e = 'E' then
      match r with
      | '+' :: r' => (digits? r').map fun x => (e :: '+' :: x.1, x.2)
      | '-' :: r' => (digits? r').map fun x => (e :: '-' :: x.1, x.2)
      | _ => (digits? r).map fun x => (e :: x.1, x.2)
    else some ([], e :: r)
  | [] => some ([], [])

def unsigned? (s : List Char) : Option (List Char × List Char) := do
  let (w, s) ← whole? s
  let (f, s) ← fraction? s
  let (e, s) ← exponent? s
  some (w ++ f ++ e, s)

def number? : List Char → Option (List Char × List Char)
  | '-' :: r => (unsigned? r).map fun x => ('-' :: x.1, x.2)
  | s => unsigned? s

def word? : (word s : List Char) → Option (List Char)
  | [], s => some s
  | c :: word, d :: s => if c = d then word? word s else none
  | _ :: _, [] => none

/-- The symbol that begins at `c`, with `s` behind it, and what follows the symbol. -/
def Symbol.first? (c : Char) (s : List Char) : Option (Symbol × List Char) :=
  match c with
  | '{' => some (.openBrace, s)
  | '}' => some (.closeBrace, s)
  | '[' => some (.openBracket, s)
  | ']' => some (.closeBracket, s)
  | ',' => some (.comma, s)
  | ':' => some (.colon, s)
  | 'n' => (word? ['u', 'l', 'l'] s).map fun r => (.null, r)
  | 't' => (word? ['r', 'u', 'e'] s).map fun r => (.bool true, r)
  | 'f' => (word? ['a', 'l', 's', 'e'] s).map fun r => (.bool false, r)
  | '"' => (pieces? s).map fun x => (.string ((joinPieces x.1).map String.ofList), x.2)
  | c => (number? (c :: s)).map fun x => (.number (String.ofList x.1), x.2)

theorem length_lt_of_pieces? {s r : List Char} {ps : List Piece}
    (h : pieces? s = some (ps, r)) : r.length < s.length := by
  fun_induction pieces? s generalizing ps r with
  | case1 => simp at h
  | case2 r' =>
    simp only [Option.some.injEq, Prod.mk.injEq] at h
    simp [← h.2]
  | case3 a b c d r' ih =>
    simp only [Option.bind_eq_bind, Option.bind_eq_some_iff] at h
    obtain ⟨n, _, x, hx, h⟩ := h
    simp only [Option.some.injEq, Prod.mk.injEq] at h
    have := ih hx
    simp only [List.length_cons, ← h.2]
    omega
  | case4 e r' _ ih =>
    simp only [Option.bind_eq_bind, Option.bind_eq_some_iff] at h
    obtain ⟨c, _, x, hx, h⟩ := h
    simp only [Option.some.injEq, Prod.mk.injEq] at h
    have := ih hx
    simp only [List.length_cons, ← h.2]
    omega
  | case5 => simp at h
  | case6 c r' _ _ _ _ ih =>
    simp only [Option.bind_eq_bind, Option.bind_eq_some_iff] at h
    obtain ⟨x, hx, h⟩ := h
    simp only [Option.some.injEq, Prod.mk.injEq] at h
    have := ih hx
    simp only [List.length_cons, ← h.2]
    omega

theorem length_lt_of_digits? {s ds r : List Char} (h : digits? s = some (ds, r)) :
    r.length < s.length := by
  have hs : (s.takeWhile Char.isDigit).length + (s.dropWhile Char.isDigit).length = s.length := by
    rw [← List.length_append, List.takeWhile_append_dropWhile]
  unfold digits? at h
  split at h
  · simp at h
  · next hne =>
    simp only [Option.some.injEq, Prod.mk.injEq] at h
    have := List.length_pos_iff.mpr hne
    rw [← h.2]
    omega

theorem length_lt_of_whole? {s w r : List Char} (h : whole? s = some (w, r)) :
    r.length < s.length := by
  unfold whole? at h
  split at h
  · simp only [Option.some.injEq, Prod.mk.injEq] at h
    simp [← h.2]
  · exact length_lt_of_digits? h

theorem length_le_of_fraction? {s f r : List Char} (h : fraction? s = some (f, r)) :
    r.length ≤ s.length := by
  unfold fraction? at h
  split at h
  · obtain ⟨x, hx, h⟩ := Option.map_eq_some_iff.mp h
    simp only [Prod.mk.injEq] at h
    have := length_lt_of_digits? hx
    simp only [List.length_cons, ← h.2]
    omega
  · simp only [Option.some.injEq, Prod.mk.injEq] at h
    simp [← h.2]

theorem length_le_of_exponent? {s e r : List Char} (h : exponent? s = some (e, r)) :
    r.length ≤ s.length := by
  unfold exponent? at h
  split at h
  · split at h
    · split at h
      all_goals
        obtain ⟨x, hx, h⟩ := Option.map_eq_some_iff.mp h
        simp only [Prod.mk.injEq] at h
        have := length_lt_of_digits? hx
        simp only [List.length_cons, ← h.2]
        omega
    · simp only [Option.some.injEq, Prod.mk.injEq] at h
      simp [← h.2]
  · simp only [Option.some.injEq, Prod.mk.injEq] at h
    simp [← h.2]

theorem length_lt_of_unsigned? {s n r : List Char} (h : unsigned? s = some (n, r)) :
    r.length < s.length := by
  simp only [unsigned?, Option.bind_eq_bind, Option.bind_eq_some_iff] at h
  obtain ⟨w, hw, f, hf, e, he, h⟩ := h
  simp only [Option.some.injEq, Prod.mk.injEq] at h
  have h1 := length_lt_of_whole? hw
  have h2 := length_le_of_fraction? hf
  have h3 := length_le_of_exponent? he
  rw [← h.2]
  omega

theorem length_lt_of_number? {s n r : List Char} (h : number? s = some (n, r)) :
    r.length < s.length := by
  unfold number? at h
  split at h
  · obtain ⟨x, hx, h⟩ := Option.map_eq_some_iff.mp h
    simp only [Prod.mk.injEq] at h
    have := length_lt_of_unsigned? hx
    simp only [List.length_cons, ← h.2]
    omega
  · exact length_lt_of_unsigned? h

theorem length_le_of_word? {word s r : List Char} (h : word? word s = some r) :
    r.length ≤ s.length := by
  fun_induction word? word s with
  | case1 => simp_all
  | case2 c word s ih =>
    have := ih h
    simp only [List.length_cons]
    omega
  | case3 => simp at h
  | case4 => simp at h

theorem length_le_of_first? {c : Char} {s r : List Char} {x : Symbol}
    (h : Symbol.first? c s = some (x, r)) : r.length ≤ s.length := by
  unfold Symbol.first? at h
  split at h
  all_goals try
    simp only [Option.some.injEq, Prod.mk.injEq] at h
    exact Nat.le_of_eq (congrArg List.length h.2.symm)
  all_goals
    obtain ⟨y, hy, h⟩ := Option.map_eq_some_iff.mp h
    simp only [Prod.mk.injEq] at h
    rw [← h.2]
  · exact length_le_of_word? hy
  · exact length_le_of_word? hy
  · exact length_le_of_word? hy
  · exact Nat.le_of_lt (length_lt_of_pieces? hy)
  · exact Nat.le_of_lt_succ (length_lt_of_number? hy)

end Json

end LineLexer
