import LineLexer.Proofs.Lexeme

/-! A line as a sequence of lexemes and gaps. `Reads` splits a text into items and a rest with the
rest in sight, so no split goes through a number. A scan follows such a split, and each line has
one that ends with the line or at a fault. -/

namespace LineLexer

inductive Item where
  | lexeme (l : Lexeme)
  | gap (c : Char) (h : IsGap c)

namespace Item

def text : Item → List Char
  | lexeme l => l.text
  | gap c _ => [c]

def EndsBefore (i : Item) (rest : List Char) : Prop :=
  match i with
  | lexeme l => l.EndsBefore rest
  | gap .. => True

/-- What a scan finds in an item that begins at `p`. -/
def found (strip : Bool) (p : Position) : Item → List ScanItem
  | lexeme l => [.token ⟨l.value strip, .covering p l.text⟩]
  | gap c _ => if CharClass.of c = .other then [.stray p c] else []

end Item

def itemsText (items : List Item) : List Char := items.flatMap Item.text

def itemsFound (strip : Bool) (p : Position) : List Item → List ScanItem
  | [] => []
  | i :: items => i.found strip p ++ itemsFound strip (p.after i.text) items

/-- The tokens of items of which the first begins at `p`. -/
def itemsTokens (strip : Bool) (p : Position) : List Item → List Token
  | [] => []
  | .lexeme l :: items =>
    ⟨l.value strip, .covering p l.text⟩ :: itemsTokens strip (p.after l.text) items
  | .gap c _ :: items => itemsTokens strip (p.after [c]) items

/-- The stray characters of items of which the first begins at `p`, as errors. -/
def itemsStrays (p : Position) : List Item → List LexError
  | [] => []
  | .lexeme l :: items => itemsStrays (p.after l.text) items
  | .gap c _ :: items =>
    if CharClass.of c = .other then .unrecognized p c :: itemsStrays (p.after [c]) items
    else itemsStrays (p.after [c]) items

theorem tokens_found (strip : Bool) (p : Position) (items : List Item) (e : Option LexError) :
    LineScan.tokens ⟨itemsFound strip p items, e⟩ = itemsTokens strip p items := by
  induction items generalizing p with
  | nil => rfl
  | cons i items ih =>
    have hh := ih (p.after i.text)
    cases i with
    | lexeme l => exact congrArg _ hh
    | gap c h =>
      by_cases ho : CharClass.of c = .other <;>
        simpa [itemsFound, itemsTokens, Item.found, Item.text, LineScan.tokens, ho] using hh

theorem exists_of_mem_itemsTokens {strip : Bool} {p : Position} {items : List Item} {t : Token}
    (h : t ∈ itemsTokens strip p items) : ∃ l, .lexeme l ∈ items ∧ t.value = l.value strip := by
  induction items generalizing p with
  | nil => simp [itemsTokens] at h
  | cons i items ih =>
    cases i with
    | lexeme l =>
      rcases List.mem_cons.mp h with rfl | h
      · exact ⟨l, by simp, rfl⟩
      · obtain ⟨l', hl, ht⟩ := ih h
        exact ⟨l', List.mem_cons_of_mem _ hl, ht⟩
    | gap c hc =>
      obtain ⟨l, hl, ht⟩ := ih h
      exact ⟨l, List.mem_cons_of_mem _ hl, ht⟩

theorem strays_found (strip : Bool) (p : Position) (items : List Item) (e : Option LexError) :
    LineScan.strays ⟨itemsFound strip p items, e⟩ = itemsStrays p items := by
  induction items generalizing p with
  | nil => rfl
  | cons i items ih =>
    have hh := ih (p.after i.text)
    cases i with
    | lexeme l => exact hh
    | gap c h =>
      by_cases ho : CharClass.of c = .other <;>
        simpa [itemsFound, itemsStrays, Item.found, Item.text, LineScan.strays, ho] using hh

/-- `Reads s items rest` says that `s` is the items and then `rest`, each item ending where it
does. -/
inductive Reads : List Char → List Item → List Char → Prop where
  | done (rest : List Char) : Reads rest [] rest
  | step {i : Item} {s rest : List Char} {items : List Item} (ends : i.EndsBefore s)
      (h : Reads s items rest) : Reads (i.text ++ s) (i :: items) rest

namespace Reads

theorem eq_append {s rest : List Char} {items : List Item} (h : Reads s items rest) :
    s = itemsText items ++ rest := by
  induction h with
  | done => rfl
  | step ends h ih => rw [ih, itemsText, itemsText, List.flatMap_cons, List.append_assoc]

theorem split {s rest : List Char} {items more : List Item} (h : Reads s (items ++ more) rest) :
    ∃ middle, Reads s items middle ∧ Reads middle more rest := by
  induction items generalizing s with
  | nil => exact ⟨s, .done s, h⟩
  | cons i items ih =>
    cases h with
    | step ends h =>
      obtain ⟨middle, h, h'⟩ := ih h
      exact ⟨middle, .step ends h, h'⟩

end Reads

namespace Lexeme

theorem exists_cons (l : Lexeme) : ∃ c s, l.text = c :: s := by
  cases l with
  | int run fits =>
    obtain ⟨c, s, h, _⟩ := run.exists_cons
    exact ⟨c, s, h⟩
  | float whole fraction digits =>
    obtain ⟨c, s, h, _⟩ := whole.exists_cons
    exact ⟨c, s ++ '.' :: fraction, by simp [text, h]⟩
  | str mark body quote closed => exact ⟨mark, body ++ [mark], rfl⟩
  | operator op => exact ⟨op.toChar, [], rfl⟩

theorem text_ne_nil (l : Lexeme) : l.text ≠ [] := by
  obtain ⟨c, s, h⟩ := l.exists_cons
  simp [h]

end Lexeme

theorem Fault.exists_cons {kind : LexErrorKind} {text rest : List Char} (h : Fault kind text rest) :
    ∃ c s, text = c :: s := by
  cases h with
  | malformedNumber whole digits rest =>
    obtain ⟨c, s, h, _⟩ := whole.exists_cons
    exact ⟨c, _, by rw [h]; rfl⟩
  | numberOutOfRange run large ends =>
    obtain ⟨c, s, h, _⟩ := run.exists_cons
    exact ⟨c, s, h⟩
  | unterminatedString quote unclosed => exact ⟨_, _, rfl⟩

namespace LineScan

theorem ofChars_lexeme {l : Lexeme} {s : List Char} (strip : Bool) (p : Position)
    (ends : l.EndsBefore s) :
    ofChars strip p (l.text ++ s) =
      (ofChars strip (p.after l.text) s).cons (.token ⟨l.value strip, .covering p l.text⟩) := by
  obtain ⟨c, t, ht⟩ := l.exists_cons
  have hs : l.text ++ s = c :: (t ++ s) := by rw [ht, List.cons_append]
  rw [hs, ofChars_cons, Munch.first_lexeme strip hs ends]

theorem ofChars_gap {c : Char} (strip : Bool) (p : Position) (h : IsGap c) (s : List Char) :
    ofChars strip p (c :: s) =
      if CharClass.of c = .other then (ofChars strip (p.after [c]) s).cons (.stray p c)
      else ofChars strip (p.after [c]) s := by
  rw [ofChars_cons]
  rcases h with h | h <;> simp [Munch.first, h]

theorem ofChars_fault {kind : LexErrorKind} {text rest : List Char} (strip : Bool) (p : Position)
    (h : Fault kind text rest) :
    ofChars strip p (text ++ rest) = ⟨[], some ⟨kind, p, String.ofList text⟩⟩ := by
  obtain ⟨c, t, ht⟩ := h.exists_cons
  have hs : text ++ rest = c :: (t ++ rest) := by rw [ht, List.cons_append]
  rw [hs, ofChars_cons, Munch.first_fault strip h hs]

/-- A scan goes through the items of a split and then on with the rest. -/
theorem ofChars_of_reads {s rest : List Char} {items : List Item} (h : Reads s items rest)
    (strip : Bool) (p : Position) :
    ofChars strip p s =
      ⟨itemsFound strip p items ++ (ofChars strip (p.after (itemsText items)) rest).items,
        (ofChars strip (p.after (itemsText items)) rest).failure⟩ := by
  induction h generalizing p with
  | done rest => rfl
  | @step i s rest items ends h ih =>
    have hp : p.after (itemsText (i :: items)) = (p.after i.text).after (itemsText items) := by
      rw [itemsText, List.flatMap_cons, Position.after_append, itemsText]
    rw [hp]
    cases i with
    | lexeme l =>
      rw [Item.text, ofChars_lexeme strip p ends, ih]
      rfl
    | gap c hc =>
      rw [Item.text, List.singleton_append, ofChars_gap strip p hc, ih]
      by_cases ho : CharClass.of c = .other
      · simp only [ho, if_true, itemsFound, Item.found, Item.text]
        rfl
      · simp only [ho, if_false, itemsFound, Item.found, Item.text]
        rfl

end LineScan

end LineLexer
