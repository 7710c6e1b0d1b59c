import LineLexer.Json.Printer
import LineLexer.Json.Reader
import LineLexer.Proofs.SymbolText

/-! A JSON value that is printed is read back. Both printed forms of a value spell the same symbols
with other blanks between them, and the reader comes from the symbols to the value. -/

namespace LineLexer

namespace Json

theorem induct {P : Json → Prop} (null : P .null) (bool : ∀ b, P (.bool b))
    (number : ∀ lexeme, P (.number lexeme)) (string : ∀ text, P (.string text))
    (array : ∀ items, (∀ v ∈ items, P v) → P (.array items))
    (object : ∀ members, (∀ m ∈ members, P m.2) → P (.object members)) : ∀ v, P v
  | .null => null
  | .bool b => bool b
  | .number lexeme => number lexeme
  | .string text => string text
  | .array items => array items fun v _ => induct null bool number string array object v
  | .object members => object members fun m _ => induct null bool number string array object m.2
termination_by v => sizeOf v
decreasing_by
  · next h =>
    have hv := List.sizeOf_lt_of_mem h
    simp only [Json.array.sizeOf_spec]
    omega
  · next h =>
    have hm := List.sizeOf_lt_of_mem h
    obtain ⟨k, v⟩ := m
    simp only [Json.object.sizeOf_spec, Prod.mk.sizeOf_spec] at hm ⊢
    omega

theorem codeUnit?_hexDigits :
    ∀ n < 0x20, ∃ a b c d, hexDigits 4 n = [a, b, c, d] ∧ codeUnit? a b c d = some n := by
  intro n hn
  refine ⟨(hexDigits 4 n)[0]!, (hexDigits 4 n)[1]!, (hexDigits 4 n)[2]!, (hexDigits 4 n)[3]!, ?_⟩
  revert n
  decide

/-- The characters that are written as a backslash and one letter. -/
def letterEscapes : List Char := ['"', '\\', '\x08', '\x0c', '\n', '\r', '\t']

theorem exists_letter {c : Char} (h : c ∈ letterEscapes) :
    ∃ e, escapeChar c = ['\\', e] ∧ (e, c) ∈ letters := by
  simp only [letterEscapes, List.mem_cons, List.not_mem_nil, or_false] at h
  rcases h with rfl | rfl | rfl | rfl | rfl | rfl | rfl
  exacts [⟨'"', rfl, by decide⟩, ⟨'\\', rfl, by decide⟩, ⟨'b', rfl, by decide⟩,
    ⟨'f', rfl, by decide⟩, ⟨'n', rfl, by decide⟩, ⟨'r', rfl, by decide⟩, ⟨'t', rfl, by decide⟩]

theorem escapeChar_of_not_mem {c : Char} (h : c ∉ letterEscapes) :
    escapeChar c = if c.toNat < 0x20 then '\\' :: 'u' :: hexDigits 4 c.toNat else [c] := by
  simp only [letterEscapes, List.mem_cons, List.not_mem_nil, or_false, not_or] at h
  simp only [escapeChar, h, if_false]

/-- What is written for a character is one piece, which stands for the character. -/
theorem exists_piece (c : Char) :
    ∃ p, IsPiece p (escapeChar c) ∧ ∀ ps s, Denote ps s → Denote (p :: ps) (c :: s) := by
  by_cases hletter : c ∈ letterEscapes
  · obtain ⟨e, hescape, he⟩ := exists_letter hletter
    exact ⟨.char c, hescape ▸ .letter he, fun _ _ h => .char c h⟩
  rw [escapeChar_of_not_mem hletter]
  by_cases hcontrol : c.toNat < 0x20
  · obtain ⟨a, b, d, e, hhex, hunit⟩ := codeUnit?_hexDigits c.toNat hcontrol
    refine ⟨.codeUnit c.toNat, ?_, fun _ _ h => .single (by omega) h⟩
    rw [if_pos hcontrol, hhex]
    exact codeUnit?_eq_some_iff.mp hunit
  · have hquote : c ≠ '"' := fun h => hletter (by simp [letterEscapes, h])
    have hslash : c ≠ '\\' := fun h => hletter (by simp [letterEscapes, h])
    refine ⟨.char c, ?_, fun _ _ h => .char c h⟩
    rw [if_neg hcontrol]
    exact .plain (Nat.not_lt.mp hcontrol) hquote hslash

theorem isWritten_quoted (s : String) :
    Symbol.IsWritten (.string (some s)) (quoted s).toList := by
  have hpieces : ∀ t : List Char, ∃ ps, ArePieces ps (t.flatMap escapeChar) ∧ Denote ps t := by
    intro t
    induction t with
    | nil => exact ⟨[], .nil, .nil⟩
    | cons c t ih =>
      obtain ⟨ps, hps, hdenote⟩ := ih
      obtain ⟨p, hp, hc⟩ := exists_piece c
      exact ⟨p :: ps, .cons hp hps, hc ps t hdenote⟩
  obtain ⟨ps, hps, hdenote⟩ := hpieces s.toList
  rw [quoted, String.toList_ofList]
  exact .string hps hdenote

/-- `Spells s xs rest` says that `s` is these symbols, with blanks between them, and then `rest`. -/
inductive Spells : List Char → List Symbol → List Char → Prop where
  | done (rest : List Char) : Spells rest [] rest
  | blank {c : Char} {s rest : List Char} {xs : List Symbol} (hc : isJsonBlank c = true)
      (h : Spells s xs rest) : Spells (c :: s) xs rest
  | symbol {c : Char} {s next rest : List Char} {x : Symbol} {xs : List Symbol}
      (hc : isJsonBlank c = false) (hx : Symbol.first? c s = some (x, next))
      (h : Spells next xs rest) : Spells (c :: s) (x :: xs) rest

theorem Spells.run {s t : List Char} {xs : List Symbol} (h : Spells s xs t) (r : Reading) :
    r.run s = (xs.foldlM Reading.step? r).bind (·.run t) := by
  induction h generalizing r with
  | done => rfl
  | blank hc h ih =>
    rw [Reading.run, if_pos hc]
    exact ih r
  | @symbol c s next rest x xs hc hx h ih =>
    rw [Reading.run, if_neg (by simp [hc]), List.foldlM_cons]
    split
    · next hnone => simp [hx] at hnone
    · next y after hsome =>
      obtain ⟨rfl, rfl⟩ : x = y ∧ next = after := by simpa [hx] using hsome
      cases r.step? x with
      | none => rfl
      | some r' => exact ih r'

mutual

def symbols : Json → List Symbol
  | .null => [.null]
  | .bool b => [.bool b]
  | .number lexeme => [.number lexeme]
  | .string text => [.string text]
  | .array items => .openBracket :: itemSymbols items ++ [.closeBracket]
  | .object members => .openBrace :: memberSymbols members ++ [.closeBrace]

def itemSymbols : List Json → List Symbol
  | [] => []
  | [v] => symbols v
  | v :: w :: rest => symbols v ++ .comma :: itemSymbols (w :: rest)

def memberSymbols : List (Option String × Json) → List Symbol
  | [] => []
  | [(k, v)] => .string k :: .colon :: symbols v
  | (k, v) :: m :: rest => .string k :: .colon :: symbols v ++ .comma :: memberSymbols (m :: rest)

end

namespace Reading

/-- A value may come next, and `stack` will be open around it. -/
def Awaits (r : Reading) (stack : List Frame) : Prop :=
  r = .value stack ∨ ∃ outer, r = .firstItem outer ∧ stack = .array [] :: outer

/-- A key may come next, in an object with these members before it. -/
def AwaitsKey (r : Reading) (stack : List Frame) (done : List (Option String × Json)) : Prop :=
  r = .nextKey stack done ∨ r = .firstKey stack ∧ done = []

variable {r : Reading} {stack : List Frame}

theorem step?_of_awaits (h : r.Awaits stack) {x : Symbol} (hx : x ≠ .closeBracket) :
    r.step? x = open? stack x := by
  rcases h with rfl | ⟨outer, rfl, rfl⟩
  · rfl
  · cases x <;> simp_all [step?]

theorem step?_of_awaitsKey {done : List (Option String × Json)} (h : r.AwaitsKey stack done)
    (k : Option String) : r.step? (.string k) = some (.afterKey stack done k) := by
  rcases h with rfl | ⟨rfl, rfl⟩ <;> rfl

/-- The symbols of `v` lead to `v`, wherever a value may come. -/
def Reads (v : Json) : Prop :=
  ∀ r stack, Awaits r stack → (symbols v).foldlM step? r = some (.complete stack v)

theorem foldlM_value {v : Json} (hv : Reads v) (h : r.Awaits stack) (xs : List Symbol) :
    (symbols v ++ xs).foldlM step? r = xs.foldlM step? (.complete stack v) := by
  rw [List.foldlM_append, hv r stack h]
  rfl

theorem foldlM_member {k : Option String} {v : Json} {done : List (Option String × Json)}
    (hv : Reads v) (h : r.AwaitsKey stack done) (xs : List Symbol) :
    (.string k :: .colon :: (symbols v ++ xs)).foldlM step? r =
      xs.foldlM step? (.complete (.object done k :: stack) v) := by
  rw [List.foldlM_cons, step?_of_awaitsKey h k]
  exact foldlM_value hv (.inl rfl) xs

theorem foldlM_items {v : Json} {items done : List Json} (hv : ∀ w ∈ v :: items, Reads w)
    (h : r.Awaits (.array done :: stack)) :
    (itemSymbols (v :: items) ++ [Symbol.closeBracket]).foldlM step? r =
      some (.complete stack (.array (done.reverse ++ v :: items))) := by
  induction items generalizing v done r with
  | nil =>
    rw [itemSymbols, foldlM_value (hv v (by simp)) h]
    simp [step?, close?]
  | cons w items ih =>
    have hrest := ih (fun u hu => hv u (List.mem_cons_of_mem _ hu))
      (show Awaits (.value (.array (v :: done) :: stack)) _ from .inl rfl)
    rw [List.reverse_cons, List.append_assoc] at hrest
    rw [itemSymbols, List.append_assoc, foldlM_value (hv v (by simp)) h]
    exact hrest

theorem foldlM_members {m : Option String × Json} {members done : List (Option String × Json)}
    (hm : ∀ n ∈ m :: members, Reads n.2) (h : r.AwaitsKey stack done) :
    (memberSymbols (m :: members) ++ [Symbol.closeBrace]).foldlM step? r =
      some (.complete stack (.object (done.reverse ++ m :: members))) := by
  induction members generalizing m done r with
  | nil =>
    have hfirst := foldlM_member (hm m (by simp)) h [Symbol.closeBrace] (k := m.1)
    refine hfirst.trans ?_
    simp [step?, close?]
  | cons n members ih =>
    have hrest := ih (fun u hu => hm u (List.mem_cons_of_mem _ hu))
      (show AwaitsKey (.nextKey stack (m :: done)) _ _ from .inl rfl)
    rw [List.reverse_cons, List.append_assoc] at hrest
    rw [memberSymbols, List.append_assoc]
    exact (foldlM_member (hm m (by simp)) h _).trans hrest

theorem reads (v : Json) : Reads v := by
  induction v using induct with
  | null => exact fun r stack h => by simp [symbols, step?_of_awaits h, open?]
  | bool b => exact fun r stack h => by simp [symbols, step?_of_awaits h, open?]
  | number lexeme => exact fun r stack h => by simp [symbols, step?_of_awaits h, open?]
  | string text => exact fun r stack h => by simp [symbols, step?_of_awaits h, open?]
  | array items ih =>
    intro r stack h
    have hopen : r.step? .openBracket = some (.firstItem stack) := step?_of_awaits h (by simp)
    rw [symbols, List.cons_append, List.foldlM_cons, hopen]
    cases items with
    | nil => rfl
    | cons v items => exact foldlM_items ih (.inr ⟨stack, rfl, rfl⟩)
  | object members ih =>
    intro r stack h
    have hopen : r.step? .openBrace = some (.firstKey stack) := step?_of_awaits h (by simp)
    rw [symbols, List.cons_append, List.foldlM_cons, hopen]
    cases members with
    | nil => rfl
    | cons m members => exact foldlM_members ih (.inr ⟨rfl, rfl⟩)

end Reading

theorem parse?_of_spells {s : String} {v : Json} (h : Spells s.toList (symbols v) []) :
    parse? s = some v := by
  have hv := Reading.reads v (.value []) [] (.inl rfl)
  rw [parse?, h.run, hv, Option.bind_some, Reading.run]
  rfl

/-- Every number of the value is one, and every string has a text. -/
inductive Printable : Json → Prop where
  | null : Printable .null
  | bool (b : Bool) : Printable (.bool b)
  | number {lexeme : String} (h : IsNumber lexeme.toList) : Printable (.number lexeme)
  | text (s : String) : Printable (.text s)
  | array {items : List Json} (h : ∀ v ∈ items, Printable v) : Printable (.array items)
  | object {members : List (Option String × Json)} (keys : ∀ m ∈ members, m.1.isSome = true)
      (values : ∀ m ∈ members, Printable m.2) : Printable (.object members)

section printing

variable {s t : List Char} {xs : List Symbol}

theorem spells_blanks {gap : List Char} (hgap : ∀ c ∈ gap, isJsonBlank c = true)
    (h : Spells s xs t) : Spells (gap ++ s) xs t := by
  induction gap with
  | nil => exact h
  | cons c gap ih =>
    exact .blank (hgap c (by simp)) (ih fun d hd => hgap d (List.mem_cons_of_mem _ hd))

theorem spells_written {x : Symbol} {w : List Char} (hx : x.IsWritten w)
    (hs : ∀ lexeme, x = .number lexeme → EndsNumber s) (h : Spells s xs t) :
    Spells (w ++ s) (x :: xs) t := by
  obtain ⟨c, r, rfl, hblank, hfirst⟩ := Symbol.first?_of_isWritten hx hs
  exact .symbol hblank hfirst h

theorem spells_string (k : String) (h : Spells s xs t) :
    Spells ((printString (some k)).toList ++ s) (.string (some k) :: xs) t :=
  spells_written (isWritten_quoted k) (by simp) h

theorem spells_number {lexeme : String} (hn : IsNumber lexeme.toList) (hs : EndsNumber s)
    (h : Spells s xs t) : Spells (lexeme.toList ++ s) (.number lexeme :: xs) t := by
  have hx := Symbol.IsWritten.number hn
  rw [String.ofList_toList] at hx
  exact spells_written hx (fun _ _ => hs) h

theorem endsNumber_cons {c : Char} (h : c = ',' ∨ c = ']' ∨ c = '\x7d' ∨ c = '\n')
    (rest : List Char) : EndsNumber (c :: rest) := by
  rintro d ⟨⟩
  rcases h with rfl | rfl | rfl | rfl <;> decide

/-- What is written for a value spells its symbols, whatever follows them. -/
def SpelledBy (write : Json → String) (v : Json) : Prop :=
  ∀ s xs t, EndsNumber s → Spells s xs t → Spells ((write v).toList ++ s) (symbols v ++ xs) t

variable {write : Json → String} {gap : List Char}

theorem spells_items (join : List Json → String) (hgap : ∀ c ∈ gap, isJsonBlank c = true)
    (hone : ∀ v, join [v] = write v)
    (hmore : ∀ v w rest, (join (v :: w :: rest)).toList =
      (write v).toList ++ ',' :: (gap ++ (join (w :: rest)).toList))
    {v : Json} {items : List Json} (hv : ∀ w ∈ v :: items, SpelledBy write w)
    (hs : EndsNumber s) (h : Spells s xs t) :
    Spells ((join (v :: items)).toList ++ s) (itemSymbols (v :: items) ++ xs) t := by
  induction items generalizing v with
  | nil =>
    rw [hone, itemSymbols]
    exact hv v (by simp) s xs t hs h
  | cons w items ih =>
    have hrest := ih fun u hu => hv u (List.mem_cons_of_mem _ hu)
    have hcomma : Spells (',' :: (gap ++ ((join (w :: items)).toList ++ s)))
        (.comma :: (itemSymbols (w :: items) ++ xs)) t :=
      .symbol rfl rfl (spells_blanks hgap hrest)
    have hfirst := hv v (by simp) _ _ _ (endsNumber_cons (.inl rfl) _) hcomma
    rw [hmore, itemSymbols]
    simpa only [List.append_assoc, List.cons_append] using hfirst

theorem spells_member {k : Option String} {v : Json} (hk : k.isSome = true)
    (hv : SpelledBy write v) (hgap : ∀ c ∈ gap, isJsonBlank c = true) (hs : EndsNumber s)
    (h : Spells s xs t) :
    Spells ((printString k).toList ++ ':' :: (gap ++ ((write v).toList ++ s)))
      (.string k :: .colon :: (symbols v ++ xs)) t := by
  obtain ⟨k, rfl⟩ := Option.isSome_iff_exists.mp hk
  exact spells_string k (.symbol rfl rfl (spells_blanks hgap (hv s xs t hs h)))

theorem spells_members (join : List (Option String × Json) → String) {colonGap : List Char}
    (hcolon : ∀ c ∈ colonGap, isJsonBlank c = true) (hgap : ∀ c ∈ gap, isJsonBlank c = true)
    (hone : ∀ m, (join [m]).toList =
      (printString m.1).toList ++ ':' :: (colonGap ++ (write m.2).toList))
    (hmore : ∀ m n rest, (join (m :: n :: rest)).toList =
      (printString m.1).toList ++ ':' :: (colonGap ++ ((write m.2).toList ++
        ',' :: (gap ++ (join (n :: rest)).toList))))
    {m : Option String × Json} {members : List (Option String × Json)}
    (hk : ∀ n ∈ m :: members, n.1.isSome = true) (hm : ∀ n ∈ m :: members, SpelledBy write n.2)
    (hs : EndsNumber s) (h : Spells s xs t) :
    Spells ((join (m :: members)).toList ++ s) (memberSymbols (m :: members) ++ xs) t := by
  induction members generalizing m with
  | nil =>
    have hmember := spells_member (hk m (by simp)) (hm m (by simp)) hcolon hs h
    rw [hone, memberSymbols]
    simpa only [List.append_assoc, List.cons_append] using hmember
  | cons n members ih =>
    have hrest := ih (fun u hu => hk u (List.mem_cons_of_mem _ hu))
      (fun u hu => hm u (List.mem_cons_of_mem _ hu))
    have hcomma : Spells (',' :: (gap ++ ((join (n :: members)).toList ++ s)))
        (.comma :: (memberSymbols (n :: members) ++ xs)) t :=
      .symbol rfl rfl (spells_blanks hgap hrest)
    have hmember := spells_member (hk m (by simp)) (hm m (by simp)) hcolon
      (endsNumber_cons (.inl rfl) _) hcomma
    rw [hmore, memberSymbols]
    simpa only [List.append_assoc, List.cons_append] using hmember

theorem spelledBy_compact {v : Json} (hv : Printable v) : SpelledBy compact v := by
  have hnone : ∀ c ∈ ([] : List Char), isJsonBlank c = true := by simp
  induction hv with
  | null => exact fun s xs t _ h => .symbol rfl rfl h
  | bool b => exact fun s xs t _ h => by cases b <;> exact .symbol rfl rfl h
  | number hn => exact fun s xs t hs h => spells_number hn hs h
  | text k => exact fun s xs t _ h => spells_string k h
  | @array items hv ih =>
    intro s xs t _ h
    have hclose : Spells (']' :: s) (.closeBracket :: xs) t := .symbol rfl rfl h
    cases items with
    | nil => exact .symbol rfl rfl hclose
    | cons v items =>
      have hitems := spells_items compactItems hnone (fun v => by rw [compactItems])
        (fun v w rest => by simp [compactItems]) ih (endsNumber_cons (by simp) s) hclose
      have hopen := Spells.symbol (c := '[') rfl rfl hitems
      simpa [compact, symbols] using hopen
  | @object members keys values ih =>
    intro s xs t _ h
    have hclose : Spells ('\x7d' :: s) (.closeBrace :: xs) t := .symbol rfl rfl h
    cases members with
    | nil => exact .symbol rfl rfl hclose
    | cons m members =>
      have hmembers := spells_members compactMembers hnone hnone
        (fun m => by simp [compactMembers]) (fun m n rest => by simp [compactMembers]) keys ih
        (endsNumber_cons (by simp) s) hclose
      have hopen := Spells.symbol (c := '\x7b') rfl rfl hmembers
      simpa [compact, symbols] using hopen

theorem isJsonBlank_of_mem_newLine (depth : Nat) :
    ∀ c ∈ (newLine depth).toList, isJsonBlank c = true := by
  intro c hc
  rw [newLine, String.toList_ofList, List.mem_cons] at hc
  rcases hc with rfl | hc
  · rfl
  · rw [List.eq_of_mem_replicate hc]
    rfl

theorem endsNumber_newLine (depth : Nat) (s : List Char) :
    EndsNumber ((newLine depth).toList ++ s) := by
  rw [newLine, String.toList_ofList, List.cons_append]
  exact endsNumber_cons (by simp) _

theorem spelledBy_pretty {v : Json} (hv : Printable v) (depth : Nat) :
    SpelledBy (prettyAt depth) v := by
  have hspace : ∀ c ∈ [' '], isJsonBlank c = true := by simp [isJsonBlank]
  induction hv generalizing depth with
  | null =>
    intro s xs t _ h
    rw [prettyAt]
    exact .symbol rfl rfl h
  | bool b =>
    intro s xs t _ h
    rw [prettyAt]
    cases b <;> exact .symbol rfl rfl h
  | number hn =>
    intro s xs t hs h
    rw [prettyAt]
    exact spells_number hn hs h
  | text k =>
    intro s xs t _ h
    rw [Json.text, prettyAt]
    exact spells_string k h
  | @array items hv ih =>
    intro s xs t _ h
    have hclose : Spells (']' :: s) (.closeBracket :: xs) t := .symbol rfl rfl h
    cases items with
    | nil =>
      rw [prettyAt]
      exact .symbol rfl rfl hclose
    | cons v items =>
      have hinner := isJsonBlank_of_mem_newLine (depth + 1)
      have hitems := spells_items (prettyItems (depth + 1)) hinner
        (fun v => by rw [prettyItems]) (fun v w rest => by simp [prettyItems])
        (fun w hw => ih w hw (depth + 1)) (endsNumber_newLine depth _)
        (spells_blanks (isJsonBlank_of_mem_newLine depth) hclose)
      have hopen := Spells.symbol (c := '[') rfl rfl (spells_blanks hinner hitems)
      simpa [prettyAt, symbols] using hopen
  | @object members keys values ih =>
    intro s xs t _ h
    have hclose : Spells ('\x7d' :: s) (.closeBrace :: xs) t := .symbol rfl rfl h
    cases members with
    | nil =>
      rw [prettyAt]
      exact .symbol rfl rfl hclose
    | cons m members =>
      have hinner := isJsonBlank_of_mem_newLine (depth + 1)
      have hmembers := spells_members (prettyMembers (depth + 1)) hspace hinner
        (fun m => by simp [prettyMembers]) (fun m n rest => by simp [prettyMembers]) keys
        (fun n hn => ih n hn (depth + 1)) (endsNumber_newLine depth _)
        (spells_blanks (isJsonBlank_of_mem_newLine depth) hclose)
      have hopen := Spells.symbol (c := '\x7b') rfl rfl (spells_blanks hinner hmembers)
      simpa [prettyAt, symbols] using hopen

end printing

theorem parse?_of_spelledBy {write : Json → String} {v : Json} (h : SpelledBy write v) :
    parse? (write v) = some v := by
  have hs := h [] [] [] (by simp [EndsNumber]) (.done [])
  rw [List.append_nil, List.append_nil] at hs
  exact parse?_of_spells hs

theorem parse?_compact {v : Json} (h : Printable v) : parse? v.compact = some v :=
  parse?_of_spelledBy (spelledBy_compact h)

theorem parse?_pretty {v : Json} (h : Printable v) : parse? v.pretty = some v :=
  parse?_of_spelledBy (spelledBy_pretty h 0)

end Json

end LineLexer
