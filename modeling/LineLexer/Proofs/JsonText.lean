import LineLexer.Proofs.ReadBack

/-! The texts of a JSON value: its symbols in order, each in one of the ways to write it, with any
blanks around them. The reader accepts the texts of a value, gives the value, and accepts no other
text. -/

namespace LineLexer

namespace Json

/-- The symbols in order, each in some way to write it, with blanks before, between and behind. -/
inductive AreWritten : List Symbol → List Char → Prop where
  | blanks {gap : List Char} (h : ∀ c ∈ gap, isJsonBlank c = true) : AreWritten [] gap
  | symbol {gap s rest : List Char} {x : Symbol} {xs : List Symbol}
      (hgap : ∀ c ∈ gap, isJsonBlank c = true) (hx : x.IsWritten s) (h : AreWritten xs rest) :
      AreWritten (x :: xs) (gap ++ (s ++ rest))

def IsText (v : Json) (s : String) : Prop := AreWritten (symbols v) s.toList

/-- These symbols begin with what may stand behind a value, or there are none. -/
def EndValue (xs : List Symbol) : Prop :=
  ∀ x ∈ xs.head?, x = .comma ∨ x = .closeBracket ∨ x = .closeBrace

/-- Behind every number the value ends. -/
def NumbersEnd : List Symbol → Prop
  | [] => True
  | .number _ :: xs => EndValue xs ∧ NumbersEnd xs
  | _ :: xs => NumbersEnd xs

section ends

variable {xs : List Symbol}

theorem endValue_cons {x : Symbol} (hx : x = .comma ∨ x = .closeBracket ∨ x = .closeBrace) :
    EndValue (x :: xs) := by
  rintro y ⟨⟩
  exact hx

theorem NumbersEnd.tail {x : Symbol} (h : NumbersEnd (x :: xs)) : NumbersEnd xs := by
  cases x with
  | number lexeme => exact h.2
  | _ => exact h

theorem numbersEnd_items (v : Json) {items : List Json}
    (hv : ∀ w ∈ v :: items, ∀ ys, EndValue ys → NumbersEnd ys → NumbersEnd (symbols w ++ ys))
    (hx : EndValue xs) (h : NumbersEnd xs) : NumbersEnd (itemSymbols (v :: items) ++ xs) := by
  induction items generalizing v with
  | nil => exact hv v (by simp) xs hx h
  | cons w items ih =>
    have hrest := ih w fun u hu => hv u (List.mem_cons_of_mem _ hu)
    rw [itemSymbols, List.append_assoc]
    exact hv v (by simp) _ (endValue_cons (.inl rfl)) hrest

theorem numbersEnd_members (m : Option String × Json) {members : List (Option String × Json)}
    (hm : ∀ n ∈ m :: members, ∀ ys, EndValue ys → NumbersEnd ys → NumbersEnd (symbols n.2 ++ ys))
    (hx : EndValue xs) (h : NumbersEnd xs) :
    NumbersEnd (memberSymbols (m :: members) ++ xs) := by
  induction members generalizing m with
  | nil => exact hm m (by simp) xs hx h
  | cons n members ih =>
    have hrest := ih n fun u hu => hm u (List.mem_cons_of_mem _ hu)
    rw [memberSymbols, List.append_assoc]
    exact hm m (by simp) _ (endValue_cons (.inl rfl)) hrest

theorem numbersEnd_symbols (v : Json) :
    ∀ xs, EndValue xs → NumbersEnd xs → NumbersEnd (symbols v ++ xs) := by
  induction v using induct with
  | null => exact fun xs _ h => h
  | bool b => exact fun xs _ h => h
  | number lexeme => exact fun xs hx h => ⟨hx, h⟩
  | string text => exact fun xs _ h => h
  | array items ih =>
    intro xs _ h
    rw [symbols, List.append_assoc]
    cases items with
    | nil => exact h
    | cons v items => exact numbersEnd_items v ih (endValue_cons (by simp)) h
  | object members ih =>
    intro xs _ h
    rw [symbols, List.append_assoc]
    cases members with
    | nil => exact h
    | cons m members => exact numbersEnd_members m ih (endValue_cons (by simp)) h

end ends

theorem AreWritten.endsNumber {xs : List Symbol} {s : List Char} (h : AreWritten xs s)
    (hx : EndValue xs) : EndsNumber s := by
  have hblank : ∀ c, isJsonBlank c = true → ∀ r, EndsNumber (c :: r) := by
    intro c hc r d hd
    obtain rfl : c = d := by simpa using hd
    simp only [isJsonBlank, Bool.or_eq_true, beq_iff_eq] at hc
    rcases hc with ((rfl | rfl) | rfl) | rfl <;> decide
  cases h with
  | blanks hgap =>
    cases s with
    | nil => simp [EndsNumber]
    | cons c s => exact hblank c (hgap c (by simp)) s
  | @symbol gap w rest x xs hgap hw h =>
    cases gap with
    | cons c gap => exact hblank c (hgap c (by simp)) _
    | nil =>
      rcases hx x rfl with rfl | rfl | rfl <;> cases hw <;> exact endsNumber_cons (by simp) _

theorem AreWritten.spells {xs : List Symbol} {s : List Char} (h : AreWritten xs s)
    (hx : NumbersEnd xs) : Spells s xs [] := by
  induction h with
  | @blanks gap hgap =>
    have hs := spells_blanks hgap (.done [])
    rwa [List.append_nil] at hs
  | @symbol gap w rest x xs hgap hw h ih =>
    refine spells_blanks hgap (spells_written hw ?_ (ih hx.tail))
    rintro lexeme rfl
    exact h.endsNumber hx.1

theorem AreWritten.blank {c : Char} {xs : List Symbol} {s : List Char}
    (hc : isJsonBlank c = true) (h : AreWritten xs s) : AreWritten xs (c :: s) := by
  cases h with
  | blanks h => exact .blanks (List.forall_mem_cons.mpr ⟨hc, h⟩)
  | symbol h hx hrest => exact .symbol (List.forall_mem_cons.mpr ⟨hc, h⟩) hx hrest

theorem Spells.areWritten {xs : List Symbol} {s : List Char} (h : Spells s xs []) :
    AreWritten xs s := by
  generalize hrest : ([] : List Char) = rest at h
  induction h with
  | done => exact .blanks (by simp [← hrest])
  | blank hc h ih => exact (ih hrest).blank hc
  | @symbol c s next rest x xs hc hx h ih =>
    obtain ⟨w, hw, hwritten⟩ := Symbol.isWritten_of_first? hx
    have hgap : ∀ d ∈ ([] : List Char), isJsonBlank d = true := by simp
    rw [hw]
    exact .symbol hgap hwritten (ih hrest)

/-- The symbols of an item that others follow. -/
def symbolsBefore (v : Json) : List Symbol := symbols v ++ [.comma]

def memberSymbolsBefore (m : Option String × Json) : List Symbol :=
  .string m.1 :: .colon :: symbolsBefore m.2

theorem itemSymbols_append (items : List Json) (v : Json) :
    itemSymbols (items ++ [v]) = items.flatMap symbolsBefore ++ symbols v := by
  induction items with
  | nil => rfl
  | cons w items ih =>
    cases items with
    | nil => simp [itemSymbols, symbolsBefore]
    | cons u items =>
      rw [List.cons_append] at ih
      rw [List.cons_append, List.cons_append, itemSymbols, ih]
      simp [symbolsBefore]

theorem memberSymbols_append (members : List (Option String × Json)) (m : Option String × Json) :
    memberSymbols (members ++ [m]) =
      members.flatMap memberSymbolsBefore ++ .string m.1 :: .colon :: symbols m.2 := by
  induction members with
  | nil => rfl
  | cons n members ih =>
    cases members with
    | nil => simp [memberSymbols, memberSymbolsBefore, symbolsBefore]
    | cons u members =>
      rw [List.cons_append] at ih
      rw [List.cons_append, List.cons_append, memberSymbols, ih]
      simp [memberSymbolsBefore, symbolsBefore]

namespace Reading

def frameSymbols : Frame → List Symbol
  | .array done => .openBracket :: done.reverse.flatMap symbolsBefore
  | .object done key =>
    .openBrace :: done.reverse.flatMap memberSymbolsBefore ++ [.string key, .colon]

/-- What has been read of the arrays and objects that are still open. -/
def opened (stack : List Frame) : List Symbol := stack.reverse.flatMap frameSymbols

/-- The symbols that lead to a reading. -/
def taken : Reading → List Symbol
  | value stack => opened stack
  | firstItem stack => opened stack ++ [.openBracket]
  | firstKey stack => opened stack ++ [.openBrace]
  | nextKey stack done => opened stack ++ .openBrace :: done.reverse.flatMap memberSymbolsBefore
  | afterKey stack done key =>
    opened stack ++ .openBrace :: done.reverse.flatMap memberSymbolsBefore ++ [.string key]
  | complete stack v => opened stack ++ symbols v

theorem opened_cons (f : Frame) (stack : List Frame) :
    opened (f :: stack) = opened stack ++ frameSymbols f := by
  simp [opened]

theorem taken_open? {stack : List Frame} {x : Symbol} {r : Reading} (h : open? stack x = some r) :
    r.taken = opened stack ++ [x] := by
  cases x <;> simp only [open?, Option.some.injEq, reduceCtorEq] at h <;> subst h <;> rfl

theorem taken_close? {stack : List Frame} {v : Json} {x : Symbol} {r : Reading}
    (h : close? stack v x = some r) : r.taken = opened stack ++ symbols v ++ [x] := by
  unfold close? at h
  split at h
  case h_5 => simp at h
  all_goals
    obtain rfl := Option.some.inj h
    simp [taken, opened_cons, frameSymbols, symbols, itemSymbols_append, memberSymbols_append,
      symbolsBefore, memberSymbolsBefore]

theorem taken_step? {r s : Reading} {x : Symbol} (h : r.step? x = some s) :
    s.taken = r.taken ++ [x] := by
  unfold step? at h
  split at h
  case h_1 => exact taken_open? h
  case h_3 =>
    rw [taken_open? h, opened_cons]
    rfl
  case h_8 => exact taken_close? h
  case h_9 => simp at h
  all_goals
    obtain rfl := Option.some.inj h
    simp [taken, opened_cons, frameSymbols, symbols, itemSymbols, memberSymbols]

theorem exists_of_run {r s : Reading} {t : List Char} (h : r.run t = some s) :
    ∃ xs, Spells t xs [] ∧ s.taken = r.taken ++ xs := by
  fun_induction run r t with
  | case1 r =>
    obtain rfl := Option.some.inj h
    exact ⟨[], .done [], (List.append_nil _).symm⟩
  | case2 r c t hc ih =>
    obtain ⟨xs, hspells, htaken⟩ := ih h
    exact ⟨xs, .blank hc hspells, htaken⟩
  | case3 => simp at h
  | case4 => simp at h
  | case5 r c t hc x rest hx r' hstep _ ih =>
    obtain ⟨xs, hspells, htaken⟩ := ih h
    refine ⟨x :: xs, .symbol (by simpa using hc) hx hspells, ?_⟩
    rw [htaken, taken_step? hstep, List.append_assoc, List.singleton_append]

end Reading

/-- Reading accepts the texts of a value and nothing else. -/
theorem parse?_eq_some_iff {s : String} {v : Json} : parse? s = some v ↔ v.IsText s := by
  constructor
  · intro h
    obtain ⟨r, hr, hv⟩ := Option.bind_eq_some_iff.mp h
    obtain ⟨xs, hspells, htaken⟩ := Reading.exists_of_run hr
    have hcomplete : r = .complete [] v := by
      unfold Reading.result? at hv
      split at hv
      · rw [Option.some.inj hv]
      · simp at hv
    rw [hcomplete] at htaken
    have hxs : symbols v = xs := htaken
    rw [IsText, hxs]
    exact hspells.areWritten
  · intro h
    have hends := numbersEnd_symbols v [] (by simp [EndValue]) trivial
    rw [List.append_nil] at hends
    exact parse?_of_spells (h.spells hends)

end Json

end LineLexer
