import LineLexer.Proofs.Emission

/-! A scan counts its places on from where it begins and looks at none of them. A map of places that
goes along with reading takes all that is found from one place to what is found from another. -/

namespace LineLexer

/-- A map of places that goes along with reading on the same line. -/
structure Move where
  place : Position → Position
  place_after : ∀ p s, place (p.after s) = (place p).after s

def Span.move (s : Span) (m : Move) : Span := ⟨m.place s.start, m.place s.stop⟩

def Token.move (t : Token) (m : Move) : Token := { t with span := t.span.move m }

def LexError.move (e : LexError) (m : Move) : LexError :=
  { e with position := m.place e.position }

def ScanItem.move (m : Move) : ScanItem → ScanItem
  | .token t => .token (t.move m)
  | .stray p c => .stray (m.place p) c

def LineScan.move (s : LineScan) (m : Move) : LineScan :=
  ⟨s.items.map (ScanItem.move m), s.failure.map (·.move m)⟩

/-- The tokens elsewhere; their displays show no places. -/
def TokenTable.move (t : TokenTable) (m : Move) : TokenTable :=
  ⟨t.tokens.map (·.map (·.move m)), t.display⟩

variable {m : Move}

@[simp]
theorem Token.display_move (t : Token) : (t.move m).display = t.display := rfl

theorem Span.covering_move (p : Position) (s : List Char) :
    covering (m.place p) s = (covering p s).move m := by
  rw [covering, ← m.place_after]
  rfl

namespace LineScan

theorem cons_move (i : ScanItem) (s : LineScan) :
    (s.cons i).move m = (s.move m).cons (i.move m) := rfl

theorem ofChars_move (strip : Bool) (p : Position) (s : List Char) :
    ofChars strip (m.place p) s = (ofChars strip p s).move m := by
  -- a token takes more than one character, so the induction is on the length of the rest
  induction hn : s.length using Nat.strongRecOn generalizing p s with
  | ind n ih =>
    cases s with
    | nil =>
      rw [ofChars, ofChars]
      rfl
    | cons c s =>
      rw [ofChars_cons, ofChars_cons]
      cases hf : Munch.first strip c s with
      | blank =>
        have hh := ih _ (by simp [← hn]) (p.after [c]) s rfl
        simpa only [m.place_after] using hh
      | stray =>
        have hh := ih _ (by simp [← hn]) (p.after [c]) s rfl
        simp only [← m.place_after, hh, cons_move]
        rfl
      | token v text rest =>
        have hlt := Munch.length_lt_of_first hf
        have hh := ih _ (by omega) (p.after text) rest rfl
        simp only [← m.place_after, hh, cons_move, Span.covering_move]
        rfl
      | failure kind text => rfl

theorem rejectStray_move (failure : Option LexError) (items : List ScanItem) :
    rejectStray (failure.map (·.move m)) (items.map (ScanItem.move m)) =
      (rejectStray failure items).move m := by
  induction items with
  | nil => rfl
  | cons i items ih =>
    cases i with
    | token t => simp only [List.map_cons, ScanItem.move, rejectStray, ih, cons_move]
    | stray p c => rfl

theorem under_move (s : LineScan) (policy : Policy) :
    (s.move m).under policy = (s.under policy).move m := by
  cases policy with
  | collect => rfl
  | skip => rfl
  | reject => exact rejectStray_move s.failure s.items

theorem tokens_move (s : LineScan) : (s.move m).tokens = s.tokens.map (·.move m) := by
  obtain ⟨items, failure⟩ := s
  induction items with
  | nil => rfl
  | cons i items ih =>
    cases i with
    | token t => exact congrArg (_ :: ·) ih
    | stray p c => exact ih

theorem strays_move (s : LineScan) : (s.move m).strays = s.strays.map (·.move m) := by
  obtain ⟨items, failure⟩ := s
  induction items with
  | nil => rfl
  | cons i items ih =>
    cases i with
    | token t => exact ih
    | stray p c => exact congrArg (_ :: ·) ih

/-- A line that begins elsewhere is scanned the same, elsewhere. -/
theorem ofLine_move (settings : LexerSettings) {index index' : Nat} {l l' : Line}
    (htext : l'.text = l.text) (hstart : l'.start index' = m.place (l.start index)) :
    ofLine settings index' l' = (ofLine settings index l).move m := by
  rw [ofLine, ofLine, htext, hstart, ← under_move, ← ofChars_move]

end LineScan

namespace Scan

theorem firstFailure_move (lines : List LineScan) :
    firstFailure (lines.map (·.move m)) = (firstFailure lines).map (·.move m) :=
  firstFailure_map (fun _ => rfl) lines

theorem strays_move (lines : List LineScan) :
    (lines.map (·.move m)).flatMap LineScan.strays =
      (lines.flatMap LineScan.strays).map (·.move m) := by
  rw [List.flatMap_map, List.map_flatMap]
  simp only [LineScan.strays_move]

end Scan

theorem TokenTable.ofRows_move (lines : List LineScan) :
    ofRows ((lines.map (·.move m)).map LineScan.tokens) =
      (ofRows (lines.map LineScan.tokens)).move m := by
  simp [ofRows, move, LineScan.tokens_move, Function.comp_def]

theorem Policy.kept_map (policy : Policy) (f : LexError → LexError) (strays : List LexError) :
    policy.kept (strays.map f) = (policy.kept strays).map f := by
  cases policy <;> rfl

end LineLexer
