import LineLexer.Proofs.Ending
import LineLexer.Proofs.Halt
import LineLexer.Proofs.Moving

/-! Cutting a line. Behind a token a scan goes on as if a line of its own began there, so a line may
be cut at the end of any token but within a number. -/

namespace LineLexer

theorem Position.after_right_comm (p : Position) (s t : List Char) :
    (p.after s).after t = (p.after t).after s := by
  simp only [after, mk.injEq, true_and]
  omega

/-- Behind `s` on the same line. -/
def Move.behind (s : List Char) : Move where
  place p := p.after s
  place_after p t := p.after_right_comm t s

/-- The last token is a number that ends at `stop`, and `b` would go on with it. -/
def Joins (row : List Token) (stop : Position) (b : List Char) : Prop :=
  ∃ t ∈ row.getLast?, (t.kind = .int ∨ t.kind = .float) ∧ t.span.stop = stop ∧
    ∃ c ∈ b.head?, isNumberPart c = true

theorem Item.text_ne_nil (i : Item) : i.text ≠ [] := by
  cases i with
  | lexeme l => exact l.text_ne_nil
  | gap c h => simp [text]

theorem Item.EndsBefore.append {i : Item} {s : List Char} (h : i.EndsBefore s) (hs : s ≠ [])
    (more : List Char) : i.EndsBefore (s ++ more) := by
  obtain ⟨c, s, rfl⟩ := List.exists_cons_of_ne_nil hs
  cases i with
  | gap d hd => trivial
  | lexeme l => exact h

/-- A line that is read to its end may go on where its last item may end. -/
theorem Reads.extend {s more : List Char} {items : List Item} (h : Reads s items [])
    (hlast : ∀ i ∈ items.getLast?, i.EndsBefore more) : Reads (s ++ more) items more := by
  generalize hrest : ([] : List Char) = rest at h
  induction h with
  | done rest =>
    rw [← hrest]
    exact .done more
  | @step i s rest items ends h ih =>
    rw [List.append_assoc]
    cases items with
    | nil =>
      obtain rfl : s = [] := by simpa [itemsText, ← hrest] using h.eq_append
      exact .step (hlast i rfl) (.done more)
    | cons j items =>
      have hs : s ≠ [] := by
        rw [h.eq_append]
        simp [itemsText, j.text_ne_nil]
      refine .step (ends.append hs more) (ih ?_ hrest)
      rwa [List.getLast?_cons_cons] at hlast

theorem Lexeme.kind_of_isNumber {l : Lexeme} (h : l.isNumber = true) (strip : Bool) :
    (l.value strip).kind = .int ∨ (l.value strip).kind = .float := by
  cases l with
  | int => exact .inl rfl
  | float => exact .inr rfl
  | str | operator => simp [Lexeme.isNumber] at h

namespace LineScan

/-- The scan of a line whose first part has no failure. -/
def append (s t : LineScan) : LineScan := ⟨s.items ++ t.items, t.failure⟩

theorem tokens_append (s t : LineScan) : (s.append t).tokens = s.tokens ++ t.tokens :=
  List.filterMap_append

theorem strays_append (s t : LineScan) : (s.append t).strays = s.strays ++ t.strays :=
  List.filterMap_append

end LineScan

theorem endsBefore_of_not_joins {strip : Bool} {p : Position} {items : List Item} {b : List Char}
    (h : ¬ Joins (itemsTokens strip p items) (p.after (itemsText items)) b) :
    ∀ i ∈ items.getLast?, i.EndsBefore b := by
  intro i hi
  obtain ⟨init, rfl⟩ := List.getLast?_eq_some_iff.mp hi
  cases i with
  | gap c hc => trivial
  | lexeme l =>
    intro hn c hc
    by_contra hpart
    apply h
    have htokens : itemsTokens strip p (init ++ [.lexeme l]) = itemsTokens strip p init ++
        [⟨l.value strip, .covering (p.after (itemsText init)) l.text⟩] := by
      rw [← tokens_found strip p _ none, ← tokens_found strip p _ none, itemsFound_append]
      exact LineScan.tokens_append ⟨_, none⟩ ⟨_, none⟩
    have hstop : p.after (itemsText (init ++ [.lexeme l])) =
        (p.after (itemsText init)).after l.text := by
      rw [← Position.after_append]
      simp [itemsText, Item.text]
    rw [htokens, hstop]
    exact ⟨_, List.getLast?_concat, Lexeme.kind_of_isNumber hn strip, rfl, c, hc,
      by simpa using hpart⟩

namespace LineScan

/-- A line that goes on is scanned on from where it ended. -/
theorem under_extend {policy : Policy} {strip : Bool} {p : Position} {a b : List Char}
    {found : LineScan} (ha : (ofChars strip p a).under policy = found) (hf : found.failure = none)
    (hb : ¬ Joins found.tokens (p.after a) b) :
    (ofChars strip p (a ++ b)).under policy =
      found.append ((ofChars strip (p.after a) b).under policy) := by
  subst ha
  obtain ⟨items, hr, hadmits⟩ := reads_of_success hf
  obtain rfl : a = itemsText items := by simpa using hr.eq_append
  rw [under_eq_of_reads hr hadmits, tokens_found] at hb
  have hwhole := hr.extend (endsBefore_of_not_joins hb)
  rw [under_eq_of_reads hr hadmits, under_of_reads hwhole hadmits]
  rfl

/-- What is found behind a cut is what a line of its own has, moved behind the first part. -/
theorem under_append {policy : Policy} {strip : Bool} {p : Position} {a b : List Char}
    {found : LineScan} (ha : (ofChars strip p a).under policy = found) (hf : found.failure = none)
    (hb : ¬ Joins found.tokens (p.after a) b) :
    (ofChars strip p (a ++ b)).under policy =
      found.append (((ofChars strip p b).under policy).move (.behind a)) := by
  have hplace : ofChars strip (p.after a) b = (ofChars strip p b).move (.behind a) :=
    @ofChars_move (.behind a) strip p b
  rw [under_extend ha hf hb, hplace, under_move]

end LineScan

theorem Scanner.scan_line (s : Scanner) {text : String} {found : LineScan}
    (h : LineScan.ofLine s.settings 0 ⟨text.toList, 0⟩ = found) :
    ((s.scan (.ofLines [text])).1 =
      match found.failure with
      | none => .ok (.ofRows [found.tokens])
      | some e => .error e) ∧
    (s.scan (.ofLines [text])).2.diagnostics = s.settings.unrecognized.kept found.strays := by
  have hlines : Scan.ofLines s.settings 0 (Source.ofLines [text]).lines = [found] :=
    h ▸ Scan.ofLines_singleton s.settings 0 _
  have hfailure : Scan.firstFailure (Scan.ofLines s.settings 0 (Source.ofLines [text]).lines) =
      found.failure := by
    rw [hlines, Scan.firstFailure_cons, Scan.firstFailure_nil, Option.or_none]
  constructor
  · cases hf : found.failure with
    | none =>
      rw [hf] at hfailure
      rw [scan_of_success hfailure, hlines]
      rfl
    | some e => exact scan_of_failure (hfailure.trans hf)
  · rw [scan_diagnostics, hlines, List.flatMap_singleton]

/-- A line that is cut behind a token, and not within a number, is scanned as its two parts are, the
second moved behind the first. -/
theorem scan_cut_line (s : Scanner) {a b : String} {t : TokenTable}
    (ha : (s.scan (.ofLines [a])).1 = .ok t)
    (hb : ∀ row ∈ t.tokens, ¬ Joins row (Position.first.after a.toList) b.toList) :
    let first := s.scan (.ofLines [a])
    let second := s.scan (.ofLines [b])
    let whole := s.scan (.ofLines [a ++ b])
    (match second.1 with
      | .ok u => ∃ row more, t = .ofRows [row] ∧ u = .ofRows [more] ∧
          whole.1 = .ok (.ofRows [row ++ more.map (·.move (.behind a.toList))])
      | .error e => whole.1 = .error (e.move (.behind a.toList))) ∧
    whole.2.diagnostics =
      first.2.diagnostics ++ second.2.diagnostics.map (·.move (.behind a.toList)) := by
  intro first second whole
  obtain ⟨one, hone⟩ : ∃ one, LineScan.ofLine s.settings 0 ⟨a.toList, 0⟩ = one := ⟨_, rfl⟩
  obtain ⟨two, htwo⟩ : ∃ two, LineScan.ofLine s.settings 0 ⟨b.toList, 0⟩ = two := ⟨_, rfl⟩
  obtain ⟨hfirst, hfirstKept⟩ := s.scan_line hone
  obtain ⟨hsecond, hsecondKept⟩ := s.scan_line htwo
  cases hf : one.failure with
  | some e => simp [hfirst, hf] at ha
  | none =>
    obtain rfl : TokenTable.ofRows [one.tokens] = t := by simpa [hfirst, hf] using ha
    have hcut : LineScan.ofLine s.settings 0 ⟨(a ++ b).toList, 0⟩ =
        one.append (two.move (.behind a.toList)) := by
      rw [← htwo, String.toList_append]
      exact LineScan.under_append hone hf (hb _ (List.mem_singleton.mpr rfl))
    obtain ⟨hwhole, hwholeKept⟩ := s.scan_line hcut
    rw [LineScan.tokens_append, LineScan.tokens_move] at hwhole
    rw [LineScan.strays_append, LineScan.strays_move, Policy.kept_append, Policy.kept_map,
      ← hfirstKept, ← hsecondKept] at hwholeKept
    refine ⟨?_, hwholeKept⟩
    cases hg : two.failure with
    | none =>
      have hends : (one.append (two.move (.behind a.toList))).failure = none := by
        simp [LineScan.append, LineScan.move, hg]
      rw [hends] at hwhole
      simp only [second, hsecond, hg]
      exact ⟨_, _, rfl, rfl, hwhole⟩
    | some e =>
      have hends : (one.append (two.move (.behind a.toList))).failure =
          some (e.move (.behind a.toList)) := by
        simp [LineScan.append, LineScan.move, hg]
      rw [hends] at hwhole
      simp only [second, hsecond, hg]
      exact hwhole

theorem scan_cut_line_behind_point :
    let s := Scanner.new {}
    let row : List Token := [⟨.int 1, ⟨⟨1, 1, 0⟩, ⟨1, 2, 1⟩⟩⟩]
    (s.scan (.ofLines ["1é."])).1 = .ok (.ofRows [row]) ∧
      ¬ Joins row (Position.first.after "1é.".toList) "5'".toList ∧
      (s.scan (.ofLines ["5'"])).1 = .error ⟨.unterminatedString, ⟨1, 2, 1⟩, "'"⟩ ∧
      (s.scan (.ofLines ["1é.5'"])).1 = .error ⟨.unterminatedString, ⟨1, 5, 5⟩, "'"⟩ ∧
      (s.scan (.ofLines ["1é.5'"])).2.diagnostics =
        [⟨.unrecognizedCharacter, ⟨1, 2, 1⟩, "é"⟩, ⟨.unrecognizedCharacter, ⟨1, 3, 3⟩, "."⟩] := by
  intro s row
  have hfirst : (s.scan (.ofLines ["1é."])).1 = .ok (.ofRows [row]) := by decide +kernel
  have hsecond : (s.scan (.ofLines ["5'"])).1 =
      .error ⟨.unterminatedString, ⟨1, 2, 1⟩, "'"⟩ := by decide +kernel
  have hapart : ¬ Joins row (Position.first.after "1é.".toList) "5'".toList := by
    rintro ⟨t, ht, -, hstop, -⟩
    obtain rfl : row.head (by decide) = t := by simpa [row] using ht
    exact absurd hstop (by decide)
  have hwhole := scan_cut_line s hfirst (List.forall_mem_singleton.mpr hapart)
  have htext : "1é." ++ "5'" = "1é.5'" := by decide
  simp only [hsecond, htext] at hwhole
  obtain ⟨herror, hkept⟩ := hwhole
  refine ⟨hfirst, hapart, hsecond, herror.trans (by decide), hkept.trans ?_⟩
  decide +kernel

end LineLexer
