import LineLexer.Proofs.Ending
import LineLexer.Proofs.FirstHalt

/-! Which characters are collected. Every character of a source has its place, and a scan collects
those that begin nothing, stand in no token and stand before the failure, in the order of their
places. -/

namespace LineLexer

/-- In a source `p` stands before `q`. -/
def Position.Before (p q : Position) : Prop :=
  p.line < q.line ∨ p.line = q.line ∧ p.column < q.column

instance (p q : Position) : Decidable (p.Before q) :=
  inferInstanceAs (Decidable (_ ∨ _))

def Span.Contains (s : Span) (p : Position) : Prop := ¬ p.Before s.start ∧ p.Before s.stop

instance (s : Span) (p : Position) : Decidable (s.Contains p) :=
  inferInstanceAs (Decidable (_ ∧ _))

structure Spot where
  position : Position
  char : Char

namespace Spot

def error (q : Spot) : LexError := .unrecognized q.position q.char

/-- The character begins nothing and stands in none of the tokens. -/
def IsStray (tokens : List Token) (q : Spot) : Prop :=
  CharClass.of q.char = .other ∧ ∀ t ∈ tokens, ¬ t.span.Contains q.position

instance (tokens : List Token) (q : Spot) : Decidable (q.IsStray tokens) :=
  inferInstanceAs (Decidable (_ ∧ _))

variable {a b : List Token} {q : Spot}

theorem isStray_append_left (h : ∀ t ∈ b, ¬ t.span.Contains q.position) :
    q.IsStray (a ++ b) ↔ q.IsStray a := by
  rw [IsStray, List.forall_mem_append, and_iff_left h, IsStray]

theorem isStray_append_right (h : ∀ t ∈ a, ¬ t.span.Contains q.position) :
    q.IsStray (a ++ b) ↔ q.IsStray b := by
  rw [IsStray, List.forall_mem_append, and_iff_right h, IsStray]

end Spot

/-- The characters of a stretch that begins at `p`. -/
def spotsFrom (p : Position) : List Char → List Spot
  | [] => []
  | c :: s => ⟨p, c⟩ :: spotsFrom (p.after [c]) s

def linesSpots (index : Nat) : List Line → List Spot
  | [] => []
  | l :: lines => spotsFrom (l.start index) l.text ++ linesSpots (index + 1) lines

namespace Source

def spots (s : Source) : List Spot := linesSpots 0 s.lines

/-- The part of a source that stands before a place. -/
def upTo (s : Source) (p : Position) : Source :=
  ⟨s.lines.take (p.line - 1) ++
    (s.lines[p.line - 1]?).toList.map fun l => { l with text := l.text.take (p.column - 1) }⟩

/-- The part that a scan gets through: all of it, or what stands before the failure. -/
def scanned (s : Source) : Except LexError TokenTable → Source
  | .ok _ => s
  | .error e => s.upTo e.position

end Source

/-- A scan with this result gets as far as `p`. -/
def Reaches (result : Except LexError TokenTable) (p : Position) : Prop :=
  match result with
  | .ok _ => True
  | .error e => p.Before e.position

instance (result : Except LexError TokenTable) (p : Position) : Decidable (Reaches result p) :=
  match result with
  | .ok _ => inferInstanceAs (Decidable True)
  | .error _ => inferInstanceAs (Decidable (Position.Before _ _))

theorem CharClass.isBlank_of_eq_other {c : Char} (h : CharClass.of c = .other) :
    isBlank c = false := by
  unfold CharClass.of at h
  grind

theorem spotsFrom_append (p : Position) (s t : List Char) :
    spotsFrom p (s ++ t) = spotsFrom p s ++ spotsFrom (p.after s) t := by
  induction s generalizing p with
  | nil => rfl
  | cons c s ih =>
    have hp : p.after (c :: s) = (p.after [c]).after s := by
      rw [← Position.after_append, List.singleton_append]
    rw [List.cons_append, spotsFrom, spotsFrom, ih, hp, List.cons_append]

theorem exists_of_mem_spotsFrom {p : Position} {s : List Char} {q : Spot}
    (h : q ∈ spotsFrom p s) :
    ∃ before after, s = before ++ q.char :: after ∧ q.position = p.after before := by
  induction s generalizing p with
  | nil => simp [spotsFrom] at h
  | cons c s ih =>
    rcases List.mem_cons.mp h with rfl | h
    · exact ⟨[], s, rfl, rfl⟩
    · obtain ⟨before, after, rfl, hq⟩ := ih h
      refine ⟨c :: before, after, rfl, ?_⟩
      rw [hq, ← Position.after_append, List.singleton_append]

theorem bounds_of_mem_spotsFrom {p : Position} {s : List Char} {q : Spot}
    (h : q ∈ spotsFrom p s) :
    q.position.line = p.line ∧ p.column ≤ q.position.column ∧
      q.position.column < p.column + s.length := by
  obtain ⟨before, after, rfl, hq⟩ := exists_of_mem_spotsFrom h
  have hlt : before.length < (before ++ q.char :: after).length := by simp
  rw [hq]
  exact ⟨rfl, Nat.le_add_right _ _, Nat.add_lt_add_left hlt _⟩

theorem pairwise_spotsFrom (p : Position) (s : List Char) :
    (spotsFrom p s).Pairwise (·.position.Before ·.position) := by
  induction s generalizing p with
  | nil => exact .nil
  | cons c s ih =>
    refine .cons ?_ (ih _)
    intro q hq
    have hb := bounds_of_mem_spotsFrom hq
    exact .inr ⟨hb.1.symm, hb.2.1⟩

theorem linesSpots_append (index : Nat) (a b : List Line) :
    linesSpots index (a ++ b) = linesSpots index a ++ linesSpots (index + a.length) b := by
  induction a generalizing index with
  | nil => rfl
  | cons l a ih =>
    have hi : index + 1 + a.length = index + (l :: a).length := by
      rw [List.length_cons]
      omega
    rw [List.cons_append, linesSpots, linesSpots, ih, hi, List.append_assoc]

theorem exists_of_mem_linesSpots {index : Nat} {lines : List Line} {q : Spot}
    (h : q ∈ linesSpots index lines) :
    ∃ (i : Nat) (l : Line) (before after : List Char), lines[i]? = some l ∧
      l.text = before ++ q.char :: after ∧
      q.position = (l.start (index + i)).after before := by
  induction lines generalizing index with
  | nil => simp [linesSpots] at h
  | cons l lines ih =>
    rcases List.mem_append.mp h with h | h
    · obtain ⟨before, after, ht, hq⟩ := exists_of_mem_spotsFrom h
      exact ⟨0, l, before, after, rfl, ht, hq⟩
    · obtain ⟨i, m, before, after, hm, ht, hq⟩ := ih h
      have hi : index + 1 + i = index + (i + 1) := by omega
      exact ⟨i + 1, m, before, after, by simpa using hm, ht, hi ▸ hq⟩

theorem line_of_mem_linesSpots {index : Nat} {lines : List Line} {q : Spot}
    (h : q ∈ linesSpots index lines) :
    index < q.position.line ∧ q.position.line ≤ index + lines.length := by
  obtain ⟨i, l, before, after, hl, -, hq⟩ := exists_of_mem_linesSpots h
  have hi := (List.getElem?_eq_some_iff.mp hl).1
  rw [hq]
  simp only [Position.after, Line.start]
  omega

theorem pairwise_linesSpots (index : Nat) (lines : List Line) :
    (linesSpots index lines).Pairwise (·.position.Before ·.position) := by
  induction lines generalizing index with
  | nil => exact .nil
  | cons l lines ih =>
    refine List.pairwise_append.mpr ⟨pairwise_spotsFrom _ _, ih _, ?_⟩
    intro q hq r hr
    have hline := (bounds_of_mem_spotsFrom hq).1
    have hlater := (line_of_mem_linesSpots hr).1
    exact .inl (by simp only [hline, Line.start]; omega)

/-- What a source has before a place are its characters that stand before it. -/
theorem Source.spots_upTo {a b : List Line} {line : Line} {before after : List Char}
    (ht : line.text = before ++ after) :
    let p := (line.start a.length).after before
    (Source.mk (a ++ line :: b)).upTo p = ⟨a ++ [⟨before, line.offset⟩]⟩ ∧
      linesSpots 0 (a ++ [⟨before, line.offset⟩]) =
        (linesSpots 0 (a ++ line :: b)).filter fun q => q.position.Before p := by
  intro p
  have hline : p.line - 1 = a.length := rfl
  have hcolumn : p.column - 1 = before.length := Nat.add_sub_cancel_left _ _
  constructor
  · simp [upTo, hline, hcolumn, ht]
  · have hfront : (linesSpots 0 a).filter (fun q => q.position.Before p) = linesSpots 0 a := by
      refine List.filter_eq_self.mpr fun q hq => decide_eq_true (.inl ?_)
      have hh := (line_of_mem_linesSpots hq).2
      simp only [p, Position.after, Line.start]
      omega
    have hkept : (spotsFrom (line.start a.length) before).filter (fun q => q.position.Before p) =
        spotsFrom (line.start a.length) before := by
      refine List.filter_eq_self.mpr fun q hq => decide_eq_true (.inr ?_)
      have hh := bounds_of_mem_spotsFrom hq
      exact ⟨hh.1, hh.2.2⟩
    have hdropped : (spotsFrom p after ++ linesSpots (a.length + 1) b).filter
        (fun q => q.position.Before p) = [] := by
      refine List.filter_eq_nil_iff.mpr fun q hq => ?_
      rw [decide_eq_true_eq, Position.Before]
      rcases List.mem_append.mp hq with hq | hq
      · have hh := bounds_of_mem_spotsFrom hq
        omega
      · have hh := (line_of_mem_linesSpots hq).1
        simp only [p, Position.after, Line.start]
        omega
    rw [linesSpots_append, linesSpots_append, Nat.zero_add, linesSpots, linesSpots, linesSpots, ht,
      spotsFrom_append, List.append_nil, List.append_assoc, List.filter_append,
      List.filter_append, hfront, hkept, hdropped, List.append_nil]
    rfl

/-- The tokens of items stand on the line of the first one and not before it. -/
theorem bounds_of_mem_itemsTokens {strip : Bool} {p : Position} {items : List Item} {t : Token}
    (h : t ∈ itemsTokens strip p items) :
    t.span.start.line = p.line ∧ t.span.stop.line = p.line ∧ p.column ≤ t.span.start.column := by
  induction items generalizing p with
  | nil => simp [itemsTokens] at h
  | cons i items ih =>
    cases i with
    | lexeme l =>
      rcases List.mem_cons.mp h with rfl | h
      · exact ⟨rfl, rfl, Nat.le_refl _⟩
      · have hh := ih h
        simp only [Position.after] at hh
        omega
    | gap c hc =>
      have hh := ih h
      simp only [Position.after] at hh
      omega

theorem itemsStrays_eq_filter (strip : Bool) (p : Position) (items : List Item) :
    itemsStrays p items =
      ((spotsFrom p (itemsText items)).filter fun q =>
        q.IsStray (itemsTokens strip p items)).map Spot.error := by
  induction items generalizing p with
  | nil => rfl
  | cons i items ih =>
    have hlater : ∀ q ∈ spotsFrom (p.after i.text) (itemsText items),
        q.position.line = p.line ∧ p.column + i.text.length ≤ q.position.column := by
      intro q hq
      have hh := bounds_of_mem_spotsFrom hq
      exact ⟨hh.1, hh.2.1⟩
    have htext : itemsText (i :: items) = i.text ++ itemsText items := rfl
    rw [htext, spotsFrom_append, List.filter_append, List.map_append]
    cases i with
    | lexeme l =>
      have hinside : (spotsFrom p l.text).filter (fun q =>
          q.IsStray (itemsTokens strip p (.lexeme l :: items))) = [] := by
        refine List.filter_eq_nil_iff.mpr fun q hq => ?_
        rw [decide_eq_true_eq]
        intro hs
        have hb := bounds_of_mem_spotsFrom hq
        refine hs.2 ⟨l.value strip, .covering p l.text⟩ List.mem_cons_self
          ⟨?_, .inr ⟨hb.1, hb.2.2⟩⟩
        simp only [Span.covering, Position.Before]
        omega
      have hbehind : (spotsFrom (p.after l.text) (itemsText items)).filter (fun q =>
          q.IsStray (itemsTokens strip p (.lexeme l :: items))) =
            (spotsFrom (p.after l.text) (itemsText items)).filter fun q =>
              q.IsStray (itemsTokens strip (p.after l.text) items) := by
        refine List.filter_congr fun q hq => decide_eq_decide.mpr ?_
        have hb := hlater q hq
        refine @Spot.isStray_append_right [⟨l.value strip, .covering p l.text⟩] _ q ?_
        rw [List.forall_mem_singleton]
        rintro ⟨-, hstop⟩
        simp only [Span.covering, Position.after, Position.Before] at hstop
        simp only [Item.text] at hb
        omega
      rw [Item.text, hinside, hbehind, ← ih]
      rfl
    | gap c hc =>
      have hfree : ∀ t ∈ itemsTokens strip (p.after [c]) items, ¬ t.span.Contains p := by
        rintro t ht ⟨hstart, -⟩
        have hb := bounds_of_mem_itemsTokens ht
        simp only [Position.after, List.length_singleton] at hb
        exact hstart (.inr ⟨hb.1.symm, by omega⟩)
      have hfirst : (⟨p, c⟩ : Spot).IsStray (itemsTokens strip (p.after [c]) items) ↔
          CharClass.of c = .other := ⟨And.left, fun ho => ⟨ho, hfree⟩⟩
      change itemsStrays p (.gap c hc :: items) =
        ((spotsFrom p [c]).filter fun q =>
          q.IsStray (itemsTokens strip (p.after [c]) items)).map Spot.error ++
        ((spotsFrom (p.after [c]) (itemsText items)).filter fun q =>
          q.IsStray (itemsTokens strip (p.after [c]) items)).map Spot.error
      rw [← ih, itemsStrays]
      by_cases ho : CharClass.of c = .other
      · simp [spotsFrom, hfirst, ho, Spot.error]
      · simp [spotsFrom, hfirst, ho]

namespace Scan

variable {settings : LexerSettings} {index : Nat}

theorem strays_of_success {lines : List Line}
    (h : firstFailure (ofLines settings index lines) = none) :
    let rows := (ofLines settings index lines).map LineScan.tokens
    (∀ t ∈ rows.flatten, index < t.span.start.line ∧ t.span.stop.line = t.span.start.line) ∧
      (ofLines settings index lines).flatMap LineScan.strays =
        ((linesSpots index lines).filter fun q => q.IsStray rows.flatten).map Spot.error := by
  induction lines generalizing index with
  | nil => exact ⟨by simp [ofLines], rfl⟩
  | cons l lines ih =>
    obtain ⟨hl, hlines⟩ := success_of_cons h
    obtain ⟨items, hr, ha⟩ := LineScan.reads_of_success hl
    have hline : LineScan.ofLine settings index l =
        ⟨itemsFound settings.stripQuotes (l.start index) items, none⟩ :=
      LineScan.under_eq_of_reads hr ha _ _
    have htext : l.text = itemsText items := by rw [hr.eq_append, List.append_nil]
    obtain ⟨hbelow, hstrays⟩ := ih hlines
    have hrow : ∀ t ∈ itemsTokens settings.stripQuotes (l.start index) items,
        t.span.start.line = index + 1 ∧ t.span.stop.line = index + 1 :=
      fun t ht => ⟨(bounds_of_mem_itemsTokens ht).1, (bounds_of_mem_itemsTokens ht).2.1⟩
    rw [ofLines_cons_of_success hl, hline]
    simp only [List.map_cons, List.flatMap_cons, List.flatten_cons, tokens_found, strays_found,
      linesSpots, List.filter_append, List.map_append, htext]
    -- a token of another line contains no character of this one, so each line is filtered alone
    have hhere : (spotsFrom (l.start index) (itemsText items)).filter (fun q => q.IsStray
        (itemsTokens settings.stripQuotes (l.start index) items ++
          ((ofLines settings (index + 1) lines).map LineScan.tokens).flatten)) =
        (spotsFrom (l.start index) (itemsText items)).filter fun q => q.IsStray
          (itemsTokens settings.stripQuotes (l.start index) items) := by
      refine List.filter_congr fun q hq => decide_eq_decide.mpr (Spot.isStray_append_left ?_)
      have hq' : q.position.line = index + 1 := (bounds_of_mem_spotsFrom hq).1
      rintro t ht ⟨hstart, -⟩
      have hb := hbelow t ht
      exact hstart (.inl (by omega))
    have hthere : (linesSpots (index + 1) lines).filter (fun q => q.IsStray
        (itemsTokens settings.stripQuotes (l.start index) items ++
          ((ofLines settings (index + 1) lines).map LineScan.tokens).flatten)) =
        (linesSpots (index + 1) lines).filter fun q => q.IsStray
          ((ofLines settings (index + 1) lines).map LineScan.tokens).flatten := by
      refine List.filter_congr fun q hq => decide_eq_decide.mpr (Spot.isStray_append_right ?_)
      have hq' := (line_of_mem_linesSpots hq).1
      rintro t ht ⟨-, hstop⟩
      have hb := hrow t ht
      simp only [Position.Before] at hstop
      omega
    refine ⟨?_, ?_⟩
    · intro t ht
      rcases List.mem_append.mp ht with ht | ht
      · have hb := hrow t ht
        omega
      · have hb := hbelow t ht
        omega
    · rw [hhere, hthere, ← hstrays, ← itemsStrays_eq_filter]

end Scan

/-- What a scan gets through is scanned to its end, and leaves the same stray characters. -/
theorem Scan.success_of_scanned {settings : LexerSettings} (source : Source) :
    let reached := source.scanned (ofSource settings source).result
    let found := ofLines settings 0 reached.lines
    firstFailure found = none ∧
      (ofLines settings 0 source.lines).flatMap LineScan.strays = found.flatMap LineScan.strays ∧
      reached.spots =
        source.spots.filter fun q => Reaches (ofSource settings source).result q.position := by
  cases hf : firstFailure (ofLines settings 0 source.lines) with
  | none =>
    rw [result_of_success hf]
    exact ⟨hf, rfl, (List.filter_eq_self.mpr fun _ _ => rfl).symm⟩
  | some e =>
    rw [result_of_failure hf]
    obtain ⟨a, line, b, items, kind, text, rest, hlines, ha, hr, hadmits, -, rfl, hstrays⟩ :=
      exists_halt hf
    obtain ⟨hupTo, hspots⟩ := @Source.spots_upTo a b line (itemsText items) _ hr.eq_append
    obtain ⟨hfail, hsame⟩ := @ofLines_append_reads settings a ⟨itemsText items, line.offset⟩ items
      id unnoticed_id ha hr.truncate hadmits
    obtain ⟨lines⟩ := source
    subst hlines
    simp only [Source.scanned, hupTo]
    exact ⟨hfail, hstrays.trans hsame.symm, hspots⟩

/-- The diagnostics of a scan are the characters that begin nothing, as far as the scan reaches and
outside the tokens that it finds there, each once and in the order of their places. -/
theorem diagnostics_of_scan (s : Scanner) {source : Source} {whole : String}
    (ho : source.Of whole) :
    let result := (s.scan source).1
    let diagnostics := (s.scan source).2.diagnostics
    (s.settings.unrecognized ≠ .collect → diagnostics = []) ∧
      (s.settings.unrecognized = .collect →
        (∃ table, (s.scan (source.scanned result)).1 = .ok table ∧
          diagnostics = (source.spots.filter fun q =>
            Reaches result q.position ∧ q.IsStray table.tokens.flatten).map Spot.error) ∧
        diagnostics.Pairwise (·.position.Before ·.position) ∧
        ∀ e ∈ diagnostics, ∃ c, e = .unrecognized e.position c ∧ isBlank c = false ∧
          (Utf8.encode whole).extract e.position.byteOffset (e.position.byteOffset + c.utf8Size) =
            [c].utf8Encode) := by
  intro result diagnostics
  have hkept : diagnostics = s.settings.unrecognized.kept
      ((Scan.ofLines s.settings 0 source.lines).flatMap LineScan.strays) := s.scan_diagnostics source
  constructor
  · intro hp
    rw [hkept]
    cases hs : s.settings.unrecognized with
    | collect => exact absurd hs hp
    | skip => rfl
    | reject => rfl
  · intro hp
    rw [hp] at hkept
    obtain ⟨hfail, hsame, hspots⟩ := @Scan.success_of_scanned s.settings source
    rw [← s.scan_result source] at hfail hsame hspots
    have hfound := (Scan.strays_of_success hfail).2
    have hfilter : diagnostics = (source.spots.filter fun q => Reaches result q.position ∧
        q.IsStray ((Scan.ofLines s.settings 0 (source.scanned result).lines).map
          LineScan.tokens).flatten).map Spot.error := by
      have hh : linesSpots 0 (source.scanned result).lines = _ := hspots
      rw [hkept, Policy.kept, hsame, hfound, hh, List.filter_filter]
      simp only [Bool.decide_and, Bool.and_comm]
      rfl
    refine ⟨⟨_, Scanner.scan_of_success hfail, hfilter⟩, ?_, ?_⟩
    · rw [hfilter, List.pairwise_map]
      exact (pairwise_linesSpots 0 source.lines).filter _
    · intro e he
      rw [hfilter] at he
      obtain ⟨q, hq, rfl⟩ := List.mem_map.mp he
      obtain ⟨hmem, hstray⟩ := List.mem_filter.mp hq
      obtain ⟨i, l, before, after, hl, ht, hposition⟩ := exists_of_mem_linesSpots hmem
      refine ⟨q.char, rfl, CharClass.isBlank_of_eq_other (of_decide_eq_true hstray).2.1, ?_⟩
      have hcut : l.text = before ++ [q.char] ++ after := by
        rw [ht, List.append_assoc, List.singleton_append]
      have hextract := ho.extract_encode hl hcut
      rw [byteLength_cons, byteLength_nil, Nat.add_zero] at hextract
      have hbyte : q.error.position.byteOffset = l.offset + byteLength before := by
        rw [Spot.error, LexError.unrecognized, hposition]
        rfl
      rw [hbyte]
      exact hextract

theorem diagnostics_of_two_lines :
    let s := Scanner.new { unrecognized := .collect }
    let source := Source.ofText "?'a.'é\r\n#1.2.3$"
    let result := (s.scan source).1
    let diagnostics := (s.scan source).2.diagnostics
    result = .error ⟨.malformedNumber, ⟨2, 2, 10⟩, "1.2"⟩ ∧
      diagnostics = [⟨.unrecognizedCharacter, ⟨1, 1, 0⟩, "?"⟩,
        ⟨.unrecognizedCharacter, ⟨1, 6, 5⟩, "é"⟩, ⟨.unrecognizedCharacter, ⟨2, 1, 9⟩, "#"⟩] ∧
      (∃ table, (s.scan (source.scanned result)).1 = .ok table ∧
        diagnostics = (source.spots.filter fun q =>
          Reaches result q.position ∧ q.IsStray table.tokens.flatten).map Spot.error) ∧
      diagnostics.Pairwise (·.position.Before ·.position) := by
  intro s source result diagnostics
  obtain ⟨hfound, hordered, -⟩ := (diagnostics_of_scan s (.text "?'a.'é\r\n#1.2.3$")).2 rfl
  exact ⟨by decide +kernel, by decide +kernel, hfound, hordered⟩

end LineLexer
