import LineLexer.Scan
import Mathlib.Data.List.Basic

/-! A scan takes the lines in order. As long as no line fails each line is scanned on its own, and
the first line that fails ends the scan. -/

namespace LineLexer

namespace Scan

variable {settings : LexerSettings} {index : Nat}

theorem ofLines_cons_of_success {l : Line} (h : (LineScan.ofLine settings index l).failure = none)
    (rest : List Line) :
    ofLines settings index (l :: rest) =
      LineScan.ofLine settings index l :: ofLines settings (index + 1) rest := by
  simp only [ofLines, h]

theorem ofLines_cons_of_failure {l : Line} {e : LexError}
    (h : (LineScan.ofLine settings index l).failure = some e) (rest : List Line) :
    ofLines settings index (l :: rest) = [LineScan.ofLine settings index l] := by
  simp only [ofLines, h]

theorem exists_ofLines_cons (settings : LexerSettings) (index : Nat) (l : Line)
    (rest : List Line) :
    ∃ more, ofLines settings index (l :: rest) = LineScan.ofLine settings index l :: more := by
  cases h : (LineScan.ofLine settings index l).failure with
  | some e => exact ⟨[], ofLines_cons_of_failure h rest⟩
  | none => exact ⟨_, ofLines_cons_of_success h rest⟩

theorem ofLines_singleton (settings : LexerSettings) (index : Nat) (l : Line) :
    ofLines settings index [l] = [LineScan.ofLine settings index l] := by
  cases h : (LineScan.ofLine settings index l).failure with
  | none => rw [ofLines_cons_of_success h, ofLines]
  | some e => rw [ofLines_cons_of_failure h]

@[simp]
theorem firstFailure_nil : firstFailure [] = none := rfl

theorem firstFailure_cons (l : LineScan) (lines : List LineScan) :
    firstFailure (l :: lines) = l.failure.or (firstFailure lines) := by
  rw [firstFailure, List.findSome?_cons]
  cases l.failure <;> rfl

theorem firstFailure_append (a b : List LineScan) :
    firstFailure (a ++ b) = (firstFailure a).or (firstFailure b) :=
  List.findSome?_append

theorem firstFailure_map {m : LineScan → LineScan} {g : LexError → LexError}
    (hm : ∀ l, (m l).failure = l.failure.map g) (lines : List LineScan) :
    firstFailure (lines.map m) = (firstFailure lines).map g := by
  induction lines with
  | nil => rfl
  | cons l lines ih =>
    rw [List.map_cons, firstFailure_cons, firstFailure_cons, ih, hm]
    cases l.failure <;> rfl

theorem firstFailure_ofLines_cons {l : Line}
    (h : (LineScan.ofLine settings index l).failure = none) (rest : List Line) :
    firstFailure (ofLines settings index (l :: rest)) =
      firstFailure (ofLines settings (index + 1) rest) := by
  rw [ofLines_cons_of_success h, firstFailure_cons, h, Option.none_or]

/-- A scan without a failure has none on its first line and none behind it. -/
theorem success_of_cons {l : Line} {rest : List Line}
    (h : firstFailure (ofLines settings index (l :: rest)) = none) :
    (LineScan.ofLine settings index l).failure = none ∧
      firstFailure (ofLines settings (index + 1) rest) = none := by
  cases hf : (LineScan.ofLine settings index l).failure with
  | some e =>
    rw [ofLines_cons_of_failure hf, firstFailure_cons, hf] at h
    simp at h
  | none =>
    rw [firstFailure_ofLines_cons hf] at h
    exact ⟨rfl, h⟩

theorem ofLines_append_of_success {a : List Line}
    (h : firstFailure (ofLines settings index a) = none) (b : List Line) :
    ofLines settings index (a ++ b) =
      ofLines settings index a ++ ofLines settings (index + a.length) b := by
  induction a generalizing index with
  | nil => rfl
  | cons l a ih =>
    obtain ⟨hl, ha⟩ := success_of_cons h
    have hi : index + 1 + a.length = index + (l :: a).length := by
      rw [List.length_cons]
      omega
    rw [List.cons_append, ofLines_cons_of_success hl, ofLines_cons_of_success hl, ih ha, hi,
      List.cons_append]

theorem ofLines_append_of_failure {a : List Line} {e : LexError}
    (h : firstFailure (ofLines settings index a) = some e) (b : List Line) :
    ofLines settings index (a ++ b) = ofLines settings index a := by
  induction a generalizing index with
  | nil => simp [ofLines] at h
  | cons l a ih =>
    rw [List.cons_append]
    cases hf : (LineScan.ofLine settings index l).failure with
    | some e => rw [ofLines_cons_of_failure hf, ofLines_cons_of_failure hf]
    | none =>
      rw [firstFailure_ofLines_cons hf] at h
      rw [ofLines_cons_of_success hf, ofLines_cons_of_success hf, ih h]

theorem success_of_append {a b : List Line}
    (h : firstFailure (ofLines settings index (a ++ b)) = none) :
    firstFailure (ofLines settings index a) = none ∧
      firstFailure (ofLines settings (index + a.length) b) = none := by
  cases ha : firstFailure (ofLines settings index a) with
  | some e =>
    rw [ofLines_append_of_failure ha, ha] at h
    simp at h
  | none =>
    rw [ofLines_append_of_success ha, firstFailure_append, ha, Option.none_or] at h
    exact ⟨rfl, h⟩

theorem exists_of_mem_ofLines {lines : List Line} {found : LineScan}
    (h : found ∈ ofLines settings index lines) :
    ∃ i, ∃ l ∈ lines, found = LineScan.ofLine settings i l := by
  induction lines generalizing index with
  | nil => simp [ofLines] at h
  | cons l lines ih =>
    cases hf : (LineScan.ofLine settings index l).failure with
    | some e =>
      rw [ofLines_cons_of_failure hf] at h
      exact ⟨index, l, List.mem_cons_self, List.mem_singleton.mp h⟩
    | none =>
      rw [ofLines_cons_of_success hf] at h
      rcases List.mem_cons.mp h with rfl | h
      · exact ⟨index, l, List.mem_cons_self, rfl⟩
      · obtain ⟨i, m, hm, hfound⟩ := ih h
        exact ⟨i, m, List.mem_cons_of_mem _ hm, hfound⟩

theorem length_ofLines_of_success {lines : List Line}
    (h : firstFailure (ofLines settings index lines) = none) :
    (ofLines settings index lines).length = lines.length := by
  induction lines generalizing index with
  | nil => rfl
  | cons l lines ih =>
    obtain ⟨hl, hlines⟩ := success_of_cons h
    rw [ofLines_cons_of_success hl, List.length_cons, List.length_cons, ih hlines]

section behind

variable {a : List Line} (ha : firstFailure (ofLines settings index a) = none)
include ha

theorem getElem?_ofLines_length (l : Line) (b : List Line) :
    (ofLines settings index (a ++ l :: b))[a.length]? =
      some (LineScan.ofLine settings (index + a.length) l) := by
  obtain ⟨more, hmore⟩ := exists_ofLines_cons settings (index + a.length) l b
  rw [ofLines_append_of_success ha, hmore, ← length_ofLines_of_success ha,
    List.getElem?_append_right (Nat.le_refl _), Nat.sub_self, List.getElem?_cons_zero]

theorem firstFailure_of_failure {l : Line} {e : LexError}
    (he : (LineScan.ofLine settings (index + a.length) l).failure = some e) (b : List Line) :
    firstFailure (ofLines settings index (a ++ l :: b)) = some e := by
  rw [ofLines_append_of_success ha, firstFailure_append, ha, Option.none_or,
    ofLines_cons_of_failure he, firstFailure_cons, he, Option.some_or]

end behind

theorem getElem?_ofLines_of_success {lines : List Line} {i : Nat} {l : Line}
    (h : firstFailure (ofLines settings index lines) = none) (hl : lines[i]? = some l) :
    (ofLines settings index lines)[i]? = some (LineScan.ofLine settings (index + i) l) ∧
      (LineScan.ofLine settings (index + i) l).failure = none := by
  induction lines generalizing index i with
  | nil => simp at hl
  | cons m lines ih =>
    obtain ⟨hm, hlines⟩ := success_of_cons h
    rw [ofLines_cons_of_success hm]
    cases i with
    | zero =>
      obtain rfl : m = l := by simpa using hl
      exact ⟨rfl, hm⟩
    | succ i =>
      have hh := ih hlines (by simpa using hl)
      rw [Nat.add_assoc, Nat.add_comm 1 i] at hh
      simpa using hh

theorem ofLines_of_failure {lines : List Line} {e : LexError}
    (h : firstFailure (ofLines settings index lines) = some e) :
    ∃ a l b, lines = a ++ l :: b ∧ firstFailure (ofLines settings index a) = none ∧
      (LineScan.ofLine settings (index + a.length) l).failure = some e ∧
      ofLines settings index lines =
        ofLines settings index a ++ [LineScan.ofLine settings (index + a.length) l] := by
  induction lines generalizing index with
  | nil => simp [ofLines] at h
  | cons l lines ih =>
    cases hf : (LineScan.ofLine settings index l).failure with
    | some e' =>
      rw [ofLines_cons_of_failure hf] at h ⊢
      have he : e' = e := by simpa [firstFailure_cons, hf] using h
      exact ⟨[], l, lines, rfl, rfl, he ▸ hf, rfl⟩
    | none =>
      rw [firstFailure_ofLines_cons hf] at h
      obtain ⟨a, m, b, rfl, ha, hm, hscan⟩ := ih h
      have hi : index + 1 + a.length = index + (l :: a).length := by
        rw [List.length_cons]
        omega
      rw [hi] at hm hscan
      refine ⟨l :: a, m, b, rfl, ?_, hm, ?_⟩
      · rw [firstFailure_ofLines_cons hf]
        exact ha
      · rw [ofLines_cons_of_success hf, ofLines_cons_of_success hf, hscan, List.cons_append]

/-- Two scans whose first lines are related, with failures on both or on neither, are related if
what follows is. -/
theorem ofLines_cons_map {settings' : LexerSettings} {index' : Nat} {l l' : Line}
    {rest rest' : List Line} {m : LineScan → LineScan} {g : LexError → LexError}
    (hm : ∀ l, (m l).failure = l.failure.map g)
    (hline : LineScan.ofLine settings' index' l' = m (LineScan.ofLine settings index l))
    (hrest : ofLines settings' (index' + 1) rest' = (ofLines settings (index + 1) rest).map m) :
    ofLines settings' index' (l' :: rest') = (ofLines settings index (l :: rest)).map m := by
  have hfail : (LineScan.ofLine settings' index' l').failure =
      (LineScan.ofLine settings index l).failure.map g := by
    rw [hline, hm]
  cases hf : (LineScan.ofLine settings index l).failure with
  | some e =>
    rw [hf, Option.map_some] at hfail
    rw [ofLines_cons_of_failure hf, ofLines_cons_of_failure hfail, hline]
    rfl
  | none =>
    rw [hf, Option.map_none] at hfail
    rw [ofLines_cons_of_success hf, ofLines_cons_of_success hfail, hline, hrest]
    rfl

/-- Two scans that are related line by line are related as a whole. -/
theorem ofLines_map {settings' : LexerSettings} {n : Nat} {f : Line → Line}
    {m : LineScan → LineScan} {g : LexError → LexError}
    (hm : ∀ l, (m l).failure = l.failure.map g)
    (hline : ∀ index l,
      LineScan.ofLine settings' (index + n) (f l) = m (LineScan.ofLine settings index l))
    (lines : List Line) :
    ofLines settings' (index + n) (lines.map f) = (ofLines settings index lines).map m := by
  induction lines generalizing index with
  | nil => rfl
  | cons l lines ih =>
    refine ofLines_cons_map hm (hline index l) ?_
    rw [Nat.add_right_comm]
    exact ih

theorem result_of_success {source : Source}
    (h : firstFailure (ofLines settings 0 source.lines) = none) :
    (ofSource settings source).result =
      .ok (.ofRows ((ofLines settings 0 source.lines).map LineScan.tokens)) := by
  simp only [result, failure, ofSource, h]

theorem result_of_failure {source : Source} {e : LexError}
    (h : firstFailure (ofLines settings 0 source.lines) = some e) :
    (ofSource settings source).result = .error e := by
  simp only [result, failure, ofSource, h]

theorem result_eq_ok {source : Source} {table : TokenTable}
    (h : (ofSource settings source).result = .ok table) :
    firstFailure (ofLines settings 0 source.lines) = none ∧
      table = .ofRows ((ofLines settings 0 source.lines).map LineScan.tokens) := by
  cases hf : firstFailure (ofLines settings 0 source.lines) with
  | none =>
    rw [result_of_success hf] at h
    exact ⟨rfl, (Except.ok.inj h).symm⟩
  | some e => simp [result_of_failure hf] at h

theorem result_eq_error {source : Source} {e : LexError}
    (h : (ofSource settings source).result = .error e) :
    firstFailure (ofLines settings 0 source.lines) = some e := by
  cases hf : firstFailure (ofLines settings 0 source.lines) with
  | none => simp [result_of_success hf] at h
  | some e' =>
    rw [result_of_failure hf] at h
    rw [Except.error.inj h]

end Scan

end LineLexer
