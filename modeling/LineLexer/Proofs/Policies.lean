import LineLexer.Proofs.Emission

/-! How the policies compare. All of them find the same characters that begin nothing, in the same
order, so skipping leaves out the diagnostics of collecting and rejecting fails at the first of
them. -/

namespace LineLexer

namespace LineScan

/-- Where stray characters are rejected a line fails at its first one, which stands before any
failure of the line itself. -/
theorem failure_rejectStray (failure : Option LexError) (items : List ScanItem) :
    (rejectStray failure items).failure = (strays ⟨items, failure⟩).head?.or failure := by
  induction items with
  | nil => rfl
  | cons i items ih =>
    cases i with
    | token t => exact ih
    | stray p c => rfl

theorem rejectStray_of_strays_eq_nil {failure : Option LexError} {items : List ScanItem}
    (h : strays ⟨items, failure⟩ = []) : rejectStray failure items = ⟨items, failure⟩ := by
  induction items with
  | nil => rfl
  | cons i items ih =>
    cases i with
    | token t =>
      have hh : rejectStray failure items = ⟨items, failure⟩ := ih h
      rw [rejectStray, hh]
      rfl
    | stray p c =>
      have hcons := strays_cons_stray p c ⟨items, failure⟩
      exact absurd (hcons.symm.trans h) (by simp)

end LineScan

namespace Scan

theorem ofLines_skip (strip : Bool) (index : Nat) (lines : List Line) :
    ofLines ⟨.skip, strip⟩ index lines = ofLines ⟨.collect, strip⟩ index lines := by
  have hh := @ofLines_map ⟨.collect, strip⟩ index ⟨.skip, strip⟩ 0 id id id
    (fun l => by simp) (fun _ _ => rfl) lines
  simpa using hh

/-- Up to the first stray character the two policies scan alike. The first one that is collected
ends the scan that rejects it, before any failure further on. -/
theorem ofLines_reject (strip : Bool) (index : Nat) (lines : List Line) :
    let collected := ofLines ⟨.collect, strip⟩ index lines
    let rejected := ofLines ⟨.reject, strip⟩ index lines
    firstFailure rejected =
        (collected.flatMap LineScan.strays).head?.or (firstFailure collected) ∧
      (collected.flatMap LineScan.strays = [] → rejected = collected) := by
  induction lines generalizing index with
  | nil => exact ⟨rfl, fun _ => rfl⟩
  | cons l lines ih =>
    intro collected rejected
    obtain ⟨one, hone⟩ : ∃ one, one = LineScan.ofLine ⟨.collect, strip⟩ index l := ⟨_, rfl⟩
    have hline : LineScan.ofLine ⟨.reject, strip⟩ index l =
        LineScan.rejectStray one.failure one.items := by
      rw [hone]
      rfl
    cases hs : one.strays with
    | cons e more =>
      obtain ⟨rest, hcollected⟩ := exists_ofLines_cons ⟨.collect, strip⟩ index l lines
      have hfail : (LineScan.ofLine ⟨.reject, strip⟩ index l).failure = some e := by
        have hfirst := LineScan.failure_rejectStray one.failure one.items
        rw [show LineScan.strays ⟨one.items, one.failure⟩ = e :: more from hs] at hfirst
        rw [hline, hfirst]
        rfl
      have hrejected : rejected = [_] := ofLines_cons_of_failure hfail lines
      rw [← hone] at hcollected
      rw [show collected = one :: rest from hcollected, hrejected, List.flatMap_cons, hs]
      refine ⟨?_, fun h => by simp at h⟩
      rw [firstFailure_cons, hfail]
      rfl
    | nil =>
      have hsame : LineScan.ofLine ⟨.reject, strip⟩ index l = one :=
        hline.trans (LineScan.rejectStray_of_strays_eq_nil hs)
      cases hf : one.failure with
      | some e =>
        have hcollected : collected = [_] := ofLines_cons_of_failure (hone ▸ hf) lines
        have hrejected : rejected = [_] := ofLines_cons_of_failure (hsame.symm ▸ hf) lines
        rw [hcollected, hrejected, hsame, ← hone, List.flatMap_singleton, hs]
        exact ⟨rfl, fun _ => rfl⟩
      | none =>
        have hcollected : collected = _ :: _ := ofLines_cons_of_success (hone ▸ hf) lines
        have hrejected : rejected = _ :: _ := ofLines_cons_of_success (hsame.symm ▸ hf) lines
        obtain ⟨hfailure, heq⟩ := ih (index + 1)
        rw [hcollected, hrejected, hsame, ← hone, firstFailure_cons, firstFailure_cons, hf,
          Option.none_or, Option.none_or, List.flatMap_cons, hs, List.nil_append]
        exact ⟨hfailure, fun h => congrArg _ (heq h)⟩

end Scan

/-- Under the three policies a source gives the same table or failure, except that the first
diagnostic of the scan that collects is the failure of the scan that rejects. -/
theorem policies_compare (strip : Bool) (source : Source) :
    let collect := (Scanner.new ⟨.collect, strip⟩).scan source
    let skip := (Scanner.new ⟨.skip, strip⟩).scan source
    let reject := (Scanner.new ⟨.reject, strip⟩).scan source
    skip.1 = collect.1 ∧ skip.2.diagnostics = [] ∧ reject.2.diagnostics = [] ∧
      reject.1 =
        match collect.2.diagnostics with
        | [] => collect.1
        | e :: _ => .error e := by
  intro collect skip reject
  obtain ⟨hfailure, hsame⟩ := Scan.ofLines_reject strip 0 source.lines
  have hcollected : collect.2.diagnostics =
      (Scan.ofLines ⟨.collect, strip⟩ 0 source.lines).flatMap LineScan.strays :=
    Scanner.scan_diagnostics _ _
  have hskip : skip.1 = collect.1 := by
    simp only [skip, collect, Scanner.scan_result, Scanner.new, Scan.result, Scan.failure,
      Scan.ofSource, Scan.ofLines_skip]
  refine ⟨hskip, Scanner.scan_diagnostics _ _, Scanner.scan_diagnostics _ _, ?_⟩
  rw [hcollected]
  cases hs : (Scan.ofLines ⟨.collect, strip⟩ 0 source.lines).flatMap LineScan.strays with
  | nil =>
    simp only [reject, collect, Scanner.scan_result, Scanner.new, Scan.result, Scan.failure,
      Scan.ofSource, hsame hs]
  | cons e more =>
    rw [hs, List.head?_cons, Option.some_or] at hfailure
    exact Scanner.scan_of_failure hfailure

end LineLexer
