import LineLexer.Proofs.Decoding
import LineLexer.Proofs.Emission
import LineLexer.Proofs.Halt
import Mathlib.Data.List.Forall2

/-! Strings with and without their quotes. The choice is seen in the text of a string and nowhere
else: a scan takes the same way through the source, and the text that it keeps is what lies between
the two quotes. -/

namespace LineLexer

/-- The second token is the first without the quotes of a string. -/
structure Token.Strips (t u : Token) : Prop where
  kind : u.kind = t.kind
  span : u.span = t.span
  value : t.kind ≠ .str → u.value = t.value
  quoted : ∀ raw, t.value = .str raw → ∃ mark body, isQuote mark = true ∧ mark ∉ body ∧
    raw.toList = mark :: body ++ [mark] ∧ u.value = .str (String.ofList body) ∧
    Utf8.slice? raw 1 (raw.utf8ByteSize - 1) = some (String.ofList body)

/-- The two lines end alike, and their tokens differ by the quotes of strings. -/
structure LineScan.Strips (s t : LineScan) : Prop where
  failure : t.failure = s.failure
  strays : t.strays = s.strays
  tokens : List.Forall₂ Token.Strips s.tokens t.tokens

theorem Utf8.slice?_quoted {mark : Char} (quote : isQuote mark = true) (body : List Char) :
    let raw := String.ofList (mark :: body ++ [mark])
    slice? raw 1 (raw.utf8ByteSize - 1) = some (String.ofList body) := by
  intro raw
  have hone : byteLength [mark] = 1 := by
    rcases isQuote_iff.mp quote with rfl | rfl <;> rfl
  have hraw : raw.toList = [mark] ++ body ++ [mark] := String.toList_ofList
  have hsize : raw.utf8ByteSize = 1 + byteLength body + 1 := by
    rw [utf8ByteSize_eq, hraw, byteLength_append, byteLength_append, hone]
  have hslice := slice?_append hraw
  rwa [hone, show 1 + byteLength body = raw.utf8ByteSize - 1 by omega] at hslice

theorem Lexeme.strips (l : Lexeme) (span : Span) :
    Token.Strips ⟨l.value false, span⟩ ⟨l.value true, span⟩ := by
  cases l with
  | str mark body quote closed =>
    refine ⟨rfl, rfl, fun h => absurd rfl h, ?_⟩
    intro raw hraw
    obtain rfl : String.ofList (mark :: body ++ [mark]) = raw := by simpa [value] using hraw
    exact ⟨mark, body, quote, closed, String.toList_ofList, rfl, Utf8.slice?_quoted quote body⟩
  | int | float | operator => exact ⟨rfl, rfl, fun _ => rfl, fun raw h => by simp [value] at h⟩

theorem forall₂_itemsTokens (p : Position) (items : List Item) :
    List.Forall₂ Token.Strips (itemsTokens false p items) (itemsTokens true p items) := by
  induction items generalizing p with
  | nil => exact .nil
  | cons i items ih =>
    cases i with
    | lexeme l => exact .cons (l.strips _) (ih _)
    | gap c hc => exact ih _

/-- One line: whatever is read on it and wherever it ends, the choice is not looked at. -/
theorem LineScan.strips_ofLine (policy : Policy) (index : Nat) (l : Line) :
    Strips (ofLine ⟨policy, false⟩ index l) (ofLine ⟨policy, true⟩ index l) := by
  have hfound : ∀ items failure, Strips ⟨itemsFound false (l.start index) items, failure⟩
      ⟨itemsFound true (l.start index) items, failure⟩ := by
    intro items failure
    refine ⟨rfl, ?_, ?_⟩
    · rw [strays_found, strays_found]
    · rw [tokens_found, tokens_found]
      exact forall₂_itemsTokens _ items
  obtain ⟨items, rest, hr, ha, rfl | ⟨kind, text, more, hh, rfl⟩⟩ := exists_reads policy l.text
  · rw [ofLine, ofLine, under_eq_of_reads hr ha, under_eq_of_reads hr ha]
    exact hfound items none
  · rw [ofLine, ofLine, under_eq_of_halt hr ha hh, under_eq_of_halt hr ha hh]
    exact hfound items _

namespace Scan

theorem forall₂_ofLines (policy : Policy) (index : Nat) (lines : List Line) :
    List.Forall₂ LineScan.Strips (ofLines ⟨policy, false⟩ index lines)
      (ofLines ⟨policy, true⟩ index lines) := by
  induction lines generalizing index with
  | nil => exact .nil
  | cons l lines ih =>
    have hline := LineScan.strips_ofLine policy index l
    cases hf : (LineScan.ofLine ⟨policy, false⟩ index l).failure with
    | some e =>
      have hf' := hline.failure.trans hf
      rw [ofLines_cons_of_failure hf, ofLines_cons_of_failure hf']
      exact .cons hline .nil
    | none =>
      have hf' := hline.failure.trans hf
      rw [ofLines_cons_of_success hf, ofLines_cons_of_success hf']
      exact .cons hline (ih _)

theorem firstFailure_of_strips {a b : List LineScan} (h : List.Forall₂ LineScan.Strips a b) :
    firstFailure b = firstFailure a := by
  induction h with
  | nil => rfl
  | cons hline hlines ih => rw [firstFailure_cons, firstFailure_cons, hline.failure, ih]

theorem strays_of_strips {a b : List LineScan} (h : List.Forall₂ LineScan.Strips a b) :
    b.flatMap LineScan.strays = a.flatMap LineScan.strays := by
  induction h with
  | nil => rfl
  | cons hline hlines ih => rw [List.flatMap_cons, List.flatMap_cons, hline.strays, ih]

end Scan

/-- Scans that keep and that drop the quotes of strings go the same way, and their tokens differ by
those quotes. This holds of what a failed scan has found before its failure too. -/
theorem scan_stripQuotes (policy : Policy) (source : Source) :
    let plain := (Scanner.new ⟨policy, false⟩).scan source
    let stripped := (Scanner.new ⟨policy, true⟩).scan source
    stripped.2.diagnostics = plain.2.diagnostics ∧
    (match plain.1, stripped.1 with
      | .ok t, .ok u => List.Forall₂ (List.Forall₂ Token.Strips) t.tokens u.tokens
      | .error e, .error f => f = e
      | _, _ => False) ∧
    List.Forall₂ (fun s t => List.Forall₂ Token.Strips s.tokens t.tokens)
      (Scan.ofSource ⟨policy, false⟩ source).lines (Scan.ofSource ⟨policy, true⟩ source).lines := by
  intro plain stripped
  have hlines := Scan.forall₂_ofLines policy 0 source.lines
  have hfailure := Scan.firstFailure_of_strips hlines
  have htokens := hlines.imp fun s t h => h.tokens
  refine ⟨?_, ?_, htokens⟩
  · have hplain : plain.2.diagnostics = policy.kept _ := Scanner.scan_diagnostics _ _
    have hstripped : stripped.2.diagnostics = policy.kept _ := Scanner.scan_diagnostics _ _
    rw [hplain, hstripped]
    exact congrArg policy.kept (Scan.strays_of_strips hlines)
  · cases hf : Scan.firstFailure (Scan.ofLines ⟨policy, false⟩ 0 source.lines) with
    | some e =>
      rw [hf] at hfailure
      have hplain : plain.1 = .error e := Scanner.scan_of_failure hf
      have hstripped : stripped.1 = .error e := Scanner.scan_of_failure hfailure
      rw [hplain, hstripped]
    | none =>
      rw [hf] at hfailure
      have hplain : plain.1 = .ok _ := Scanner.scan_of_success hf
      have hstripped : stripped.1 = .ok _ := Scanner.scan_of_success hfailure
      rw [hplain, hstripped]
      exact List.forall₂_map_left_iff.mpr (List.forall₂_map_right_iff.mpr htokens)

/-- A body may be empty, and the other quote is part of it. -/
example :
    ((Scanner.new ⟨.reject, true⟩).scan (.ofText "'é\"' \"\"")).1.map TokenTable.display =
        .ok [["STR:é\"", "STR:"]] ∧
      ((Scanner.new ⟨.reject, false⟩).scan (.ofText "'é\"' \"\"")).1.map TokenTable.display =
        .ok [["STR:'é\"'", "STR:\"\""]] := by
  decide +kernel

end LineLexer
