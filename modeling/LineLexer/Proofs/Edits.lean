import LineLexer.Proofs.Emission
import Mathlib.Algebra.GroupWithZero.Nat

/-! Tables under edits. A table that is edited is a list of rows that is edited alike, with the
displays of the rows beside them; an edit that fails changes nothing. -/

namespace LineLexer

inductive TableEdit where
  | create (count : Nat)
  | add (token : Token) (line : Nat)
  | remove (index line : Nat)

inductive EditAnswer where
  | done
  | removed (token : Token)
  | failed (e : TableError)
deriving DecidableEq

/-- The edit does not ask for more lines than a table can have. -/
def TableEdit.Fits : TableEdit → Prop
  | create count => count ≤ TokenTable.maxLines
  | _ => True

namespace TokenTable

/-- Makes an edit. One that fails leaves the table as it is; one that does not fit ends the program
and has no answer. -/
def edit? (t : TokenTable) : TableEdit → Option (EditAnswer × TokenTable)
  | .create count => (create? count).map fun u => (.done, u)
  | .add token line =>
    match t.add token line with
    | .ok u => some (.done, u)
    | .error e => some (.failed e, t)
  | .remove index line =>
    match t.remove index line with
    | .ok (token, u) => some (.removed token, u)
    | .error e => some (.failed e, t)

def edits? (t : TokenTable) : List TableEdit → Option (List EditAnswer × TokenTable)
  | [] => some ([], t)
  | e :: edits =>
    match t.edit? e with
    | none => none
    | some (answer, u) => (u.edits? edits).map fun r => (answer :: r.1, r.2)

end TokenTable

/-- An edit of rows that are nothing but lists. -/
def editRows (rows : List (List Token)) : TableEdit → EditAnswer × List (List Token)
  | .create count => (.done, List.replicate count [])
  | .add token line =>
    match rows[line]? with
    | none => (.failed (.unknownLine line rows.length), rows)
    | some row => (.done, rows.set line (row ++ [token]))
  | .remove index line =>
    match rows[line]? with
    | none => (.failed (.unknownLine line rows.length), rows)
    | some row =>
      match row[index]? with
      | none => (.failed (.indexOutOfBounds index line row.length), rows)
      | some token => (.removed token, rows.set line (row.take index ++ row.drop (index + 1)))

def editRowsAll (rows : List (List Token)) : List TableEdit → List EditAnswer × List (List Token)
  | [] => ([], rows)
  | e :: edits =>
    let r := editRowsAll (editRows rows e).2 edits
    ((editRows rows e).1 :: r.1, r.2)

theorem modify_row {rows : List (List Token)} {line : Nat} {row : List Token}
    (h : rows[line]? = some row) (f : List Token → List Token) :
    rows.modify line f = rows.set line (f row) := by
  rw [List.modify_eq_set, h]
  rfl

namespace TokenTable

theorem create?_eq (count : Nat) :
    create? count =
      if count ≤ maxLines then some (ofRows (List.replicate count [])) else none := by
  simp [create?, create, ofRows]

theorem remove_ofRows {rows : List (List Token)} {line index : Nat} {row : List Token}
    {token : Token} (hline : rows[line]? = some row) (hindex : row[index]? = some token) :
    (ofRows rows).remove index line =
      .ok (token, ofRows (rows.modify line (·.eraseIdx index))) := by
  have hd := @modify_display (·.eraseIdx index) (·.eraseIdx index)
    (fun row => by simp [List.eraseIdx_eq_take_drop_succ]) rows line
  simp only [remove, ofRows, hline, hindex, hd]

/-- One edit keeps the displays beside the tokens and does to the tokens what it does to plain
rows. -/
theorem edit?_ofRows (rows : List (List Token)) {e : TableEdit} (h : e.Fits) :
    (ofRows rows).edit? e = some ((editRows rows e).1, ofRows (editRows rows e).2) := by
  cases e with
  | create count =>
    have hcount : count ≤ maxLines := h
    rw [edit?, create?_eq, if_pos hcount]
    rfl
  | add token line =>
    cases hline : rows[line]? with
    | none =>
      have hlt : ¬ line < rows.length := Nat.not_lt.mpr (List.getElem?_eq_none_iff.mp hline)
      simp only [edit?, add, lineCount, ofRows, hlt, if_false, editRows, hline]
    | some row =>
      have hlt : line < rows.length := (List.getElem?_eq_some_iff.mp hline).1
      simp only [edit?, add_ofRows hlt, editRows, hline, modify_row hline]
  | remove index line =>
    cases hline : rows[line]? with
    | none => simp only [edit?, remove, lineCount, ofRows, editRows, hline]
    | some row =>
      cases hindex : row[index]? with
      | none => simp only [edit?, remove, ofRows, editRows, hline, hindex]
      | some token =>
        simp only [edit?, remove_ofRows hline hindex, editRows, hline, hindex,
          modify_row hline, List.eraseIdx_eq_take_drop_succ]

theorem edits?_ofRows (rows : List (List Token)) {edits : List TableEdit}
    (h : ∀ e ∈ edits, e.Fits) :
    (ofRows rows).edits? edits =
      some ((editRowsAll rows edits).1, ofRows (editRowsAll rows edits).2) := by
  induction edits generalizing rows with
  | nil => rfl
  | cons e edits ih =>
    have he := edit?_ofRows rows (h e (by simp))
    have hh := ih (editRows rows e).2 (fun e' he' => h e' (List.mem_cons_of_mem _ he'))
    simp only [edits?, he, hh, Option.map_some, editRowsAll]

theorem edit?_eq_none (t : TokenTable) {e : TableEdit} (h : ¬ e.Fits) : t.edit? e = none := by
  cases e with
  | create count =>
    have hcount : ¬ count ≤ maxLines := h
    rw [edit?, create?_eq, if_neg hcount]
    rfl
  | add token line => exact absurd trivial h
  | remove index line => exact absurd trivial h

theorem fits_of_edits? {t : TokenTable} {edits : List TableEdit}
    {r : List EditAnswer × TokenTable} (h : t.edits? edits = some r) : ∀ e ∈ edits, e.Fits := by
  induction edits generalizing t r with
  | nil => simp
  | cons e edits ih =>
    cases hone : t.edit? e with
    | none => simp [edits?, hone] at h
    | some one =>
      simp only [edits?, hone, Option.map_eq_some_iff] at h
      obtain ⟨more, hmore, -⟩ := h
      intro e' he'
      rcases List.mem_cons.mp he' with rfl | he'
      · by_contra hfits
        simp [edit?_eq_none t hfits] at hone
      · exact ih hmore e' he'

theorem tokenCount_eq_sum (t : TokenTable) :
    t.tokenCount = (t.tokens.map List.length).sum := by
  rw [tokenCount, List.sum_eq_foldr, List.foldr_map]

/-- Where a token stands among all tokens: behind those of the lines before and those before it on
its line. -/
theorem getElem?_zipIdx_flatMap (rows : List (List Token)) (n k line : Nat) (token : Token) :
    ((rows.zipIdx n).flatMap fun row => row.1.map fun token => (row.2, token))[k]? =
        some (line, token) ↔
      ∃ i row index, line = n + i ∧ rows[i]? = some row ∧ row[index]? = some token ∧
        k = ((rows.take i).map List.length).sum + index := by
  induction rows generalizing n k with
  | nil => simp
  | cons row rows ih =>
    rw [List.zipIdx_cons, List.flatMap_cons]
    dsimp only
    -- the token stands on the first row, or it is counted on behind that row
    by_cases hk : k < row.length
    · rw [List.getElem?_append_left (by simpa using hk), List.getElem?_map]
      constructor
      · intro h
        obtain ⟨t, ht, he⟩ := Option.map_eq_some_iff.mp h
        obtain ⟨rfl, rfl⟩ := Prod.mk.inj he
        exact ⟨0, row, k, rfl, rfl, ht, by simp⟩
      · rintro ⟨i, r, index, rfl, hr, ht, hsum⟩
        cases i with
        | zero =>
          obtain rfl : row = r := by simpa using hr
          obtain rfl : k = index := by simpa using hsum
          rw [ht]
          rfl
        | succ i =>
          rw [List.take_succ_cons, List.map_cons, List.sum_cons] at hsum
          omega
    · rw [List.getElem?_append_right (by simpa using hk), List.length_map, ih]
      constructor
      · rintro ⟨i, r, index, rfl, hr, ht, hsum⟩
        refine ⟨i + 1, r, index, by omega, hr, ht, ?_⟩
        rw [List.take_succ_cons, List.map_cons, List.sum_cons]
        omega
      · rintro ⟨i, r, index, rfl, hr, ht, hsum⟩
        cases i with
        | zero =>
          obtain rfl : row = r := by simpa using hr
          obtain rfl : k = index := by simpa using hsum
          exact absurd (List.getElem?_eq_some_iff.mp ht).1 hk
        | succ i =>
          rw [List.take_succ_cons, List.map_cons, List.sum_cons] at hsum
          exact ⟨i, r, index, by omega, hr, ht, by omega⟩

theorem add_eq_error_iff (t : TokenTable) (token : Token) (line : Nat) (e : TableError) :
    t.add token line = .error e ↔ t.lineCount ≤ line ∧ e = .unknownLine line t.lineCount := by
  by_cases h : line < t.lineCount
  · simp [add, h, Nat.not_le.mpr h]
  · simp [add, h, Nat.not_lt.mp h, eq_comm]

theorem remove_eq_error_iff (t : TokenTable) (index line : Nat) (e : TableError) :
    t.remove index line = .error e ↔
      t.lineCount ≤ line ∧ e = .unknownLine line t.lineCount ∨
        ∃ row, t.tokens[line]? = some row ∧ row.length ≤ index ∧
          e = .indexOutOfBounds index line row.length := by
  cases hline : t.tokens[line]? with
  | none =>
    have hle : t.lineCount ≤ line := List.getElem?_eq_none_iff.mp hline
    simp [remove, hline, hle, eq_comm]
  | some row =>
    have hlt : line < t.lineCount := (List.getElem?_eq_some_iff.mp hline).1
    by_cases hindex : index < row.length
    · simp [remove, hline, hindex, Nat.not_le.mpr hlt, Nat.not_le.mpr hindex]
    · simp [remove, hline, hindex, Nat.not_le.mpr hlt, Nat.not_lt.mp hindex, eq_comm]

theorem eq_of_edit?_failed {t u : TokenTable} {edit : TableEdit} {e : TableError}
    (h : t.edit? edit = some (.failed e, u)) : u = t := by
  cases edit with
  | create count => simp [edit?] at h
  | add token line =>
    cases ha : t.add token line with
    | ok v => simp [edit?, ha] at h
    | error e' =>
      simp only [edit?, ha, Option.some.injEq, Prod.mk.injEq] at h
      exact h.2.symm
  | remove index line =>
    cases hr : t.remove index line with
    | ok v => simp [edit?, hr] at h
    | error e' =>
      simp only [edit?, hr, Option.some.injEq, Prod.mk.injEq] at h
      exact h.2.symm

/-- The two mappings of a table agree, its counts and its listing of all tokens are those of its
rows, and an edit is refused only for the place it names. -/
structure LockStep (t : TokenTable) : Prop where
  display_eq : t.display = t.tokens.map (·.map Token.display)
  tokenCount_eq : t.tokenCount = (t.tokens.map List.length).sum
  entries_iff : ∀ k line token, t.entries[k]? = some (line, token) ↔
    ∃ row index, t.tokens[line]? = some row ∧ row[index]? = some token ∧
      k = ((t.tokens.take line).map List.length).sum + index
  add_error_iff : ∀ token line e, t.add token line = .error e ↔
    t.lineCount ≤ line ∧ e = .unknownLine line t.lineCount
  remove_error_iff : ∀ index line e, t.remove index line = .error e ↔
    t.lineCount ≤ line ∧ e = .unknownLine line t.lineCount ∨
      ∃ row, t.tokens[line]? = some row ∧ row.length ≤ index ∧
        e = .indexOutOfBounds index line row.length
  unchanged : ∀ edit e u, t.edit? edit = some (.failed e, u) → u = t

theorem lockStep_ofRows (rows : List (List Token)) : (ofRows rows).LockStep where
  display_eq := rfl
  tokenCount_eq := tokenCount_eq_sum _
  entries_iff := by
    intro k line token
    rw [entries, getElem?_zipIdx_flatMap]
    simp
  add_error_iff := add_eq_error_iff _
  remove_error_iff := remove_eq_error_iff _
  unchanged := fun _ _ _ h => eq_of_edit?_failed h

/-- The tables that edits begin with. -/
inductive Initial : TokenTable → Prop where
  | empty : Initial empty
  | scanned (s : Scanner) {source : Source} {t : TokenTable} (h : (s.scan source).1 = .ok t) :
      Initial t

theorem Initial.eq_ofRows {t : TokenTable} (h : t.Initial) : t = ofRows t.tokens := by
  cases h with
  | empty => rfl
  | scanned s h =>
    rw [(Scanner.eq_of_scan h).2]
    rfl

/-- Edits of a table, failed ones among them, do to its tokens what they do to plain rows and give
the same answers, and behind each of them the table is in lock-step. -/
theorem edits_refine_rows {t : TokenTable} (ht : t.Initial) (edits : List TableEdit) :
    ((t.edits? edits).isSome ↔ ∀ e ∈ edits, e.Fits) ∧
      ∀ answers u, t.edits? edits = some (answers, u) →
        (answers, u.tokens) = editRowsAll t.tokens edits ∧ u.LockStep := by
  constructor
  · constructor
    · intro h
      obtain ⟨r, hr⟩ := Option.isSome_iff_exists.mp h
      exact fits_of_edits? hr
    · intro h
      rw [ht.eq_ofRows, edits?_ofRows t.tokens h]
      rfl
  · intro answers u h
    have hfits := fits_of_edits? h
    rw [ht.eq_ofRows, edits?_ofRows t.tokens hfits, Option.some.injEq, Prod.mk.injEq] at h
    obtain ⟨rfl, rfl⟩ := h
    exact ⟨rfl, lockStep_ofRows _⟩

theorem edits_refine_rows_of_scan :
    let one : Token := ⟨.int 1, ⟨⟨1, 1, 0⟩, ⟨1, 2, 1⟩⟩⟩
    let plus : Token := ⟨.operator .plus, ⟨⟨1, 2, 1⟩, ⟨1, 3, 2⟩⟩⟩
    let table := ofRows [[one, plus], []]
    let edits : List TableEdit := [.remove 2 0, .remove 0 0, .add one 1, .add one 2]
    table.Initial ∧ (table.edits? edits).isSome ∧
      ∀ answers u, table.edits? edits = some (answers, u) →
        answers = [.failed (.indexOutOfBounds 2 0 2), .removed one, .done,
          .failed (.unknownLine 2 2)] ∧ u.tokens = [[plus], [one]] ∧ u.LockStep := by
  intro one plus table edits
  have hscan : ((Scanner.new {}).scan (.ofText "1+\n")).1 = .ok table := by decide +kernel
  have ht : table.Initial := .scanned (Scanner.new {}) hscan
  obtain ⟨hfits, hrun⟩ := edits_refine_rows ht edits
  refine ⟨ht, hfits.mpr (by simp [edits, TableEdit.Fits]), ?_⟩
  intro answers u h
  obtain ⟨hrows, hlock⟩ := hrun answers u h
  obtain ⟨rfl, htokens⟩ := Prod.mk.inj hrows
  exact ⟨rfl, htokens, hlock⟩

/-- So many lines are more than a table can have. -/
theorem edits?_of_huge_count :
    empty.Initial ∧ empty.edits? [.create 18446744073709551615] = none := by
  have hmore : maxLines < 18446744073709551615 := by decide
  have hfits : ¬ TableEdit.Fits (.create 18446744073709551615) := Nat.not_le.mpr hmore
  exact ⟨.empty, by rw [edits?, edit?_eq_none empty hfits]⟩

end TokenTable

end LineLexer
