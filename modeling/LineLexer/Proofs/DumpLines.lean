import LineLexer.Compile
import LineLexer.Proofs.NumberValues
import LineLexer.Proofs.TableText

/-! The JSON dump of a table, decoded. Its members are the lines, each under its index, in the order
of the indices as texts; and all of a token is found in it again. -/

namespace LineLexer

namespace Json

section sorted

/-- Sorting the members of a record only reorders them, and sorts each of them in turn. -/
theorem sortKeys_record (members : List (String × Json)) :
    ∃ sorted : List (String × Json), (record members).sortKeys = record sorted ∧
      sorted.Perm (members.map fun m => (m.1, m.2.sortKeys)) ∧
      sorted.Pairwise fun a b => a.1 ≤ b.1 := by
  let le : String × Json → String × Json → Bool := fun a b => !decide (b.1 < a.1)
  have hle : ∀ a b, le a b = true ↔ a.1 ≤ b.1 := by
    intro a b
    rw [Bool.not_eq_true', decide_eq_false_iff_not, not_lt]
  refine ⟨(members.map fun m => (m.1, m.2.sortKeys)).mergeSort le, ?_, List.mergeSort_perm _ _, ?_⟩
  · -- each key is sorted as the text that it is, whether it stands under `some` or not
    have hmap := List.map_mergeSort (r := le) (l := members.map fun m => (m.1, m.2.sortKeys))
      (s := fun a b => !decide (b.1.getD "" < a.1.getD "")) (f := fun m => (some m.1, m.2))
      (fun _ _ _ _ => rfl)
    rw [record, sortKeys, sortMembers_eq_map, record, hmap, List.map_map, List.map_map]
    rfl
  · have hsorted := @List.pairwise_mergeSort _ le
      (fun a b c hab hbc => (hle a c).mpr (((hle a b).mp hab).trans ((hle b c).mp hbc)))
      (fun a b => by rw [Bool.or_eq_true, hle, hle]; exact le_total a.1 b.1)
      (members.map fun m => (m.1, m.2.sortKeys))
    exact hsorted.imp fun h => (hle _ _).mp h

theorem sortKeys_array_map {α : Type} (write : α → Json) (items : List α) :
    (array (items.map write)).sortKeys = .array (items.map fun a => (write a).sortKeys) := by
  rw [sortKeys, sortItems_eq_map, List.map_map]
  rfl

theorem fields?_sortKeys {members : List (String × Json)} (h : (members.map Prod.fst).Nodup)
    (names : List String) :
    (record members).sortKeys.fields? names =
      some (names.map fun name => (members.map fun m => (m.1, m.2.sortKeys)).lookup name) := by
  obtain ⟨sorted, hsorted, hperm, -⟩ := sortKeys_record members
  rw [hsorted]
  refine fields?_of_perm hperm ?_ names
  rwa [List.map_map]

/-- A sorted record of lines has each index once, in the order of texts: ten comes before two. -/
theorem sortKeys_linesJson (rows : List Json) :
    ∃ members, (TokenTable.linesJson rows).sortKeys = record members ∧
      (members.map Prod.fst).Perm ((List.range rows.length).map Nat.repr) ∧
      (members.Pairwise fun a b => a.1 < b.1) ∧
      ∀ (i : Nat) (v : Json), rows[i]? = some v → (i.repr, v.sortKeys) ∈ members := by
  obtain ⟨sorted, heq, hperm, hle⟩ :=
    sortKeys_record (rows.zipIdx.map fun row => (row.2.repr, row.1))
  have hkeys : (sorted.map Prod.fst).Perm ((List.range rows.length).map Nat.repr) := by
    have hindex : (List.range rows.length).map Nat.repr =
        ((rows.zipIdx.map fun row => (row.2.repr, row.1)).map fun m => (m.1, m.2.sortKeys)).map
          Prod.fst := by
      rw [List.range_eq_range', ← List.zipIdx_map_snd, List.map_map, List.map_map, List.map_map]
      rfl
    rw [hindex]
    exact hperm.map Prod.fst
  refine ⟨sorted, heq, hkeys, ?_, ?_⟩
  · have hnodup : (sorted.map Prod.fst).Nodup :=
      hkeys.nodup_iff.mpr (List.nodup_range.map fun _ _ h => Nat.repr_injective h)
    exact (hle.and (List.pairwise_map.mp hnodup)).imp fun h => lt_of_le_of_ne h.1 h.2
  · intro i v hv
    refine hperm.mem_iff.mpr ?_
    rw [List.map_map]
    exact List.mem_map.mpr ⟨(v, i), List.mk_mem_zipIdx_iff_getElem?.mpr hv, rfl⟩

end sorted

end Json

section reader

/-- The value of a token of this kind. A float that is null is infinite. -/
def TokenValue.ofJson? : TokenKind → Option Json → Option TokenValue
  | .int, some (.number lexeme) => lexeme.toInt?.map .int
  | .float, some (.number lexeme) => (Binary64.ofNumber? lexeme.toList).map .float
  | .float, some .null => some (.float .infinity)
  | .str, some (.string s) => s.map .str
  | .ident, some (.string s) => s.map .ident
  | .operator op, none => some (.operator op)
  | _, _ => none

def Token.ofJson? (v : Json) : Option Token := do
  match ← v.fields? ["kind", "literal", "span"] with
  | [some kind, literal, some span] =>
    let name ← kind.text?
    let kind ← TokenKind.all.find? (·.name == name)
    some ⟨← TokenValue.ofJson? kind literal, ← Span.ofJson? span⟩
  | _ => none

end reader

/-- All of the token is read from `v`. It has no literal exactly when the token is an operator, and
null for one exactly when the token is an infinite float. -/
structure Token.IsWritten (t : Token) (v : Json) : Prop where
  ofJson?_eq : ofJson? v = some t
  absent_iff : v.fields? ["literal"] = some [none] ↔ ∃ op, t.kind = .operator op
  null_iff : v.fields? ["literal"] = some [some .null] ↔
    ∃ x : Binary64, t.value = .float x ∧ x.isInfinite = true

theorem Position.ofJson?_sortKeys (p : Position) : ofJson? p.toJson.sortKeys = some p := by
  have hfields : p.toJson.sortKeys.fields? ["line", "column", "byte_offset"] =
      some [some (.nat p.line), some (.nat p.column), some (.nat p.byteOffset)] :=
    Json.fields?_sortKeys (by simp) _
  rw [ofJson?, hfields]
  simp [Json.nat?_nat]

theorem Span.ofJson?_sortKeys (s : Span) : ofJson? s.toJson.sortKeys = some s := by
  have hfields : s.toJson.sortKeys.fields? ["start", "end"] =
      some [some s.start.toJson.sortKeys, some s.stop.toJson.sortKeys] :=
    Json.fields?_sortKeys (by simp) _
  rw [ofJson?, hfields]
  simp [Position.ofJson?_sortKeys]

/-- A literal has no members to sort. -/
theorem TokenValue.sortKeys_literalJson? {t : TokenValue} {v : Json}
    (h : t.literalJson? = some v) : v.sortKeys = v := by
  cases t with
  | int n => rw [← Option.some.inj h]; rfl
  | float x =>
    rw [← Option.some.inj h]
    cases x.jsonNumber? <;> rfl
  | str s => rw [← Option.some.inj h]; rfl
  | ident s => rw [← Option.some.inj h]; rfl
  | operator op => simp [literalJson?] at h

theorem Token.fields?_sortKeys (t : Token) :
    t.toJson.sortKeys.fields? ["kind", "literal", "span"] =
        some [some (.text t.kind.name), t.value.literalJson?, some t.span.toJson.sortKeys] ∧
      t.toJson.sortKeys.fields? ["literal"] = some [t.value.literalJson?] := by
  rw [toJson]
  cases hv : t.value.literalJson? with
  | none => exact ⟨Json.fields?_sortKeys (by simp) _, Json.fields?_sortKeys (by simp) _⟩
  | some v =>
    have hsorted := TokenValue.sortKeys_literalJson? hv
    have hthree : (Json.record [("kind", .text t.kind.name), ("literal", v),
        ("span", t.span.toJson)]).sortKeys.fields? ["kind", "literal", "span"] =
        some [some (.text t.kind.name), some v.sortKeys, some t.span.toJson.sortKeys] :=
      Json.fields?_sortKeys (by simp) _
    have hone : (Json.record [("kind", .text t.kind.name), ("literal", v),
        ("span", t.span.toJson)]).sortKeys.fields? ["literal"] = some [some v.sortKeys] :=
      Json.fields?_sortKeys (by simp) _
    rw [hsorted] at hthree hone
    exact ⟨hthree, hone⟩

namespace Lexeme

variable (l : Lexeme) (strip : Bool)

theorem ofJson?_literalJson? :
    TokenValue.ofJson? (l.value strip).kind (l.value strip).literalJson? = some (l.value strip) := by
  cases l with
  | int run fits =>
    have hint : (Int.repr (digitsValue run.chars)).toInt? = some (digitsValue run.chars : Int) :=
      Int.toInt?_repr _
    simp [value, TokenValue.kind, TokenValue.literalJson?, Json.int, TokenValue.ofJson?, hint]
  | float whole fraction digits =>
    obtain ⟨m, hle, hx⟩ := Binary64.exists_magnitude (.ofDigits whole.chars fraction)
    rw [value, hx]
    cases hs : (Binary64.ofMagnitude m).jsonNumber? with
    | none =>
      have hm : m = Binary64.infiniteMagnitude := by
        rw [Binary64.jsonNumber?_ofMagnitude hle] at hs
        split_ifs at hs with hlt
        omega
      have hliteral : (TokenValue.float (.ofMagnitude m)).literalJson? = some .null := by
        rw [TokenValue.literalJson?, hs]
        rfl
      rw [hliteral, hm]
      rfl
    | some lexeme =>
      have hread := Binary64.ofNumber?_jsonNumber? hle hs
      simp [TokenValue.kind, TokenValue.literalJson?, Json.ofOption, hs, TokenValue.ofJson?, hread]
  | str mark body quote closed => rfl
  | operator op => rfl

theorem literalJson?_eq_none_iff :
    (l.value strip).literalJson? = none ↔ ∃ op, (l.value strip).kind = .operator op := by
  cases l <;> simp [value, TokenValue.literalJson?, TokenValue.kind]

theorem literalJson?_eq_null_iff :
    (l.value strip).literalJson? = some .null ↔
      ∃ x : Binary64, l.value strip = .float x ∧ x.isInfinite = true := by
  cases l with
  | float whole fraction digits =>
    obtain ⟨m, hle, hx⟩ := Binary64.exists_magnitude (.ofDigits whole.chars fraction)
    rw [value, hx]
    have hnone : (Binary64.ofMagnitude m).jsonNumber? = none ↔
        (Binary64.ofMagnitude m).isInfinite = true := by
      rw [Binary64.jsonNumber?_ofMagnitude hle, Binary64.isInfinite_ofMagnitude hle]
      split_ifs with hlt
      all_goals simp [hlt]
    have hnull : (TokenValue.float (.ofMagnitude m)).literalJson? = some .null ↔
        (Binary64.ofMagnitude m).jsonNumber? = none := by
      rw [TokenValue.literalJson?]
      cases (Binary64.ofMagnitude m).jsonNumber? <;> simp [Json.ofOption]
    rw [hnull, hnone]
    simp
  | int | str | operator => simp [value, TokenValue.literalJson?, Json.int, Json.text]

theorem isWritten (span : Span) :
    Token.IsWritten ⟨l.value strip, span⟩ (Token.toJson ⟨l.value strip, span⟩).sortKeys := by
  obtain ⟨hfields, hliteral⟩ := Token.fields?_sortKeys ⟨l.value strip, span⟩
  refine ⟨?_, ?_, ?_⟩
  · rw [Token.ofJson?, hfields]
    simp [Json.text, Json.text?, TokenKind.find?_name, Token.kind, l.ofJson?_literalJson?,
      Span.ofJson?_sortKeys]
  · rw [hliteral, Token.kind, ← l.literalJson?_eq_none_iff strip]
    simp
  · rw [hliteral, ← l.literalJson?_eq_null_iff strip]
    simp

end Lexeme

theorem TokenTable.isWritten_of_tokenize {settings : LexerSettings} {text : String} {t : Tokenized}
    (h : tokenize settings text = .ok t) {row : List Token} (hrow : row ∈ t.table.tokens) :
    List.Forall₂ Token.IsWritten row (row.map fun token => token.toJson.sortKeys) := by
  obtain ⟨-, rfl⟩ := eq_of_tokenize h
  obtain ⟨found, hfound, rfl⟩ := List.mem_map.mp hrow
  obtain ⟨index, line, -, rfl⟩ := Scan.exists_of_mem_ofLines hfound
  rw [List.forall₂_map_right_iff, List.forall₂_same]
  intro token htoken
  obtain ⟨l, hl, -⟩ := LineScan.exists_lexeme_of_mem htoken
  obtain ⟨value, span⟩ := token
  obtain rfl : value = l.value settings.stripQuotes := hl
  exact l.isWritten _ span

/-- The JSON dump is the text of one record and a line feed. It has the index of each line once, in
the order of the indices as texts, and under it what the line shows; or with `tokens` its tokens. -/
theorem jsonDump_of_tokenize {settings : LexerSettings} {text : String} {t : Tokenized}
    (h : tokenize settings text = .ok t) (output : OutputSettings)
    (hjson : output.format = .json) :
    ∃ (document : String) (members : List (String × Json)),
      t.table.dump output = document ++ "\n" ∧
      (∀ v, Json.IsText v document ↔ v = .record members) ∧
      (members.map Prod.fst).Perm ((List.range t.table.lineCount).map Nat.repr) ∧
      (members.Pairwise fun a b => a.1 < b.1) ∧
      (output.tokens = false → ∀ (i : Nat) shown, t.table.display[i]? = some shown →
        (i.repr, .array (shown.map Json.text)) ∈ members) ∧
      (output.tokens = true → ∀ (i : Nat) row, t.table.tokens[i]? = some row →
        ∃ items, (i.repr, .array items) ∈ members ∧ List.Forall₂ Token.IsWritten row items) := by
  obtain ⟨members, hsorted, hkeys, hascending, hlines⟩ :=
    Json.sortKeys_linesJson (t.table.rowsJson output.tokens)
  have hparse := t.table.parse?_rowsJson output.tokens
  have hlength : (t.table.rowsJson output.tokens).length = t.table.lineCount := by
    obtain ⟨-, rfl⟩ := eq_of_tokenize h
    cases output.tokens <;> simp [TokenTable.rowsJson, TokenTable.lineCount, TokenTable.ofRows]
  refine ⟨(TokenTable.linesJson (t.table.rowsJson output.tokens)).sortKeys.pretty, members,
    ?_, ?_, hlength ▸ hkeys, hascending, ?_, ?_⟩
  · rw [TokenTable.dump, hjson]
    rfl
  · intro v
    rw [← Json.parse?_eq_some_iff, hparse, hsorted, Option.some.injEq, eq_comm]
  · intro htokens i shown hshown
    have hrow : (t.table.rowsJson output.tokens)[i]? = some (.array (shown.map Json.text)) := by
      simp [htokens, TokenTable.rowsJson, hshown]
    have hmem := hlines i _ hrow
    rwa [Json.sortKeys_array_map] at hmem
  · intro htokens i row hrow
    have hrow' : (t.table.rowsJson output.tokens)[i]? = some (.array (row.map Token.toJson)) := by
      simp [htokens, TokenTable.rowsJson, hrow]
    have hmem := hlines i _ hrow'
    rw [Json.sortKeys_array_map] at hmem
    exact ⟨_, hmem, TokenTable.isWritten_of_tokenize h (List.mem_of_getElem? hrow)⟩

theorem jsonDump_of_eleven_lines :
    let output : OutputSettings := { format := .json, tokens := true }
    let token : Token := ⟨.float ⟨0x401e000000000000⟩, ⟨⟨11, 1, 14⟩, ⟨11, 4, 17⟩⟩⟩
    ∃ (t : Tokenized) (document : String) (members : List (String × Json)),
      tokenize {} "+\n\n'\"'\n\n\n\n\n\n\n\n7.5" = .ok t ∧
        t.table.dump output = document ++ "\n" ∧
        (∀ v, Json.IsText v document ↔ v = .record members) ∧
        members.map Prod.fst = ["0", "1", "10", "2", "3", "4", "5", "6", "7", "8", "9"] ∧
        ∃ items, ("10", .array items) ∈ members ∧ List.Forall₂ Token.IsWritten [token] items := by
  intro output token
  let rows : List (List Token) :=
    [[⟨.operator .plus, ⟨⟨1, 1, 0⟩, ⟨1, 2, 1⟩⟩⟩], [], [⟨.str "'\"'", ⟨⟨3, 1, 3⟩, ⟨3, 4, 6⟩⟩⟩],
      [], [], [], [], [], [], [], [token]]
  have htokenize : tokenize {} "+\n\n'\"'\n\n\n\n\n\n\n\n7.5" = .ok ⟨.ofRows rows, []⟩ := by
    decide +kernel
  obtain ⟨document, members, hdump, htext, hkeys, hascending, -, hlines⟩ :=
    jsonDump_of_tokenize htokenize output rfl
  refine ⟨_, document, members, htokenize, hdump, htext, ?_, hlines rfl 10 [token] rfl⟩
  have hsorted : (["0", "1", "10", "2", "3", "4", "5", "6", "7", "8", "9"] : List String).Pairwise
      (· < ·) := by decide +kernel
  have hperm : ((List.range 11).map Nat.repr).Perm
      ["0", "1", "10", "2", "3", "4", "5", "6", "7", "8", "9"] := by decide +kernel
  exact (hkeys.trans hperm).eq_of_pairwise (fun _ _ _ _ h h' => (lt_asymm h h').elim)
    (List.pairwise_map.mpr hascending) hsorted

end LineLexer
