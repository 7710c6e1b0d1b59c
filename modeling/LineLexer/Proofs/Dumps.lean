import LineLexer.Dump
import LineLexer.Proofs.ReadBack

/-! The JSON dump of a table is a JSON text, whatever tokens the table holds. -/

namespace LineLexer

namespace Json

theorem printable_record {members : List (String × Json)} (h : ∀ m ∈ members, Printable m.2) :
    Printable (record members) := by
  refine .object ?_ ?_
  · intro m hm
    obtain ⟨n, hn, rfl⟩ := List.mem_map.mp hm
    rfl
  · intro m hm
    obtain ⟨n, hn, rfl⟩ := List.mem_map.mp hm
    exact h n hn

theorem printable_nat (n : Nat) : Printable (.nat n) := .number (isNumber_nat n)

theorem printable_ofOption {α : Type} {write : α → Json} (h : ∀ a, Printable (write a))
    (a : Option α) : Printable (ofOption write a) := by
  cases a with
  | none => exact .null
  | some a => exact h a

theorem printable_texts (texts : List String) : Printable (.array (texts.map Json.text)) := by
  refine .array fun v hv => ?_
  obtain ⟨s, hs, rfl⟩ := List.mem_map.mp hv
  exact .text s

theorem sortItems_eq_map (items : List Json) : sortItems items = items.map sortKeys := by
  induction items with
  | nil => rw [sortItems, List.map_nil]
  | cons v items ih => rw [sortItems, ih, List.map_cons]

theorem sortMembers_eq_map (members : List (Option String × Json)) :
    sortMembers members = members.map fun m => (m.1, m.2.sortKeys) := by
  induction members with
  | nil => rw [sortMembers, List.map_nil]
  | cons m members ih => rw [sortMembers, ih, List.map_cons]

theorem Printable.sortKeys {v : Json} (h : Printable v) : Printable v.sortKeys := by
  induction h with
  | null => exact .null
  | bool b => exact .bool b
  | number hn => exact .number hn
  | text s => exact .text s
  | array h ih =>
    rw [Json.sortKeys, sortItems_eq_map]
    refine .array fun v hv => ?_
    obtain ⟨w, hw, rfl⟩ := List.mem_map.mp hv
    exact ih w hw
  | object keys values ih =>
    rw [Json.sortKeys, sortMembers_eq_map]
    refine .object ?_ ?_
    · intro m hm
      obtain ⟨n, hn, rfl⟩ := List.mem_map.mp (List.mem_mergeSort.mp hm)
      exact keys n hn
    · intro m hm
      obtain ⟨n, hn, rfl⟩ := List.mem_map.mp (List.mem_mergeSort.mp hm)
      exact ih n hn

end Json

open Json (Printable printable_record printable_nat printable_texts)

theorem Position.printable_toJson (p : Position) : Printable p.toJson := by
  refine printable_record ?_
  simp only [List.mem_cons, List.not_mem_nil, or_false]
  rintro m (rfl | rfl | rfl) <;> exact printable_nat _

theorem Span.printable_toJson (s : Span) : Printable s.toJson := by
  refine printable_record ?_
  simp only [List.mem_cons, List.not_mem_nil, or_false]
  rintro m (rfl | rfl)
  · exact s.start.printable_toJson
  · exact s.stop.printable_toJson

theorem TokenValue.printable_literalJson? {t : TokenValue} {v : Json}
    (h : t.literalJson? = some v) : Printable v := by
  cases t with
  | int n =>
    obtain rfl := Option.some.inj h
    exact .number (Json.isNumber_int n)
  | float x =>
    obtain rfl := Option.some.inj h
    cases hx : x.jsonNumber? with
    | none => exact .null
    | some s => exact .number (Binary64.isNumber_jsonNumber? hx)
  | str s =>
    obtain rfl := Option.some.inj h
    exact .text s
  | ident s =>
    obtain rfl := Option.some.inj h
    exact .text s
  | operator op => simp [literalJson?] at h

theorem Token.printable_toJson (t : Token) : Printable t.toJson := by
  have hkind : Printable (.text t.kind.name) := .text _
  rw [toJson]
  cases hv : t.value.literalJson? with
  | none =>
    refine printable_record ?_
    simp only [List.cons_append, List.nil_append, List.mem_cons, List.not_mem_nil, or_false]
    rintro m (rfl | rfl)
    · exact hkind
    · exact t.span.printable_toJson
  | some v =>
    refine printable_record ?_
    simp only [List.cons_append, List.nil_append, List.mem_cons, List.not_mem_nil, or_false]
    rintro m (rfl | rfl | rfl)
    · exact hkind
    · exact TokenValue.printable_literalJson? hv
    · exact t.span.printable_toJson

namespace TokenTable

theorem printable_linesJson {rows : List Json} (h : ∀ v ∈ rows, Printable v) :
    Printable (linesJson rows) := by
  refine printable_record fun m hm => ?_
  obtain ⟨⟨v, i⟩, hrow, rfl⟩ := List.mem_map.mp hm
  exact h v (List.fst_mem_of_mem_zipIdx hrow)

/-- The lines as the dump shows them. -/
def rowsJson (t : TokenTable) (tokens : Bool) : List Json :=
  if tokens then t.tokens.map fun row => .array (row.map Token.toJson)
  else t.display.map fun row => .array (row.map Json.text)

theorem printable_rowsJson (t : TokenTable) (tokens : Bool) :
    ∀ v ∈ t.rowsJson tokens, Printable v := by
  intro v hv
  unfold rowsJson at hv
  split at hv
  · obtain ⟨row, hrow, rfl⟩ := List.mem_map.mp hv
    refine .array fun w hw => ?_
    obtain ⟨token, htoken, rfl⟩ := List.mem_map.mp hw
    exact token.printable_toJson
  · obtain ⟨row, hrow, rfl⟩ := List.mem_map.mp hv
    exact printable_texts row

theorem parse?_rowsJson (t : TokenTable) (tokens : Bool) :
    Json.parse? (linesJson (t.rowsJson tokens)).sortKeys.pretty =
      some (linesJson (t.rowsJson tokens)).sortKeys :=
  Json.parse?_pretty (printable_linesJson (t.printable_rowsJson tokens)).sortKeys

end TokenTable

end LineLexer
