import LineLexer.Proofs.Dumps
import LineLexer.Proofs.Fields
import LineLexer.Proofs.JsonText
import LineLexer.Proofs.OneLine
import Mathlib

/-! The JSON text of a token table, read back. A reader that knows only the names of the members
finds every line, token and display again. It tells the literals apart by their shape alone: no
float is written like a whole number. No smaller import has the lemmas on `String.toInt?`. -/

namespace LineLexer

namespace Json

section reading

variable {α β : Type}

def nat? : Json → Option Nat
  | .number lexeme => lexeme.toNat?
  | _ => none

def items? (read? : Json → Option α) : Json → Option (List α)
  | .array items => items.mapM read?
  | _ => none

theorem nat?_nat (n : Nat) : (nat n).nat? = some n := Nat.toNat?_repr n

theorem items?_map {read? : Json → Option β} {write : α → Json} {f : α → β}
    (h : ∀ a, read? (write a) = some (f a)) (items : List α) :
    items? read? (.array (items.map write)) = some (items.map f) := by
  have hread : read? ∘ write = fun a => pure (f a) := funext h
  rw [items?, List.mapM_map, hread]
  exact List.mapM_pure

end reading

end Json

theorem TokenKind.find?_name (k : TokenKind) :
    TokenKind.all.find? (·.name == k.name) = some k := by
  cases k with
  | operator op => cases op <;> decide
  | _ => decide

/-- A literal as its JSON form shows it: of a float, only whether it is finite. -/
inductive LiteralOutline where
  | int (value : Int)
  | float (finite : Bool)
  | text (s : String)
deriving DecidableEq, Repr

structure TokenOutline where
  kind : TokenKind
  literal : Option LiteralOutline
  span : Span
deriving DecidableEq, Repr

structure TableOutline where
  tokens : List (List TokenOutline)
  display : List (List String)
deriving DecidableEq, Repr

section reader

def Position.ofJson? (v : Json) : Option Position := do
  match ← v.fields? ["line", "column", "byte_offset"] with
  | [some line, some column, some offset] => some ⟨← line.nat?, ← column.nat?, ← offset.nat?⟩
  | _ => none

def Span.ofJson? (v : Json) : Option Span := do
  match ← v.fields? ["start", "end"] with
  | [some start, some stop] => some ⟨← Position.ofJson? start, ← Position.ofJson? stop⟩
  | _ => none

def LiteralOutline.ofJson? : Json → Option LiteralOutline
  | .null => some (.float false)
  | .number lexeme =>
    match lexeme.toInt? with
    | some n => some (.int n)
    | none => some (.float true)
  | .string (some s) => some (.text s)
  | _ => none

def TokenOutline.ofJson? (v : Json) : Option TokenOutline := do
  match ← v.fields? ["kind", "literal", "span"] with
  | [some kind, literal, some span] =>
    let name ← kind.text?
    some
      { kind := ← TokenKind.all.find? (·.name == name)
        literal := ← literal.mapM LiteralOutline.ofJson?
        span := ← Span.ofJson? span }
  | _ => none

def TableOutline.ofJson? (v : Json) : Option TableOutline := do
  match ← v.fields? ["tokens", "display"] with
  | [some tokens, some display] =>
    some
      { tokens := ← tokens.items? (Json.items? TokenOutline.ofJson?)
        display := ← display.items? (Json.items? Json.text?) }
  | _ => none

end reader

def TokenValue.outline : TokenValue → Option LiteralOutline
  | .int n => some (.int n)
  | .float x => some (.float x.isFinite)
  | .str s => some (.text s)
  | .ident s => some (.text s)
  | .operator _ => none

theorem TokenValue.isSome_outline (v : TokenValue) : v.outline.isSome = v.kind.hasLiteral := by
  cases v <;> rfl

def Token.outline (t : Token) : TokenOutline := ⟨t.kind, t.value.outline, t.span⟩

def TokenTable.outline (t : TokenTable) : TableOutline :=
  ⟨t.tokens.map (·.map Token.outline), t.display⟩

theorem toInt?_eq_none {s : String} {c : Char} (hc : c ∈ s.toList) (h : c = '.' ∨ c = 'e') :
    s.toInt? = none := by
  have hdigit : ¬ (c.isDigit = true ∨ c = '_') := by rcases h with rfl | rfl <;> decide
  have hminus : c ∉ "-".toList := by rcases h with rfl | rfl <;> decide
  refine String.toInt?_eq_none (Bool.eq_false_iff.mpr fun hint => ?_)
  rcases String.isInt_iff.mp hint with hnat | ⟨t, rfl, hnat⟩
  · exact hdigit ((String.isNat_iff.mp hnat).2.1 c hc)
  · rw [String.toList_append, List.mem_append] at hc
    exact hdigit ((String.isNat_iff.mp hnat).2.1 c (hc.resolve_left hminus))

/-- The number has a point, or else an exponent. -/
theorem Decimal.mem_jsonNumber (d : Decimal) :
    '.' ∈ d.jsonNumber.toList ∨ 'e' ∈ d.jsonNumber.toList := by
  rw [jsonNumber]
  split
  · refine .inl ?_
    split
    · simp
    · next hneg =>
      rw [plain]
      simp only [if_neg hneg]
      split <;> simp
  · refine .inr ?_
    simp [scientific]

theorem Binary64.toInt?_jsonNumber? {x : Binary64} {s : String} (h : x.jsonNumber? = some s) :
    s.toInt? = none := by
  have hmem : '.' ∈ s.toList ∨ 'e' ∈ s.toList := by
    rw [jsonNumber?] at h
    split at h
    · split at h
      · obtain rfl := Option.some.inj h
        simp
      · obtain rfl := Option.some.inj h
        rw [String.toList_append, List.mem_append, List.mem_append]
        exact (Decimal.mem_jsonNumber _).imp .inr .inr
    · simp at h
  rcases hmem with hc | hc
  · exact toInt?_eq_none hc (.inl rfl)
  · exact toInt?_eq_none hc (.inr rfl)

theorem Position.ofJson?_toJson (p : Position) : ofJson? p.toJson = some p := by
  have hfields : p.toJson.fields? ["line", "column", "byte_offset"] =
      some [some (.nat p.line), some (.nat p.column), some (.nat p.byteOffset)] :=
    Json.fields?_of_nodup (by simp) _
  rw [ofJson?, hfields]
  simp [Json.nat?_nat]

theorem Span.ofJson?_toJson (s : Span) : ofJson? s.toJson = some s := by
  have hfields : s.toJson.fields? ["start", "end"] =
      some [some s.start.toJson, some s.stop.toJson] :=
    Json.fields?_of_nodup (by simp) _
  rw [ofJson?, hfields]
  simp [Position.ofJson?_toJson]

theorem Binary64.isSome_jsonNumber? (x : Binary64) : x.jsonNumber?.isSome = x.isFinite := by
  rw [jsonNumber?]
  split
  · next hfinite =>
    rw [hfinite]
    split <;> rfl
  · next hfinite =>
    rw [Bool.eq_false_iff.mpr hfinite]
    rfl

theorem TokenValue.ofJson?_literalJson? (v : TokenValue) :
    v.literalJson?.mapM LiteralOutline.ofJson? = some v.outline := by
  cases v with
  | int n =>
    have hint : n.repr.toInt? = some n := Int.toInt?_repr n
    simp [literalJson?, Json.int, LiteralOutline.ofJson?, hint, outline]
  | float x =>
    have hfinite := x.isSome_jsonNumber?
    cases hx : x.jsonNumber? with
    | none =>
      rw [hx] at hfinite
      simp [literalJson?, hx, Json.ofOption, LiteralOutline.ofJson?, outline, ← hfinite]
    | some s =>
      have hint := Binary64.toInt?_jsonNumber? hx
      rw [hx] at hfinite
      simp [literalJson?, hx, Json.ofOption, LiteralOutline.ofJson?, hint, outline, ← hfinite]
  | str s => rfl
  | ident s => rfl
  | operator op => rfl

theorem Token.ofJson?_toJson (t : Token) : TokenOutline.ofJson? t.toJson = some t.outline := by
  have hfields : t.toJson.fields? ["kind", "literal", "span"] =
      some [some (.text t.kind.name), t.value.literalJson?, some t.span.toJson] := by
    rw [toJson]
    cases t.value.literalJson? with
    | none => exact Json.fields?_of_nodup (by simp) _
    | some v => exact Json.fields?_of_nodup (by simp) _
  rw [TokenOutline.ofJson?, hfields]
  simp [Json.text, Json.text?, TokenKind.find?_name, TokenValue.ofJson?_literalJson?,
    Span.ofJson?_toJson, outline]

namespace TokenTable

theorem ofJson?_toJson (t : TokenTable) : TableOutline.ofJson? t.toJson = some t.outline := by
  have hfields : t.toJson.fields? ["tokens", "display"] =
      some [some (.array (t.tokens.map fun row => .array (row.map Token.toJson))),
        some (.array (t.display.map fun row => .array (row.map Json.text)))] :=
    Json.fields?_of_nodup (by simp) _
  have htokens := Json.items?_map (fun row => Json.items?_map Token.ofJson?_toJson row) t.tokens
  have htext : ∀ s, Json.text? (.text s) = some (id s) := fun _ => rfl
  have hdisplay := Json.items?_map (fun row => Json.items?_map htext row) t.display
  rw [TableOutline.ofJson?, hfields]
  simp [htokens, hdisplay, outline]

theorem printable_toJson (t : TokenTable) : Json.Printable t.toJson := by
  refine Json.printable_record ?_
  simp only [List.mem_cons, List.not_mem_nil, or_false]
  rintro m (rfl | rfl)
  · refine .array fun v hv => ?_
    obtain ⟨row, hrow, rfl⟩ := List.mem_map.mp hv
    refine .array fun w hw => ?_
    obtain ⟨token, htoken, rfl⟩ := List.mem_map.mp hw
    exact token.printable_toJson
  · refine .array fun v hv => ?_
    obtain ⟨row, hrow, rfl⟩ := List.mem_map.mp hv
    exact Json.printable_texts row

theorem parse?_toJson (t : TokenTable) :
    (Json.parse? t.toJson.compact).bind TableOutline.ofJson? = some t.outline := by
  rw [Json.parse?_compact t.printable_toJson]
  exact t.ofJson?_toJson

/-- The text of a table is one line and the text of one value, and all of the table but the values
of its floats is read from it. So tables with the same text differ in nothing else. -/
theorem outline_of_compact (t : TokenTable) :
    Json.NoControl t.toJson.compact.toList ∧
      (∀ v, Json.IsText v t.toJson.compact ↔ v = t.toJson) ∧
      (Json.parse? t.toJson.compact).bind TableOutline.ofJson? =
        some ⟨t.tokens.map (·.map Token.outline), t.display⟩ ∧
      (∀ row ∈ t.tokens, ∀ token ∈ row,
        token.outline.literal.isSome = token.kind.hasLiteral) ∧
      ∀ u : TokenTable, u.toJson.compact = t.toJson.compact →
        u.display = t.display ∧
          u.tokens.map (·.map Token.outline) = t.tokens.map (·.map Token.outline) := by
  have hparse := Json.parse?_compact t.printable_toJson
  refine ⟨Json.noControl_compact t.printable_toJson, ?_, t.parse?_toJson, ?_, ?_⟩
  · intro v
    rw [← Json.parse?_eq_some_iff, hparse, Option.some.injEq, eq_comm]
  · intro row _ token _
    exact token.value.isSome_outline
  · intro u hu
    have houtline : u.outline = t.outline := by
      have hread := u.parse?_toJson
      rw [hu, t.parse?_toJson] at hread
      exact (Option.some.inj hread).symm
    exact ⟨congrArg TableOutline.display houtline, congrArg TableOutline.tokens houtline⟩

end TokenTable

end LineLexer
