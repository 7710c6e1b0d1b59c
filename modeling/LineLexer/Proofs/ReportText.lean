import LineLexer.Failure
import LineLexer.Proofs.TableText

/-! The report of a failure as JSON, read back. A tool that reads line by line finds one object on
one line, and in it, by the names of its members, all that the report says. -/

namespace LineLexer

/-- A report as a tool reads it. The members of a place may be null, the text may be missing. -/
structure Report where
  phase : String
  line : Option Nat
  column : Option Nat
  byteOffset : Option Nat
  kind : String
  message : String
  text : Option String
deriving DecidableEq, Repr

def Report.ofJson? (v : Json) : Option Report := do
  match ← v.fields?
    ["phase", "line", "column", "byte_offset", "error_kind", "message", "text"] with
  | [some phase, some line, some column, some offset, some kind, some message, text] =>
    some
      { phase := ← phase.text?
        line := ← line.optional? Json.nat?
        column := ← column.optional? Json.nat?
        byteOffset := ← offset.optional? Json.nat?
        kind := ← kind.text?
        message := ← message.text?
        text := ← text.mapM Json.text? }
  | _ => none

/-- The report says what the failure is. A place and a text are there for an error of the lexer and
for nothing else. -/
structure Report.Tells (r : Report) (f : Failure) : Prop where
  phase_eq : r.phase = f.phase
  kind_eq : r.kind = f.kind
  message_eq : r.message = f.message
  line_eq_some_iff : ∀ n, r.line = some n ↔ ∃ e, f = .lexer e ∧ e.position.line = n
  column_eq_some_iff : ∀ n, r.column = some n ↔ ∃ e, f = .lexer e ∧ e.position.column = n
  byteOffset_eq_some_iff :
    ∀ n, r.byteOffset = some n ↔ ∃ e, f = .lexer e ∧ e.position.byteOffset = n
  text_eq_some_iff : ∀ s, r.text = some s ↔ ∃ e, f = .lexer e ∧ e.text = s

theorem FileError.isNotFound_iff {e : FileError} :
    e.isNotFound = true ↔ ∃ path, e = .notFound path ∨ e = .notAFile path := by
  cases e <;> simp [isNotFound]

namespace Failure

def outline (f : Failure) : Report where
  phase := f.phase
  line := f.position?.map (·.line)
  column := f.position?.map (·.column)
  byteOffset := f.position?.map (·.byteOffset)
  kind := f.kind
  message := f.message
  text := f.lexError?.map (·.text)

theorem lexError?_eq_some_iff {f : Failure} {e : LexError} :
    f.lexError? = some e ↔ f = .lexer e := by
  cases f <;> simp [lexError?]

theorem map_position?_eq_some_iff {f : Failure} {part : Position → Nat} {n : Nat} :
    f.position?.map part = some n ↔ ∃ e, f = .lexer e ∧ part e.position = n := by
  simp [position?, lexError?_eq_some_iff]

theorem tells_outline (f : Failure) : f.outline.Tells f where
  phase_eq := rfl
  kind_eq := rfl
  message_eq := rfl
  line_eq_some_iff _ := map_position?_eq_some_iff
  column_eq_some_iff _ := map_position?_eq_some_iff
  byteOffset_eq_some_iff _ := map_position?_eq_some_iff
  text_eq_some_iff s := by simp [outline, lexError?_eq_some_iff]

theorem printable_toJson (f : Failure) : Json.Printable f.toJson := by
  have hplace : ∀ part : Position → Nat,
      Json.Printable (.ofOption (fun p => .nat (part p)) f.position?) := fun part =>
    Json.printable_ofOption (fun p => Json.printable_nat (part p)) f.position?
  have hsix : ∀ m ∈ [("phase", Json.text f.phase),
      ("line", .ofOption (fun p => .nat p.line) f.position?),
      ("column", .ofOption (fun p => .nat p.column) f.position?),
      ("byte_offset", .ofOption (fun p => .nat p.byteOffset) f.position?),
      ("error_kind", .text f.kind), ("message", .text f.message)], Json.Printable m.2 := by
    simp [Json.Printable.text, hplace]
  refine Json.printable_record fun m hm => ?_
  rcases List.mem_append.mp hm with hm | hm
  · exact hsix m hm
  · cases he : f.lexError? with
    | none => simp [he] at hm
    | some e =>
      simp only [he, List.mem_singleton] at hm
      rw [hm]
      exact .text e.text

theorem ofJson?_toJson (f : Failure) : Report.ofJson? f.toJson = some f.outline := by
  have hfields : f.toJson.fields?
      ["phase", "line", "column", "byte_offset", "error_kind", "message", "text"] =
      some [some (.text f.phase), some (.ofOption (fun p => .nat p.line) f.position?),
        some (.ofOption (fun p => .nat p.column) f.position?),
        some (.ofOption (fun p => .nat p.byteOffset) f.position?), some (.text f.kind),
        some (.text f.message), f.lexError?.map fun e => .text e.text] := by
    rw [toJson]
    cases f.lexError? with
    | none => exact Json.fields?_of_nodup (by simp) _
    | some e => exact Json.fields?_of_nodup (by simp) _
  have hplace : ∀ part : Position → Nat,
      Json.optional? Json.nat? (.ofOption (fun p => .nat (part p)) f.position?) =
        some (f.position?.map part) := by
    intro part
    have hnull : ∀ n, Json.nat n ≠ .null := fun _ => Json.noConfusion
    have hread := Json.optional?_ofOption Json.nat?_nat hnull (f.position?.map part)
    cases hposition : f.position? with
    | none => rfl
    | some p =>
      rw [hposition] at hread
      exact hread
  have htext : (f.lexError?.map fun e => Json.text e.text).mapM Json.text? =
      some (f.lexError?.map (·.text)) := by
    cases f.lexError? <;> rfl
  have hstring : ∀ s, Json.text? (.text s) = some s := fun _ => rfl
  rw [Report.ofJson?, hfields]
  simp only [hstring, hplace, htext, outline, Option.bind_eq_bind, Option.bind_some]

theorem parse?_toJson (f : Failure) :
    (Json.parse? f.toJson.compact).bind Report.ofJson? = some f.outline := by
  rw [Json.parse?_compact f.printable_toJson, Option.bind_some, ofJson?_toJson]

/-- The report of a failure is one object on one line, and all of it is read from it again. An error
of a file is reported by its path alone if nothing at the path can be read, else in its own words. -/
theorem report_of_compact :
    (∀ f : Failure, Json.NoControl f.toJson.compact.toList ∧
      (∀ v, Json.IsText v f.toJson.compact ↔ v = f.toJson) ∧
      (∃ members, f.toJson = .record members) ∧
      ∃ r, (Json.parse? f.toJson.compact).bind Report.ofJson? = some r ∧ r.Tells f) ∧
    ∀ e : FileError,
      let f := ofFileError e
      (f.kind = "FileNotFound" ∧ f.message = "File '" ++ e.path ++ "' could not be found!" ↔
        ∃ path, e = .notFound path ∨ e = .notAFile path) ∧
      ((¬ ∃ path, e = .notFound path ∨ e = .notAFile path) →
        f.kind = "IoError" ∧ f.message = e.message) := by
  constructor
  · intro f
    refine ⟨Json.noControl_compact f.printable_toJson, fun v => ?_, ⟨_, rfl⟩, f.outline,
      f.parse?_toJson, f.tells_outline⟩
    rw [← Json.parse?_eq_some_iff, Json.parse?_compact f.printable_toJson, Option.some.injEq,
      eq_comm]
  · intro e f
    rw [← FileError.isNotFound_iff]
    by_cases h : e.isNotFound = true
    · have hf : f = .fileNotFound e.path := if_pos h
      rw [hf]
      exact ⟨iff_of_true ⟨rfl, rfl⟩ h, fun hn => absurd h hn⟩
    · have hf : f = .file e := if_neg h
      have hkind : kind (.file e) ≠ "FileNotFound" := by simp [kind]
      rw [hf]
      exact ⟨iff_of_false (fun hk => hkind hk.1) h, fun _ => ⟨rfl, rfl⟩⟩

end Failure

end LineLexer
