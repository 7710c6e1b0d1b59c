import LineLexer.ProjectFile
import LineLexer.Proofs.Dumps
import LineLexer.Proofs.Fields
import LineLexer.Proofs.JsonText
import Mathlib.Tactic

/-! Project files, written and read. A project is read back from what is written for it, and from
every text of a part of it: missing fields have their default values, other members do not matter,
and a field that is there twice is refused. -/

namespace LineLexer

section reading

variable {α : Type} {read? : Json → Option α}

theorem fieldOr_ite {missing a : α} {v : Json} (h : read? v = some a) (kept : Bool) :
    fieldOr missing read? (if kept then some v else none) =
      some (if kept then a else missing) := by
  cases kept with
  | false => rfl
  | true => exact h

theorem optional?_level (l : Option LogLevel) :
    Json.optional? (Json.choice? LogLevel.ofName?) (.ofOption (fun l => .text l.name) l) =
      some l :=
  Json.optional?_ofOption LogLevel.ofName?_name (fun _ => Json.noConfusion) l

end reading

namespace LexerSettings

def fieldNames : List String := ["unrecognized", "strip_quotes"]

def fields (s : LexerSettings) : List (String × Json) :=
  [("unrecognized", .text s.unrecognized.name), ("strip_quotes", .bool s.stripQuotes)]

/-- The settings with the default value in every field that is not kept. -/
def restrict (s : LexerSettings) (kept : String → Bool) : LexerSettings :=
  let missing : LexerSettings := {}
  { unrecognized := if kept "unrecognized" then s.unrecognized else missing.unrecognized
    stripQuotes := if kept "strip_quotes" then s.stripQuotes else missing.stripQuotes }

theorem ofJson?_of_isPartial {s : LexerSettings} {kept : String → Bool} {v : Json}
    (h : Json.IsPartial s.fields kept v) : ofJson? v = some (s.restrict kept) := by
  have hnodup : (s.fields.map Prod.fst).Nodup := by simp [fields]
  have hfields : v.fields? ["unrecognized", "strip_quotes"] =
      some
        [if kept "unrecognized" then some (.text s.unrecognized.name) else none,
          if kept "strip_quotes" then some (.bool s.stripQuotes) else none] :=
    Json.fields?_of_isPartial hnodup h fun _ hname => hname
  have hunrecognized : Json.choice? Policy.ofName? (.text s.unrecognized.name) =
      some s.unrecognized :=
    Policy.ofName?_name _
  have hquotes : Json.bool? (.bool s.stripQuotes) = some s.stripQuotes := rfl
  rw [ofJson?, hfields]
  simp [fieldOr_ite hunrecognized, fieldOr_ite hquotes, restrict]

theorem ofJson?_of_repeats {v : Json} (h : v.Repeats fieldNames) : ofJson? v = none := by
  have hfields : v.fields? ["unrecognized", "strip_quotes"] = none := Json.fields?_of_repeats h
  rw [ofJson?, hfields]
  rfl

end LexerSettings

namespace LoggingSettings

def fieldNames : List String := ["level", "lexer", "api", "vfs", "format", "file"]

def fields (s : LoggingSettings) : List (String × Json) :=
  [("level", .text s.level.name), ("lexer", .ofOption (fun l => .text l.name) s.lexer),
    ("api", .ofOption (fun l => .text l.name) s.api),
    ("vfs", .ofOption (fun l => .text l.name) s.vfs), ("format", .text s.format.name),
    ("file", .ofOption .text s.file)]

def restrict (s : LoggingSettings) (kept : String → Bool) : LoggingSettings :=
  let missing : LoggingSettings := {}
  { level := if kept "level" then s.level else missing.level
    lexer := if kept "lexer" then s.lexer else missing.lexer
    api := if kept "api" then s.api else missing.api
    vfs := if kept "vfs" then s.vfs else missing.vfs
    format := if kept "format" then s.format else missing.format
    file := if kept "file" then s.file else missing.file }

theorem ofJson?_of_isPartial {s : LoggingSettings} {kept : String → Bool} {v : Json}
    (h : Json.IsPartial s.fields kept v) : ofJson? v = some (s.restrict kept) := by
  have hnodup : (s.fields.map Prod.fst).Nodup := by simp [fields]
  have hfields : v.fields? ["level", "lexer", "api", "vfs", "format", "file"] =
      some
        [if kept "level" then some (.text s.level.name) else none,
          if kept "lexer" then some (.ofOption (fun l => .text l.name) s.lexer) else none,
          if kept "api" then some (.ofOption (fun l => .text l.name) s.api) else none,
          if kept "vfs" then some (.ofOption (fun l => .text l.name) s.vfs) else none,
          if kept "format" then some (.text s.format.name) else none,
          if kept "file" then some (.ofOption .text s.file) else none] :=
    Json.fields?_of_isPartial hnodup h fun _ hname => hname
  have hlevel : Json.choice? LogLevel.ofName? (.text s.level.name) = some s.level :=
    LogLevel.ofName?_name _
  have hformat : Json.choice? LogFormat.ofName? (.text s.format.name) = some s.format :=
    LogFormat.ofName?_name _
  have htext : ∀ t, Json.text? (.text t) = some t := fun _ => rfl
  have hfile : Json.optional? Json.text? (.ofOption .text s.file) = some s.file :=
    Json.optional?_ofOption htext (fun _ => Json.noConfusion) s.file
  rw [ofJson?, hfields]
  simp [fieldOr_ite hlevel, fieldOr_ite (optional?_level _), fieldOr_ite hformat,
    fieldOr_ite hfile, restrict]

theorem ofJson?_of_repeats {v : Json} (h : v.Repeats fieldNames) : ofJson? v = none := by
  have hfields : v.fields? ["level", "lexer", "api", "vfs", "format", "file"] = none :=
    Json.fields?_of_repeats h
  rw [ofJson?, hfields]
  rfl

end LoggingSettings

namespace OutputSettings

def fieldNames : List String := ["format", "show_source", "tokens"]

def fields (s : OutputSettings) : List (String × Json) :=
  [("format", .text s.format.name), ("show_source", .bool s.showSource),
    ("tokens", .bool s.tokens)]

def restrict (s : OutputSettings) (kept : String → Bool) : OutputSettings :=
  let missing : OutputSettings := {}
  { format := if kept "format" then s.format else missing.format
    showSource := if kept "show_source" then s.showSource else missing.showSource
    tokens := if kept "tokens" then s.tokens else missing.tokens }

theorem ofJson?_of_isPartial {s : OutputSettings} {kept : String → Bool} {v : Json}
    (h : Json.IsPartial s.fields kept v) : ofJson? v = some (s.restrict kept) := by
  have hnodup : (s.fields.map Prod.fst).Nodup := by simp [fields]
  have hfields : v.fields? ["format", "show_source", "tokens"] =
      some
        [if kept "format" then some (.text s.format.name) else none,
          if kept "show_source" then some (.bool s.showSource) else none,
          if kept "tokens" then some (.bool s.tokens) else none] :=
    Json.fields?_of_isPartial hnodup h fun _ hname => hname
  have hformat : Json.choice? OutputFormat.ofName? (.text s.format.name) = some s.format :=
    OutputFormat.ofName?_name _
  have hbool : ∀ b, Json.bool? (.bool b) = some b := fun _ => rfl
  rw [ofJson?, hfields]
  simp [fieldOr_ite hformat, fieldOr_ite (hbool _), restrict]

theorem ofJson?_of_repeats {v : Json} (h : v.Repeats fieldNames) : ofJson? v = none := by
  have hfields : v.fields? ["format", "show_source", "tokens"] = none :=
    Json.fields?_of_repeats h
  rw [ofJson?, hfields]
  rfl

end OutputSettings

namespace Project

/-- The sections of a project file, and the fields of each. -/
def sections : List (String × List String) :=
  [("lexer", LexerSettings.fieldNames), ("logging", LoggingSettings.fieldNames),
    ("output", OutputSettings.fieldNames)]

/-- The object form of a project without the fields that are not kept. A field is named by its
path. Every object holds what is kept in any order, and any members with other names. -/
def IsPartial (p : Project) (kept : List String → Bool) (v : Json) : Prop :=
  ∃ lexer logging output : Json,
    Json.IsPartial p.lexer.fields (fun name => kept ["lexer", name]) lexer ∧
    Json.IsPartial p.logging.fields (fun name => kept ["logging", name]) logging ∧
    Json.IsPartial p.output.fields (fun name => kept ["output", name]) output ∧
    Json.IsPartial [("lexer", lexer), ("logging", logging), ("output", output)]
      (fun name => kept [name]) v

def restrict (p : Project) (kept : List String → Bool) : Project :=
  { lexer := if kept ["lexer"] then p.lexer.restrict fun name => kept ["lexer", name] else {}
    logging :=
      if kept ["logging"] then p.logging.restrict fun name => kept ["logging", name] else {}
    output := if kept ["output"] then p.output.restrict fun name => kept ["output", name] else {} }

/-- A section is there twice, or a field of one of the sections. -/
def RepeatsField (v : Json) : Prop :=
  v.Repeats (sections.map Prod.fst) ∨
    ∃ members name names w, v = .object members ∧ (name, names) ∈ sections ∧
      (some name, w) ∈ members ∧ w.Repeats names

theorem ofJson?_of_isPartial {p : Project} {kept : List String → Bool} {v : Json}
    (h : IsPartial p kept v) : ofJson? v = some (p.restrict kept) := by
  obtain ⟨lexer, logging, output, hlexer, hlogging, houtput, h⟩ := h
  have hfields : v.fields? ["lexer", "logging", "output"] =
      some
        [if kept ["lexer"] then some lexer else none,
          if kept ["logging"] then some logging else none,
          if kept ["output"] then some output else none] :=
    Json.fields?_of_isPartial (by simp) h fun _ hname => hname
  have hlexer := LexerSettings.ofJson?_of_isPartial hlexer
  have hlogging := LoggingSettings.ofJson?_of_isPartial hlogging
  have houtput := OutputSettings.ofJson?_of_isPartial houtput
  rw [ofJson?, hfields]
  simp [fieldOr_ite hlexer, fieldOr_ite hlogging, fieldOr_ite houtput, restrict]

theorem exists_of_ofJson? {v : Json} {p : Project} (h : ofJson? v = some p) :
    ∃ lexer logging output, v.fields? ["lexer", "logging", "output"] =
        some [lexer, logging, output] ∧
      fieldOr {} LexerSettings.ofJson? lexer = some p.lexer ∧
      fieldOr {} LoggingSettings.ofJson? logging = some p.logging ∧
      fieldOr {} OutputSettings.ofJson? output = some p.output := by
  obtain ⟨values, hvalues, h⟩ := Option.bind_eq_some_iff.mp h
  split at h
  · next lexer logging output =>
    obtain ⟨a, ha, h⟩ := Option.bind_eq_some_iff.mp h
    obtain ⟨b, hb, h⟩ := Option.bind_eq_some_iff.mp h
    obtain ⟨c, hc, h⟩ := Option.bind_eq_some_iff.mp h
    obtain rfl := Option.some.inj h
    exact ⟨lexer, logging, output, hvalues, ha, hb, hc⟩
  · simp at h

theorem ofJson?_of_repeatsField {v : Json} (h : RepeatsField v) : ofJson? v = none := by
  rw [Option.eq_none_iff_forall_ne_some]
  intro p hp
  obtain ⟨lexer, logging, output, hfields, hlexer, hlogging, houtput⟩ := exists_of_ofJson? hp
  rcases h with h | ⟨members, name, names, w, rfl, hsection, hmember, hrepeats⟩
  · have hnone : v.fields? ["lexer", "logging", "output"] = none := Json.fields?_of_repeats h
    rw [hnone] at hfields
    simp at hfields
  · have hname : name ∈ sections.map Prod.fst := List.mem_map.mpr ⟨_, hsection, rfl⟩
    have hfound := Json.mem_zip_of_fields? hfields hname hmember
    simp only [sections, List.mem_cons, Prod.mk.injEq, List.not_mem_nil, or_false] at hsection
    rcases hsection with ⟨rfl, rfl⟩ | ⟨rfl, rfl⟩ | ⟨rfl, rfl⟩
    · obtain rfl : some w = lexer := by simpa using hfound
      rw [fieldOr, LexerSettings.ofJson?_of_repeats hrepeats] at hlexer
      simp at hlexer
    · obtain rfl : some w = logging := by simpa using hfound
      rw [fieldOr, LoggingSettings.ofJson?_of_repeats hrepeats] at hlogging
      simp at hlogging
    · obtain rfl : some w = output := by simpa using hfound
      rw [fieldOr, OutputSettings.ofJson?_of_repeats hrepeats] at houtput
      simp at houtput

theorem isPartial_toJson (p : Project) : IsPartial p (fun _ => true) p.toJson :=
  ⟨_, _, _, Json.isPartial_record _, Json.isPartial_record _, Json.isPartial_record _,
    Json.isPartial_record _⟩

theorem printable_toJson (p : Project) : Json.Printable p.toJson := by
  have hlevel : ∀ l : Option LogLevel, Json.Printable (.ofOption (fun l => .text l.name) l) :=
    Json.printable_ofOption fun l => .text l.name
  have hfile : Json.Printable (.ofOption .text p.logging.file) :=
    Json.printable_ofOption .text p.logging.file
  have hlexer : ∀ m ∈ p.lexer.fields, Json.Printable m.2 := by
    simp [LexerSettings.fields, Json.Printable.text, Json.Printable.bool]
  have hlogging : ∀ m ∈ p.logging.fields, Json.Printable m.2 := by
    simp [LoggingSettings.fields, Json.Printable.text, hlevel, hfile]
  have houtput : ∀ m ∈ p.output.fields, Json.Printable m.2 := by
    simp [OutputSettings.fields, Json.Printable.text, Json.Printable.bool]
  refine Json.printable_record ?_
  simp only [List.mem_cons, List.not_mem_nil, or_false]
  rintro m (rfl | rfl | rfl)
  · exact Json.printable_record hlexer
  · exact Json.printable_record hlogging
  · exact Json.printable_record houtput

theorem decode?_of_parse? {v : Json} {s : String} (h : Json.parse? s = some v) :
    decode? s = ofJson? v := by
  rw [decode?, h, Option.bind_some]

/-- A project is read back from what is written for it, so writing what was read changes nothing
that is read. -/
theorem decode?_encode :
    (∀ p, decode? p.encode = some p) ∧
      ∀ s, ((decode? s).map encode).bind decode? = decode? s := by
  have hproject : ∀ p, decode? p.encode = some p := by
    intro p
    rw [encode, decode?_of_parse? (Json.parse?_compact p.printable_toJson)]
    exact ofJson?_of_isPartial p.isPartial_toJson
  refine ⟨hproject, fun s => ?_⟩
  cases decode? s with
  | none => rfl
  | some p => exact hproject p

/-- Every text of a part of a project is read as that part, and a text that repeats a field is not
read. -/
theorem decode?_of_isText {v : Json} {s : String} (h : v.IsText s) :
    (∀ p kept, IsPartial p kept v → decode? s = some (p.restrict kept)) ∧
      (RepeatsField v → decode? s = none) := by
  rw [decode?_of_parse? (Json.parse?_eq_some_iff.mpr h)]
  exact ⟨fun p kept hp => ofJson?_of_isPartial hp, ofJson?_of_repeatsField⟩

theorem decode?_of_reordered_sections :
    let text := " \x7b\"output\":\x7b\"x\": [\x7b\x7d], \"tokens\":true, \"x\":null\x7d ,\n" ++
      "\"new\":-1.5e3, \"lexer\" : \x7b\"strip_quotes\":true\x7d\x7d"
    let output : Json := .record [("x", .array [.record []]), ("tokens", .bool true), ("x", .null)]
    let lexer : Json := .record [("strip_quotes", .bool true)]
    let v : Json := .record [("output", output), ("new", .number "-1.5e3"), ("lexer", lexer)]
    let p : Project :=
      { lexer := ⟨.reject, true⟩, logging := { file := some "log" }, output := ⟨.json, true, true⟩ }
    let kept (path : List String) : Bool :=
      path ∈ [["lexer"], ["lexer", "strip_quotes"], ["output"], ["output", "tokens"]]
    let twice := "\x7b\"lexer\":\x7b\"strip_quotes\":true, \"x\":1, \"strip_quotes\":true\x7d\x7d"
    let fields : Json :=
      .record [("strip_quotes", .bool true), ("x", .number "1"), ("strip_quotes", .bool true)]
    (v.IsText text ∧ IsPartial p kept v ∧
      decode? text = some { lexer := ⟨.collect, true⟩, output := ⟨.text, false, true⟩ }) ∧
    (Json.record [("lexer", fields)]).IsText twice ∧ RepeatsField (.record [("lexer", fields)]) ∧
      decode? twice = none := by
  intro text output lexer v p kept twice fields
  have htext : v.IsText text := by
    refine Json.parse?_eq_some_iff.mp ?_
    subst v lexer output text
    cbv
  have hlexer : Json.IsPartial p.lexer.fields (fun name => kept ["lexer", name]) lexer :=
    ⟨[], _, by simp, .refl _, rfl⟩
  have hlogging : Json.IsPartial p.logging.fields (fun name => kept ["logging", name])
      (.record []) :=
    ⟨[], _, by simp, .refl _, rfl⟩
  have houtput : Json.IsPartial p.output.fields (fun name => kept ["output", name]) output :=
    ⟨[("x", .array [.record []]), ("x", .null)], _, by simp [OutputSettings.fields],
      .swap _ _ _, rfl⟩
  have hmoved : ([("output", output), ("new", .number "-1.5e3")] ++ [("lexer", lexer)]).Perm
      ([("lexer", lexer)] ++ [("output", output), ("new", .number "-1.5e3")]) :=
    List.perm_append_comm
  have hpartial : IsPartial p kept v :=
    ⟨lexer, .record [], output, hlexer, hlogging, houtput, [("new", .number "-1.5e3")], _,
      by simp, hmoved, rfl⟩
  have htwice : (Json.record [("lexer", fields)]).IsText twice := by
    refine Json.parse?_eq_some_iff.mp ?_
    subst fields twice
    cbv
  have hrepeats : RepeatsField (.record [("lexer", fields)]) :=
    .inr ⟨_, "lexer", LexerSettings.fieldNames, fields, rfl, by simp [sections], by simp, _, rfl,
      "strip_quotes", by simp [LexerSettings.fieldNames], by decide⟩
  exact ⟨⟨htext, hpartial, (decode?_of_isText htext).1 p kept hpartial⟩, htwice, hrepeats,
    (decode?_of_isText htwice).2 hrepeats⟩

end Project

end LineLexer
