import LineLexer.Files.Memory
import LineLexer.Proofs.Decoding
import LineLexer.Proofs.Emission

/-! Compiling a file in memory. What is compiled is what the last insert under the path has stored,
byte for byte, and the failures show the path as it was asked for. -/

namespace LineLexer

/-- The two paths name the same file in memory. -/
def SamePath (p q : String) : Prop := normalPath p = normalPath q

instance (p q : String) : Decidable (SamePath p q) :=
  inferInstanceAs (Decidable (normalPath p = normalPath q))

/-- The last of the inserts that name `path` has stored `content`. -/
def LastInsert (inserts : List (String × ByteArray)) (path : String) (content : ByteArray) :
    Prop :=
  ∃ before p after, inserts = before ++ (p, content) :: after ∧ SamePath p path ∧
    ∀ f ∈ after, ¬ SamePath f.1 path

namespace FileTable

theorem find?_insert (t : FileTable) (p q : String) (content : ByteArray) :
    (t.insert p content).find? q = if SamePath p q then some content else t.find? q := by
  by_cases h : normalPath p = normalPath q
  · simp [insert, find?, SamePath, h]
  · have hkept : (t.entries.filter fun e => e.1 != normalPath p).find?
        (fun e => e.1 == normalPath q) = t.entries.find? fun e => e.1 == normalPath q := by
      rw [List.find?_filter]
      refine congrArg (List.find? · t.entries) (funext fun e => ?_)
      by_cases he : e.1 = normalPath q
      · simp [he, Ne.symm h]
      · simp [he]
    have hp : (normalPath p == normalPath q) = false := beq_false_of_ne h
    simp only [insert, find?, List.find?_cons, hp, hkept, SamePath, h, if_false]

theorem find?_foldl_insert (inserts : List (String × ByteArray)) (t : FileTable) (path : String) :
    (inserts.foldl (fun t f => t.insert f.1 f.2) t).find? path =
      match inserts.reverse.find? fun f => SamePath f.1 path with
      | some f => some f.2
      | none => t.find? path := by
  induction inserts generalizing t with
  | nil => rfl
  | cons f inserts ih =>
    rw [List.foldl_cons, ih, find?_insert, List.reverse_cons, List.find?_append]
    cases inserts.reverse.find? fun f => SamePath f.1 path with
    | some g => rfl
    | none => by_cases h : SamePath f.1 path <;> simp [h]

theorem find?_ofList_eq_none_iff {inserts : List (String × ByteArray)} {path : String} :
    (ofList inserts).find? path = none ↔ ∀ f ∈ inserts, ¬ SamePath f.1 path := by
  rw [ofList, find?_foldl_insert]
  cases h : inserts.reverse.find? fun f => SamePath f.1 path with
  | none => simpa [find?, empty] using h
  | some f =>
    have hf := List.find?_some h
    have hm := List.mem_of_find?_eq_some h
    simp only [reduceCtorEq, false_iff]
    intro hall
    exact hall f (List.mem_reverse.mp hm) (of_decide_eq_true hf)

theorem find?_ofList_eq_some_iff {inserts : List (String × ByteArray)} {path : String}
    {content : ByteArray} :
    (ofList inserts).find? path = some content ↔ LastInsert inserts path content := by
  rw [ofList, find?_foldl_insert]
  constructor
  · intro h
    cases hl : inserts.reverse.find? fun f => SamePath f.1 path with
    | none => simp [hl, find?, empty] at h
    | some f =>
      rw [hl] at h
      obtain ⟨hf, after, before, hrev, hafter⟩ := List.find?_eq_some_iff_append.mp hl
      refine ⟨before.reverse, f.1, after.reverse, ?_, of_decide_eq_true hf, ?_⟩
      · have hh := congrArg List.reverse hrev
        simpa [← Option.some.inj h] using hh
      · intro g hg
        simpa using hafter g (List.mem_reverse.mp hg)
  · rintro ⟨before, p, after, rfl, hp, hafter⟩
    have hl : (before ++ (p, content) :: after).reverse.find? (fun f => SamePath f.1 path) =
        some (p, content) := by
      refine List.find?_eq_some_iff_append.mpr
        ⟨decide_eq_true hp, after.reverse, before.reverse, by simp, ?_⟩
      intro g hg
      simpa using hafter g (List.mem_reverse.mp hg)
    rw [hl]

theorem readSource_reader (t : FileTable) (path : String) :
    readSource t.reader path =
      match t.find? path with
      | none => .error (.fileNotFound path)
      | some b =>
        match Utf8.decode b with
        | .ok s => .ok s
        | .error n => .error (.file (.invalidUtf8 path n)) := by
  cases h : t.find? path with
  | none => simp [readSource, reader, contains, h]
  | some b =>
    rw [readSource, FileReader.readText_of_read (read_of_find? h)]
    simp only [reader, contains, h, Option.isSome_some, if_true]
    cases Utf8.decode b <;> rfl

end FileTable

/-- Compiling a file in memory has one of four outcomes. -/
theorem compile_of_inserts (inserts : List (String × ByteArray)) (settings : CompileSettings)
    (path : String) :
    let outcome := compile (FileTable.ofList inserts).reader settings path
    (∀ p, outcome = .error (.fileNotFound p) ↔
      p = path ∧ ∀ f ∈ inserts, ¬ SamePath f.1 path) ∧
    (∀ e, outcome = .error (.file e) ↔ ∃ b n, LastInsert inserts path b ∧ ¬ Utf8.IsText b ∧
      Utf8.LongestText b n ∧ e = .invalidUtf8 path n) ∧
    (∀ e, outcome = .error (.lexer e) ↔ ∃ s, LastInsert inserts path (Utf8.encode s) ∧
      tokenize settings.lexer s = .error (.lexer e)) ∧
    (∀ c, outcome = .ok c ↔ ∃ s t, LastInsert inserts path (Utf8.encode s) ∧
      tokenize settings.lexer s = .ok t ∧ c = ⟨path, s, t.table, t.diagnostics⟩) ∧
    ((∃ p, outcome = .error (.fileNotFound p)) ∨ (∃ e, outcome = .error (.file e)) ∨
      (∃ e, outcome = .error (.lexer e)) ∨ ∃ c, outcome = .ok c) := by
  intro outcome
  simp only [← FileTable.find?_ofList_eq_none_iff, ← FileTable.find?_ofList_eq_some_iff]
  have hread := (FileTable.ofList inserts).readSource_reader path
  cases hfind : (FileTable.ofList inserts).find? path with
  | none =>
    have houtcome : outcome = .error (.fileNotFound path) := by
      refine compile_of_read_error ?_
      rw [hread, hfind]
    rw [houtcome]
    simp [eq_comm]
  | some b =>
    cases hdecode : Utf8.decode b with
    | error n =>
      obtain ⟨hnot, hlongest⟩ := Utf8.decode_eq_error_iff.mp hdecode
      have houtcome : outcome = .error (.file (.invalidUtf8 path n)) := by
        refine compile_of_read_error ?_
        simp only [hread, hfind, hdecode]
      have hnone : ∀ s, b ≠ Utf8.encode s := fun s hs => hnot ⟨s, hs.symm⟩
      rw [houtcome]
      refine ⟨by simp, ?_, by simp [hnone], by simp [hnone], by simp⟩
      intro e
      constructor
      · intro he
        simp only [Except.error.injEq, Failure.file.injEq] at he
        exact ⟨b, n, rfl, hnot, hlongest, he.symm⟩
      · rintro ⟨b', m, hb, -, hm, rfl⟩
        rw [← Option.some.inj hb] at hm
        rw [hlongest.unique hm]
    | ok s =>
      obtain rfl := Utf8.decode_eq_ok_iff.mp hdecode
      have hsource : readSource (FileTable.ofList inserts).reader path = .ok s := by
        simp only [hread, hfind, hdecode]
      have hsame : ∀ t, Utf8.encode s = Utf8.encode t ↔ s = t :=
        fun t => ⟨Utf8.encode_injective, congrArg _⟩
      have htext : Utf8.IsText (Utf8.encode s) := ⟨s, rfl⟩
      cases htokens : tokenize settings.lexer s with
      | error f =>
        obtain ⟨e, rfl, -⟩ := exists_of_tokenize_error htokens
        have houtcome : outcome = .error (.lexer e) :=
          (compile_of_read hsource).trans (by rw [htokens]; rfl)
        rw [houtcome]
        simp [hsame, htext, htokens]
      | ok t =>
        have houtcome : outcome = .ok ⟨path, s, t.table, t.diagnostics⟩ :=
          (compile_of_read hsource).trans (by rw [htokens]; rfl)
        rw [houtcome]
        simp [hsame, htext, htokens, eq_comm]

end LineLexer
