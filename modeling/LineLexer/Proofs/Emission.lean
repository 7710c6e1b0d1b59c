import LineLexer.Compile
import LineLexer.Proofs.Lines

/-! What a scanner does with a source is what the scan of the source says: the table holds the
tokens found, line by line, and the diagnostics are the characters collected. No token is refused
by the table, so no scan ends in an internal failure of the scanner's own. -/

namespace LineLexer

/-- A change of one row changes the displays of that row alike. -/
theorem TokenTable.modify_display {f : List Token → List Token} {g : List String → List String}
    (h : ∀ row, g (row.map Token.display) = (f row).map Token.display) (rows : List (List Token))
    (line : Nat) :
    (rows.map (·.map Token.display)).modify line g =
      (rows.modify line f).map (·.map Token.display) := by
  apply List.ext_getElem?
  intro i
  by_cases hi : line = i
  · simp [hi, Function.comp_def, h]
  · simp [hi]

theorem TokenTable.add_ofRows {rows : List (List Token)} {line : Nat} (h : line < rows.length)
    (t : Token) : (ofRows rows).add t line = .ok (ofRows (rows.modify line (· ++ [t]))) := by
  have hd := @modify_display (· ++ [t]) (· ++ [t.display]) (fun row => by simp) rows line
  simp only [add, lineCount, ofRows, h, if_true, hd]

/-- The diagnostics that a scan keeps of the stray characters. -/
def Policy.kept (policy : Policy) (strays : List LexError) : List LexError :=
  match policy with
  | .collect => strays
  | _ => []

theorem Policy.kept_append (policy : Policy) (a b : List LexError) :
    policy.kept (a ++ b) = policy.kept a ++ policy.kept b := by
  cases policy <;> rfl

theorem Scan.diagnostics_eq_kept (s : Scan) :
    s.diagnostics = s.settings.unrecognized.kept (s.lines.flatMap LineScan.strays) := by
  unfold Scan.diagnostics
  cases s.settings.unrecognized <;> rfl

namespace LineScan

@[simp]
theorem tokens_cons_token (t : Token) (s : LineScan) :
    (s.cons (.token t)).tokens = t :: s.tokens := rfl

@[simp]
theorem tokens_cons_stray (p : Position) (c : Char) (s : LineScan) :
    (s.cons (.stray p c)).tokens = s.tokens := rfl

@[simp]
theorem strays_cons_token (t : Token) (s : LineScan) : (s.cons (.token t)).strays = s.strays := rfl

@[simp]
theorem strays_cons_stray (p : Position) (c : Char) (s : LineScan) :
    (s.cons (.stray p c)).strays = .unrecognized p c :: s.strays := rfl

@[simp]
theorem failure_cons (i : ScanItem) (s : LineScan) : (s.cons i).failure = s.failure := rfl

theorem under_cons_token (t : Token) (s : LineScan) (policy : Policy) :
    (s.cons (.token t)).under policy = (s.under policy).cons (.token t) := by
  cases policy <;> rfl

theorem under_cons_stray (p : Position) (c : Char) (s : LineScan) (policy : Policy) :
    (s.cons (.stray p c)).under policy =
      if policy = .reject then ⟨[], some (.unrecognized p c)⟩
      else (s.under policy).cons (.stray p c) := by
  cases policy <;> rfl

theorem under_nil (failure : Option LexError) (policy : Policy) :
    (LineScan.mk [] failure).under policy = ⟨[], failure⟩ := by
  cases policy <;> rfl

end LineScan

namespace Scanner

theorem emit_of_lt {s : Scanner} {rows : List (List Token)} (hs : s.table = .ofRows rows)
    (hc : s.current < rows.length) (t : Token) :
    s.emit t = .ok { s with table := .ofRows (rows.modify s.current (· ++ [t])) } := by
  simp only [emit, hs, TokenTable.add_ofRows hc]

theorem unrecognized_eq (s : Scanner) (p : Position) (c : Char) :
    s.unrecognized p c =
      if s.settings.unrecognized = .reject then .error (.unrecognized p c)
      else .ok { s with
        diagnostics := s.diagnostics ++ s.settings.unrecognized.kept [.unrecognized p c] } := by
  cases hp : s.settings.unrecognized <;> simp [unrecognized, hp, Policy.kept]

/-- Nothing found, nothing changed. -/
theorem eq_filed (s : Scanner) {rows : List (List Token)} (hs : s.table = .ofRows rows) :
    s = { s with
      table := .ofRows (rows.modify s.current (· ++ []))
      diagnostics := s.diagnostics ++ s.settings.unrecognized.kept [] } := by
  have hrows : rows.modify s.current (· ++ []) = rows := by
    simp only [List.append_nil]
    exact List.modify_id _ _
  have hkept : s.diagnostics ++ s.settings.unrecognized.kept [] = s.diagnostics := by
    cases s.settings.unrecognized <;> simp [Policy.kept]
  rw [hrows, hkept, ← hs]

theorem scanChars_cons (s : Scanner) (p : Position) (c : Char) (r : List Char) :
    s.scanChars p (c :: r) =
      match Munch.first s.settings.stripQuotes c r with
      | .blank => s.scanChars (p.after [c]) r
      | .stray =>
        match s.unrecognized p c with
        | .ok s => s.scanChars (p.after [c]) r
        | .error e => (some e, s)
      | .token v text rest =>
        match s.emit ⟨v, .covering p text⟩ with
        | .ok s => s.scanChars (p.after text) rest
        | .error e => (some e, s)
      | .failure kind text => (some ⟨kind, p, String.ofList text⟩, s) := by
  rw [scanChars]
  split <;> next h => exact h ▸ rfl

/-- Scanning the rest of a line files the tokens found under the line, up to the failure. -/
theorem scanChars_eq {s : Scanner} {rows : List (List Token)} (hs : s.table = .ofRows rows)
    (hc : s.current < rows.length) (p : Position) (r : List Char) :
    s.scanChars p r =
      let l := (LineScan.ofChars s.settings.stripQuotes p r).under s.settings.unrecognized
      (l.failure,
        { s with
          table := .ofRows (rows.modify s.current (· ++ l.tokens))
          diagnostics := s.diagnostics ++ s.settings.unrecognized.kept l.strays }) := by
  -- a token takes more than one character, so the induction is on the length of the rest
  induction hn : r.length using Nat.strongRecOn generalizing s rows p r with
  | ind n ih =>
    cases r with
    | nil =>
      rw [scanChars, LineScan.ofChars, LineScan.under_nil]
      exact congrArg _ (s.eq_filed hs)
    | cons c r =>
      rw [scanChars_cons, LineScan.ofChars_cons]
      cases hf : Munch.first s.settings.stripQuotes c r with
      | blank => exact ih _ (by simp [← hn]) hs hc _ r rfl
      | stray =>
        simp only [unrecognized_eq, LineScan.under_cons_stray]
        by_cases hr : s.settings.unrecognized = .reject
        · simp only [hr, if_true]
          have hh := s.eq_filed hs
          rw [hr] at hh
          exact congrArg _ hh
        · simp only [hr, if_false]
          have hh := @ih r.length (by simp [← hn]) { s with
            diagnostics := s.diagnostics ++ s.settings.unrecognized.kept [.unrecognized p c] }
            rows hs hc (p.after [c]) r rfl
          rw [hh]
          simp only [LineScan.failure_cons, LineScan.tokens_cons_stray,
            LineScan.strays_cons_stray, List.append_assoc, ← Policy.kept_append,
            List.singleton_append]
      | token v text rest =>
        have hlt := Munch.length_lt_of_first hf
        have hh := @ih rest.length (by omega) { s with
          table := .ofRows (rows.modify s.current (· ++ [⟨v, .covering p text⟩])) }
          _ rfl (by simpa using hc) (p.after text) rest rfl
        simp only [emit_of_lt hs hc, LineScan.under_cons_token]
        rw [hh]
        simp only [LineScan.failure_cons, LineScan.tokens_cons_token,
          LineScan.strays_cons_token, List.modify_modify_eq, Function.comp_def,
          List.append_assoc, List.singleton_append]
      | failure kind text =>
        simp only [LineScan.under_nil]
        exact congrArg _ (s.eq_filed hs)

theorem modify_length_append {α : Type} (a : List α) (x : α) (b : List α) (f : α → α) :
    (a ++ x :: b).modify a.length f = a ++ f x :: b := by
  induction a with
  | nil => rfl
  | cons y a ih => simp [ih]

/-- Scanning lines files the tokens of each under its index; what the table holds is known after
a scan without a failure. -/
theorem scanLines_eq {s : Scanner} {rows : List (List Token)} (lines : List Line)
    (hs : s.table = .ofRows (rows ++ List.replicate lines.length [])) :
    let found := Scan.ofLines s.settings rows.length lines
    ∃ table current,
      s.scanLines rows.length lines =
        (Scan.firstFailure found,
          ⟨s.settings, table, s.diagnostics ++
            s.settings.unrecognized.kept (found.flatMap LineScan.strays), current⟩) ∧
      (Scan.firstFailure found = none →
        table = .ofRows (rows ++ found.map LineScan.tokens)) := by
  induction lines generalizing s rows with
  | nil =>
    have hkept : s.settings.unrecognized.kept [] = [] := by
      cases s.settings.unrecognized <;> rfl
    refine ⟨s.table, s.current, ?_, fun _ => hs⟩
    simp only [scanLines, Scan.ofLines, Scan.firstFailure_nil, List.flatMap_nil, hkept,
      List.append_nil]
  | cons l lines ih =>
    obtain ⟨one, hone⟩ : ∃ one, one = LineScan.ofLine s.settings rows.length l := ⟨_, rfl⟩
    have hline : ({ s with current := rows.length } : Scanner).scanChars (l.start rows.length)
        l.text = (one.failure, ⟨s.settings,
          .ofRows ((rows ++ [one.tokens]) ++ List.replicate lines.length []),
          s.diagnostics ++ s.settings.unrecognized.kept one.strays, rows.length⟩) := by
      have hh := @scanChars_eq { s with current := rows.length } _ hs (by simp)
        (l.start rows.length) l.text
      rw [hh, hone]
      simp only [LineScan.ofLine, List.length_cons, List.replicate_succ, modify_length_append,
        List.append_assoc, List.singleton_append, List.nil_append]
    simp only [scanLines, hline, Scan.ofLines, ← hone]
    cases hf : one.failure with
    | some e =>
      refine ⟨.ofRows ((rows ++ [one.tokens]) ++ List.replicate lines.length []), rows.length,
        ?_, ?_⟩
      · simp [Scan.firstFailure_cons, hf]
      · simp [Scan.firstFailure_cons, hf]
    | none =>
      obtain ⟨table, current, hrun, htable⟩ := @ih ⟨s.settings,
        .ofRows ((rows ++ [one.tokens]) ++ List.replicate lines.length []),
        s.diagnostics ++ s.settings.unrecognized.kept one.strays, rows.length⟩
        (rows ++ [one.tokens]) rfl
      rw [List.length_append, List.length_singleton] at hrun htable
      refine ⟨table, current, ?_, ?_⟩
      · simp only [hrun, Scan.firstFailure_cons, hf, Option.none_or, List.flatMap_cons,
          Policy.kept_append]
        rw [List.append_assoc s.diagnostics]
      · intro h
        have hh := htable (by simpa only [Scan.firstFailure_cons, hf, Option.none_or] using h)
        simpa only [List.map_cons, List.append_assoc, List.singleton_append] using hh

/-- What a scan hands out and what it leaves in the scanner. -/
theorem scan_eq (s : Scanner) (source : Source) :
    ∃ current, s.scan source =
      ((Scan.ofSource s.settings source).result,
        ⟨s.settings, .empty, (Scan.ofSource s.settings source).diagnostics, current⟩) := by
  obtain ⟨table, current, hrun, htable⟩ :=
    @scanLines_eq { s with diagnostics := [], table := .create source.lineCount } []
      source.lines (by simp [TokenTable.create, TokenTable.ofRows, Source.lineCount])
  refine ⟨current, ?_⟩
  simp only [List.length_nil, List.nil_append] at hrun htable
  simp only [scan, hrun, Scan.diagnostics_eq_kept]
  cases hf : Scan.firstFailure (Scan.ofLines s.settings 0 source.lines) with
  | some e => simp only [Scan.result, Scan.failure, Scan.ofSource, hf]
  | none => simp only [Scan.result, Scan.failure, Scan.ofSource, hf, htable hf]

theorem scan_result (s : Scanner) (source : Source) :
    (s.scan source).1 = (Scan.ofSource s.settings source).result := by
  obtain ⟨current, h⟩ := s.scan_eq source
  rw [h]

theorem scan_diagnostics (s : Scanner) (source : Source) :
    (s.scan source).2.diagnostics = s.settings.unrecognized.kept
      ((Scan.ofLines s.settings 0 source.lines).flatMap LineScan.strays) := by
  obtain ⟨current, h⟩ := s.scan_eq source
  rw [h, Scan.diagnostics_eq_kept]
  rfl

theorem scan_of_success {s : Scanner} {source : Source}
    (h : Scan.firstFailure (Scan.ofLines s.settings 0 source.lines) = none) :
    (s.scan source).1 =
      .ok (.ofRows ((Scan.ofLines s.settings 0 source.lines).map LineScan.tokens)) := by
  rw [scan_result]
  exact Scan.result_of_success h

theorem eq_of_scan {s : Scanner} {source : Source} {table : TokenTable}
    (h : (s.scan source).1 = .ok table) :
    Scan.firstFailure (Scan.ofLines s.settings 0 source.lines) = none ∧
      table = .ofRows ((Scan.ofLines s.settings 0 source.lines).map LineScan.tokens) := by
  rw [scan_result] at h
  exact Scan.result_eq_ok h

theorem scan_of_failure {s : Scanner} {source : Source} {e : LexError}
    (h : Scan.firstFailure (Scan.ofLines s.settings 0 source.lines) = some e) :
    (s.scan source).1 = .error e := by
  rw [scan_result]
  exact Scan.result_of_failure h

end Scanner

namespace Tokenized

variable {settings : LexerSettings} {source : Source}

theorem ofSource_eq (settings : LexerSettings) (source : Source) :
    ofSource settings source =
      match (Scan.ofSource settings source).result with
      | .ok table => .ok ⟨table, (Scan.ofSource settings source).diagnostics⟩
      | .error e => .error (.lexer e) := by
  obtain ⟨current, hscan⟩ := (Scanner.new settings).scan_eq source
  have hs : (Scanner.new settings).settings = settings := rfl
  rw [ofSource, hscan, hs]
  cases (Scan.ofSource settings source).result <;> rfl

theorem ofSource_of_success
    (h : Scan.firstFailure (Scan.ofLines settings 0 source.lines) = none) :
    ofSource settings source =
      .ok ⟨.ofRows ((Scan.ofLines settings 0 source.lines).map LineScan.tokens),
        settings.unrecognized.kept
          ((Scan.ofLines settings 0 source.lines).flatMap LineScan.strays)⟩ := by
  rw [ofSource_eq, Scan.result_of_success h, Scan.diagnostics_eq_kept]
  rfl

theorem ofSource_of_failure {e : LexError}
    (h : Scan.firstFailure (Scan.ofLines settings 0 source.lines) = some e) :
    ofSource settings source = .error (.lexer e) := by
  rw [ofSource_eq, Scan.result_of_failure h]

end Tokenized

section tokenize

variable {settings : LexerSettings} {text : String}

theorem exists_of_tokenize_error {f : Failure} (h : tokenize settings text = .error f) :
    ∃ e, f = .lexer e ∧
      Scan.firstFailure (Scan.ofLines settings 0 (Source.ofText text).lines) = some e := by
  cases hf : Scan.firstFailure (Scan.ofLines settings 0 (Source.ofText text).lines) with
  | none => simp [tokenize, Tokenized.ofSource_of_success hf] at h
  | some e =>
    rw [tokenize, Tokenized.ofSource_of_failure hf] at h
    exact ⟨e, (Except.error.inj h).symm, rfl⟩

theorem eq_of_tokenize {t : Tokenized} (h : tokenize settings text = .ok t) :
    Scan.firstFailure (Scan.ofLines settings 0 (Source.ofText text).lines) = none ∧
      t = ⟨.ofRows ((Scan.ofLines settings 0 (Source.ofText text).lines).map LineScan.tokens),
        settings.unrecognized.kept
          ((Scan.ofLines settings 0 (Source.ofText text).lines).flatMap LineScan.strays)⟩ := by
  cases hf : Scan.firstFailure (Scan.ofLines settings 0 (Source.ofText text).lines) with
  | none =>
    rw [tokenize, Tokenized.ofSource_of_success hf] at h
    exact ⟨rfl, (Except.ok.inj h).symm⟩
  | some e => simp [tokenize, Tokenized.ofSource_of_failure hf] at h

end tokenize

section compile

variable {files : FileReader} {settings : CompileSettings} {path source : String}

theorem compile_of_read_error {f : Failure} (h : readSource files path = .error f) :
    compile files settings path = .error f := by
  rw [compile, h]
  rfl

theorem compile_of_read (h : readSource files path = .ok source) :
    compile files settings path =
      (tokenize settings.lexer source).map fun t => ⟨path, source, t.table, t.diagnostics⟩ := by
  rw [compile, h]
  change (tokenize settings.lexer source >>= fun t => _) = _
  cases tokenize settings.lexer source <;> rfl

end compile

end LineLexer
