import LineLexer.Proofs.Caret
import LineLexer.Proofs.Dumps
import LineLexer.Proofs.Emission
import LineLexer.Proofs.LogTargets
import LineLexer.Proofs.Opening
import LineLexer.Proofs.Strays

/-! The outcome of a compile run. Step by step a run does what compiling does. The log does not
change the exit status, and it changes what is printed only where its lines go to the output. -/

namespace LineLexer

/-- The listing of a source, if it is to be shown and the output has this format. -/
def OutputSettings.listed (s : OutputSettings) (format : OutputFormat) (source : String) : String :=
  if s.showSource = true ∧ s.format = format then listing source else ""

/-- The exit status of a run with these settings, once its source is read, and what it prints: the
listing and the dump, as far as there is one. -/
def Project.printed (p : Project) (source : Except Failure String) : Nat × String × String :=
  match source with
  | .error _ => (1, "", "")
  | .ok source =>
    match tokenize p.lexer source with
    | .error _ => (1, p.output.listed .text source, "")
    | .ok t => (0, p.output.listed .text source, t.table.dump p.output)

/-- Nothing less than a warning is logged. -/
def LoggingSettings.Quiet (s : LoggingSettings) : Prop :=
  ∀ phase : Phase, (LogLimits.ofSettings s).levelFor phase.target = .warn ∨
    (LogLimits.ofSettings s).levelFor phase.target = .error

def LogEvent.IsMinor (e : LogEvent) : Prop := e.level.severity < LogLevel.warn.severity

theorem logLines_of_quiet {s : LoggingSettings} (hq : s.Quiet) (format : LogFormat)
    {events : List LogEvent} (h : ∀ e ∈ events, e.IsMinor) :
    logLines (.ofLimits (.ofSettings s)) format events = [] := by
  rw [logLines, List.map_eq_nil_iff, List.filter_eq_nil_iff]
  intro e he
  have hminor := h e he
  have hwarn : LogLevel.warn.severity < LogLevel.error.severity := by decide
  rw [LogFilter.enables_iff, LogFilter.levelFor_of_begins _ e.phase.begins_target]
  rw [LogEvent.IsMinor] at hminor
  rcases hq e.phase with hl | hl
  · rw [hl]
    omega
  · rw [hl]
    omega

theorem ScanItem.isMinor_event (policy : Policy) (index : Nat) (i : ScanItem) :
    (i.event policy index).IsMinor := by
  have htrace : LogLevel.trace.severity < LogLevel.warn.severity := by decide
  have hdebug : LogLevel.debug.severity < LogLevel.warn.severity := by decide
  cases i with
  | token t => exact htrace
  | stray p c =>
    cases policy with
    | skip => exact htrace
    | collect => exact hdebug
    | reject => exact hdebug

theorem LineScan.isMinor_of_mem_events {policy : Policy} {index : Nat} {line : Line}
    {s : LineScan} : ∀ e ∈ s.events policy index line, e.IsMinor := by
  have hitems : ∀ e ∈ s.items.map (·.event policy index), LogEvent.IsMinor e := by
    intro e he
    obtain ⟨i, -, rfl⟩ := List.mem_map.mp he
    exact i.isMinor_event policy index
  have hdebug : LogLevel.debug.severity < LogLevel.warn.severity := by decide
  rw [events, List.cons_append, List.forall_mem_cons, List.forall_mem_append]
  refine ⟨hdebug, hitems, ?_⟩
  cases s.failure with
  | none => simp
  | some e => exact List.forall_mem_singleton.mpr hdebug

theorem Scan.isMinor_of_mem_events {s : Scan} {source : Source} :
    ∀ e ∈ s.events source, e.IsMinor := by
  have hlines : ∀ e ∈ (source.lines.zip s.lines).zipIdx.flatMap fun l =>
      l.1.2.events s.settings.unrecognized l.2 l.1.1, LogEvent.IsMinor e := by
    intro e he
    obtain ⟨l, -, he⟩ := List.mem_flatMap.mp he
    exact LineScan.isMinor_of_mem_events e he
  have hinfo : LogLevel.info.severity < LogLevel.warn.severity := by decide
  rw [events, List.forall_mem_cons, List.forall_mem_append]
  refine ⟨hinfo, hlines, ?_⟩
  rw [finished]
  cases s.result with
  | ok table => exact List.forall_mem_singleton.mpr hinfo
  | error => simp

namespace Logger

/-- What the log of these events puts on the output. -/
def echo (l : Logger) (events : List LogEvent) : String :=
  if l.sink = some (.outlet .output) then String.join (logLines l.filter l.format events) else ""

/-- An output of two texts, with what is logged to the output before each of them. -/
def Prints (l : Logger) (out first second : String) : Prop :=
  ∃ early late, (∀ e ∈ early, LogEvent.IsMinor e) ∧ (∀ e ∈ late, LogEvent.IsMinor e) ∧
    out = l.echo early ++ first ++ l.echo late ++ second

/-- The log does not go to the output, or nothing is logged. -/
def Aside (l : Logger) (s : LoggingSettings) : Prop := l.sink ≠ some (.outlet .output) ∨ s.Quiet

/-- The disk `e` is what the log of a run may have made of `d`. -/
def Leads (l : Logger) (d e : Disk) : Prop :=
  match l.sink with
  | some (.file index) => ∃ more, e = d.append index more
  | _ => e = d

end Logger

namespace Session

variable {l : Logger} {s : Session} {d : Disk}

theorem stdout_logLine (l : Logger) (s : Session) (line : String) :
    (logLine l s line).stdout =
      s.stdout ++ if l.sink = some (.outlet .output) then line else "" := by
  rw [logLine]
  rcases l.sink with _ | (index | (_ | _ | _))
  · simp [err]
  · simp [put, err]
  · simp [put, out, err]
  · simp [put, err]
  · simp [put, err]

theorem stdout_log (s : Session) (l : Logger) (events : List LogEvent) :
    (s.log l events).stdout = s.stdout ++ l.echo events := by
  rw [log, Logger.echo]
  generalize logLines l.filter l.format events = lines
  induction lines generalizing s with
  | nil => simp
  | cons line lines ih =>
    rw [List.foldl_cons, ih, stdout_logLine, String.append_assoc]
    split
    · rw [String.join_cons]
    · rfl

theorem leads_logLine (h : l.Leads d s.disk) (line : String) :
    l.Leads d (logLine l s line).disk := by
  rw [Logger.Leads] at h ⊢
  rw [logLine]
  rcases hsink : l.sink with _ | (index | (_ | _ | _))
  · rwa [hsink] at h
  · rw [hsink] at h
    obtain ⟨more, hdisk⟩ := h
    refine ⟨more ++ Utf8.encode line, ?_⟩
    change s.disk.append index (Utf8.encode line) = _
    rw [hdisk, Disk.append_append]
  · rwa [hsink] at h
  · rwa [hsink] at h
  · rwa [hsink] at h

theorem leads_log (h : l.Leads d s.disk) (events : List LogEvent) :
    l.Leads d (s.log l events).disk := by
  rw [log]
  generalize logLines l.filter l.format events = lines
  induction lines generalizing s with
  | nil => exact h
  | cons line lines ih => exact ih (leads_logLine h line)

end Session

namespace Logger

variable {l : Logger} {d e opened : Disk} {s : LoggingSettings} {path : String}

theorem start_eq_ok (h : start d s = .ok (l, e)) :
    l.filter = .ofLimits (.ofSettings s) ∧
      (l.sink = none ∧ e = d ∨ ∃ path sink, s.file = some path ∧ l.sink = some sink ∧
        d.openForAppend path = .ok (sink, e)) := by
  rw [start] at h
  cases hfile : s.file with
  | none =>
    rw [hfile] at h
    obtain ⟨rfl, rfl⟩ := Prod.mk.inj (Except.ok.inj h)
    exact ⟨rfl, .inl ⟨rfl, rfl⟩⟩
  | some path =>
    rw [hfile] at h
    cases hopen : d.openForAppend path with
    | error => simp [hopen] at h
    | ok opened =>
      simp only [hopen] at h
      obtain ⟨rfl, rfl⟩ := Prod.mk.inj (Except.ok.inj h)
      exact ⟨rfl, .inr ⟨path, opened.1, rfl, rfl, hopen⟩⟩

theorem Leads.refl (l : Logger) (d : Disk) : l.Leads d d := by
  rw [Leads]
  split
  · exact ⟨ByteArray.empty, (d.append_empty _).symm⟩
  · rfl

theorem Leads.entry?_eq (h : l.Leads d e) {q : Place}
    (apart : ∀ i, l.sink = some (.file i) → d.index? q ≠ some i) : e.entry? q = d.entry? q := by
  rw [Leads] at h
  split at h
  · next index hsink =>
    obtain ⟨more, rfl⟩ := h
    rw [Disk.entry?_append, if_neg (apart index hsink)]
  · rw [h]

theorem Leads.find_eq (h : l.Leads d e)
    (apart : ∀ i q, l.sink = some (.file i) → d.resolve path = .ok q → d.index? q ≠ some i) :
    e.find path = d.find path := by
  rw [Leads] at h
  split at h
  · next index hsink =>
    obtain ⟨more, rfl⟩ := h
    exact Disk.find_append fun q hq => apart index q hsink hq
  · rw [h]

/-- Opening the log leaves the source as it is, and so does the log, unless it is written to the
source. -/
theorem readSource_of_start (hstart : start d s = .ok (l, opened)) (h : l.Leads opened e)
    (apart : ∀ i q, l.sink = some (.file i) → opened.resolve path = .ok q →
      opened.index? q ≠ some i) :
    readSource e.reader path = readSource d.reader path := by
  refine Disk.readSource_congr fun x => ?_
  rw [h.find_eq apart]
  rcases (start_eq_ok hstart).2 with ⟨-, rfl⟩ | ⟨file, sink, -, hsink, hopen⟩
  · rfl
  · refine (Disk.opens_openForAppend hopen).find_eq_ok_iff (fun i q hi => apart i q ?_) x
    rw [hsink, hi]

theorem echo_append (l : Logger) (events events' : List LogEvent) :
    l.echo (events ++ events') = l.echo events ++ l.echo events' := by
  rw [echo, echo, echo]
  split
  · rw [logLines, List.filter_append, List.map_append, String.join_append]
    rfl
  · rfl

theorem echo_of_aside (hfilter : l.filter = .ofLimits (.ofSettings s)) (haside : l.Aside s)
    {events : List LogEvent} (h : ∀ e ∈ events, e.IsMinor) : l.echo events = "" := by
  rw [echo]
  rcases haside with hsink | hquiet
  · rw [if_neg hsink]
  · rw [hfilter, logLines_of_quiet hquiet _ h]
    exact ite_self _

theorem Prints.eq_append {out first second : String} (h : l.Prints out first second)
    (hfilter : l.filter = .ofLimits (.ofSettings s)) (haside : l.Aside s) :
    out = first ++ second := by
  obtain ⟨early, late, hearly, hlate, rfl⟩ := h
  rw [echo_of_aside hfilter haside hearly, echo_of_aside hfilter haside hlate,
    String.empty_append, String.append_empty]

end Logger

/-- A failure without a source in view can always be printed. -/
theorem Failure.isSome_print? (f : Failure) (format : OutputFormat) :
    (f.print? format none).isSome = true := by
  cases format with
  | text => cases hp : f.position? <;> simp [print?, explain?, hp]
  | json => rfl

/-- So can an error of the lexer in a source that a memory holds. -/
theorem Failure.isSome_print?_of_tokenize {settings : LexerSettings} {source : String} {e : LexError}
    (h : tokenize settings source = .error (.lexer e)) (hsize : source.utf8ByteSize ≤ maxSize)
    (format : OutputFormat) : ((lexer e).print? format (some source)).isSome = true := by
  cases format with
  | text =>
    rw [print?, explain?_lexer, Option.isSome_map]
    exact Context.isSome_around? (column_le_of_tokenize h hsize) source e.position.line
  | json => rfl

namespace Session

variable {s : Session} {f : Failure} {format : OutputFormat} {source : Option String}

theorem stdout_fail : (s.fail f format source).stdout = s.stdout := by
  rw [fail]
  split <;> rfl

theorem disk_fail : (s.fail f format source).disk = s.disk := by
  rw [fail]
  split <;> rfl

theorem exitCode_fail (h : (f.print? format source).isSome = true) :
    (s.fail f format source).exitCode = 1 := by
  obtain ⟨text, ht⟩ := Option.isSome_iff_exists.mp h
  rw [fail, ht]
  rfl

end Session

theorem Project.load_eq_ok {d : Disk} {named : Option String} {wording : String → String}
    {p : Project} (h : load d named wording = .ok p) : load d named = .ok p := by
  have hfile : ∀ path, load.file d wording path = .ok p →
      load.file d (fun _ => "") path = .ok p := by
    intro path h
    rw [load.file] at h ⊢
    cases hbytes : d.content path with
    | error e => simp [hbytes] at h
    | ok bytes =>
      simp only [hbytes] at h ⊢
      cases hdecode : Utf8.decode bytes with
      | error offset => simp [hdecode] at h
      | ok s =>
        simp only [hdecode] at h ⊢
        cases hproject : Project.decode? s with
        | none => simp [hproject] at h
        | some project => simpa only [hproject] using h
  cases named with
  | some path => exact hfile path h
  | none =>
    have hload : ∀ w, load d none w =
        if d.isFile defaultProjectFile then load.file d w defaultProjectFile else .ok {} :=
      fun _ => rfl
    by_cases hdefault : d.isFile defaultProjectFile = true
    · rw [hload, if_pos hdefault] at h ⊢
      exact hfile _ h
    · rw [hload, if_neg hdefault] at h ⊢
      exact h

namespace CompileRequest

variable {r : CompileRequest} {p : Project} {l : Logger} {s : Session} {source : String}

/-- A source is listed first, where the format has room for it. -/
theorem printTokens_eq (s : Session) (l : Logger) (p : Project) (source : String) :
    printTokens s l p source =
      let lines := Source.ofText source
      let s : Session := { s with
        stdout := s.stdout ++ p.output.listed .text source
        stderr := s.stderr ++ p.output.listed .json source }
      let s := s.log l ((Scan.ofSource p.lexer lines).events lines)
      match tokenize p.lexer source with
      | .error f => s.fail f p.output.format (some source)
      | .ok t =>
        let s := s.log l [tokenizedEvent t]
        ((s.err (warnings t.diagnostics)).out (t.table.dump p.output)).exit 0 := by
  obtain ⟨lexer, logging, format, showSource, tokens⟩ := p
  have hshown : ∀ shown : OutputFormat, OutputSettings.listed ⟨format, showSource, tokens⟩ shown
      source = if showSource = true ∧ format = shown then listing source else "" := fun _ => rfl
  rw [printTokens]
  simp only [hshown]
  cases tokenize lexer source with
  | error f =>
    cases showSource with
    | false => simp
    | true => cases format <;> simp [Session.out, Session.err]
  | ok t =>
    cases showSource with
    | false => simp
    | true => cases format <;> simp [Session.out, Session.err]

theorem isMinor_tokenizedEvent (t : Tokenized) : ∀ e ∈ [tokenizedEvent t], e.IsMinor :=
  List.forall_mem_singleton.mpr (by decide : LogLevel.debug.severity < LogLevel.warn.severity)

/-- Past the reading a run prints what its settings say about its source. -/
theorem printed_printTokens (hsize : source.utf8ByteSize ≤ maxSize) :
    (printTokens s l p source).exitCode = (p.printed (.ok source)).1 ∧
      ∃ late, (∀ e ∈ late, LogEvent.IsMinor e) ∧ (printTokens s l p source).stdout =
        s.stdout ++ (p.printed (.ok source)).2.1 ++ l.echo late ++ (p.printed (.ok source)).2.2 := by
  have hscan : ∀ e ∈ (Scan.ofSource p.lexer (.ofText source)).events (.ofText source),
      LogEvent.IsMinor e := Scan.isMinor_of_mem_events
  rw [printTokens_eq, Project.printed]
  cases h : tokenize p.lexer source with
  | error f =>
    obtain ⟨e, rfl, -⟩ := exists_of_tokenize_error h
    refine ⟨Session.exitCode_fail (Failure.isSome_print?_of_tokenize h hsize _), _, hscan, ?_⟩
    rw [Session.stdout_fail, Session.stdout_log, String.append_empty]
  | ok t =>
    refine ⟨rfl, _, List.forall_mem_append.mpr ⟨hscan, isMinor_tokenizedEvent t⟩, ?_⟩
    change Session.stdout (Session.log _ l _) ++ _ = _
    simp only [Session.stdout_log, Logger.echo_append, String.append_assoc]

/-- What has been logged before the source is scanned. -/
def begin (r : CompileRequest) (l : Logger) (d : Disk) : Session :=
  let s := ({ disk := d } : Session).log l [r.event]
  s.log l (readEvents s.disk r.path)

theorem runLogged_eq (r : CompileRequest) (p : Project) (l : Logger) (d : Disk) :
    r.runLogged p l d =
      match readSource (({ disk := d } : Session).log l [r.event]).disk.reader r.path with
      | .error f => (r.begin l d).fail f p.output.format none
      | .ok source => printTokens (r.begin l d) l p source := rfl

/-- The events of the request and of the reading, none of which is a warning. -/
theorem isMinor_begin (r : CompileRequest) (d : Disk) :
    ∀ e ∈ [r.event] ++ readEvents d r.path, LogEvent.IsMinor e := by
  have hdebug : LogLevel.debug.severity < LogLevel.warn.severity := by decide
  refine List.forall_mem_append.mpr ⟨List.forall_mem_singleton.mpr hdebug, ?_⟩
  rw [readEvents]
  split
  · exact List.forall_mem_singleton.mpr hdebug
  · simp

theorem exists_stdout_begin (r : CompileRequest) (l : Logger) (d : Disk) :
    ∃ early, (∀ e ∈ early, LogEvent.IsMinor e) ∧ (r.begin l d).stdout = l.echo early := by
  refine ⟨_, isMinor_begin r (({ disk := d } : Session).log l [r.event]).disk, ?_⟩
  rw [begin, Session.stdout_log, Session.stdout_log, Logger.echo_append]
  exact congrArg (· ++ _) (String.empty_append ..)

variable {wording : String → String} {d opened : Disk} {project : Project}

theorem run_of_load_error {f : Failure} (h : Project.load d r.config wording = .error f) :
    r.run d wording = Session.fail { disk := d } f .text none := by
  rw [run, h]

theorem run_of_start_error {f : Failure} (h : Project.load d r.config wording = .ok project)
    (hstart : Logger.start d (r.override project).logging = .error f) :
    r.run d wording = Session.fail { disk := d } f .text none := by
  simp only [run, h, hstart]

theorem run_of_start (h : Project.load d r.config wording = .ok project)
    (hstart : Logger.start d (r.override project).logging = .ok (l, opened)) :
    r.run d wording = r.runLogged (r.override project) l opened := by
  simp only [run, h, hstart]

/-- The log file, if there is one and it can be opened, is not the file that the path names. -/
def LogApart (r : CompileRequest) (d : Disk) : Prop :=
  ∀ project path index opened q, Project.load d r.config = .ok project →
    (r.override project).logging.file = some path →
    d.openForAppend path = .ok (.file index, opened) →
    opened.resolve r.path = .ok q → opened.index? q ≠ some index

theorem readSource_begin (apart : r.LogApart d) (h : Project.load d r.config = .ok project)
    (hstart : Logger.start d (r.override project).logging = .ok (l, opened)) :
    readSource (({ disk := opened } : Session).log l [r.event]).disk.reader r.path =
      readSource d.reader r.path := by
  refine Logger.readSource_of_start hstart (Session.leads_log (Logger.Leads.refl l opened) _) ?_
  intro i q hsink hq
  rcases (Logger.start_eq_ok hstart).2 with ⟨hnone, -⟩ | ⟨path, sink, hpath, hfile, hopened⟩
  · simp [hnone] at hsink
  · obtain rfl : sink = .file i := Option.some.inj (hfile.symm.trans hsink)
    exact apart project path i opened q h hpath hopened hq

/-- With its log open a run prints what its settings say about its source, whatever is logged. -/
theorem printed_of_start (apart : r.LogApart d)
    (h : Project.load d r.config wording = .ok project)
    (hstart : Logger.start d (r.override project).logging = .ok (l, opened)) :
    let expected := (r.override project).printed (readSource d.reader r.path)
    (r.run d wording).exitCode = expected.1 ∧
      l.Prints (r.run d wording).stdout expected.2.1 expected.2.2 := by
  obtain ⟨early, hearly, hbegin⟩ := exists_stdout_begin r l opened
  rw [run_of_start h hstart, runLogged_eq,
    readSource_begin apart (Project.load_eq_ok h) hstart]
  cases hsource : readSource d.reader r.path with
  | error f =>
    refine ⟨Session.exitCode_fail (f.isSome_print? _), early, [], hearly, by simp, ?_⟩
    rw [Session.stdout_fail, hbegin]
    simp [Project.printed, Logger.echo, logLines]
  | ok source =>
    obtain ⟨hexit, late, hlate, hout⟩ := printed_printTokens (s := r.begin l opened) (l := l)
      (p := r.override project) (Disk.size_le_of_readSource hsource)
    exact ⟨hexit, early, late, hearly, hlate, by rw [hout, hbegin]⟩

end CompileRequest

end LineLexer
