import LineLexer.Proofs.Outcome

/-! The log options of a request. What is logged is read off a run as it goes and written to the
error stream and where the log leads, so that no choice of level, format and file shows in the exit
status, in any file but the log file, or in the output, unless the log leads there. -/

namespace LineLexer

/-- A choice of the log options. Each may be left out. -/
structure LogChoice where
  level : Option LogLevel := none
  file : Option String := none
  format : Option LogFormat := none

namespace CompileRequest

def withLog (r : CompileRequest) (c : LogChoice) : CompileRequest :=
  { r with logLevel := c.level, logFile := c.file, logFormat := c.format }

/-- If the settings can be read, so that it is known what to log and where, the log opens. -/
def LogOpens (r : CompileRequest) (d : Disk) : Prop :=
  ∀ project, Project.load d r.config = .ok project →
    ∃ opened, Logger.start d (r.override project).logging = .ok opened

/-- The log, once it is open, does not go to the output, or nothing is logged. -/
def LogAside (r : CompileRequest) (d : Disk) : Prop :=
  ∀ project l opened, Project.load d r.config = .ok project →
    Logger.start d (r.override project).logging = .ok (l, opened) →
    l.Aside (r.override project).logging

/-- The log file is the file at `place`, where it may have been made. -/
def LogsTo (r : CompileRequest) (d : Disk) (place : Place) : Prop :=
  ∃ project path index opened, Project.load d r.config = .ok project ∧
    (r.override project).logging.file = some path ∧
    d.openForAppend path = .ok (.file index, opened) ∧ opened.index? place = some index

variable {r : CompileRequest} {d : Disk} {wording : String → String}

theorem logOpens_of_start {project : Project} (h : Project.load d r.config = .ok project)
    (hstart : (Logger.start d (r.override project).logging).isOk = true) : r.LogOpens d := by
  intro project' hproject
  obtain rfl := Except.ok.inj (h.symm.trans hproject)
  cases hlog : Logger.start d (r.override project).logging with
  | error f => simp [hlog, Except.isOk, Except.toBool] at hstart
  | ok opened => exact ⟨opened, rfl⟩

/-- Without a log file nothing is written to the source. -/
theorem logApart_of_no_file {project : Project} (h : Project.load d r.config = .ok project)
    (hfile : (r.override project).logging.file = none) : r.LogApart d := by
  intro project' path index opened q hproject hpath
  obtain rfl := Except.ok.inj (h.symm.trans hproject)
  simp [hfile] at hpath

section leads

variable {l : Logger} {e : Disk}

theorem leads_printTokens {s : Session} (h : l.Leads d s.disk) (p : Project) (source : String) :
    l.Leads d (printTokens s l p source).disk := by
  rw [printTokens_eq]
  have hscan : ∀ events stdout stderr,
      l.Leads d (Session.log { s with stdout := stdout, stderr := stderr } l events).disk := by
    intro events stdout stderr
    have hlisted : l.Leads d { s with stdout := stdout, stderr := stderr : Session }.disk := h
    exact Session.leads_log hlisted events
  cases tokenize p.lexer source with
  | error f =>
    rw [Session.disk_fail]
    exact hscan _ _ _
  | ok t => exact Session.leads_log (hscan _ _ _) _

theorem leads_runLogged (r : CompileRequest) (p : Project) (l : Logger) (d : Disk) :
    l.Leads d (r.runLogged p l d).disk := by
  have hbegin : l.Leads d (r.begin l d).disk :=
    Session.leads_log (Session.leads_log (Logger.Leads.refl l d) _) _
  rw [runLogged_eq]
  split
  · rwa [Session.disk_fail]
  · exact leads_printTokens hbegin p _

end leads

/-- A run leaves every file as it is but the log file. -/
theorem entry?_run {q : Place} (h : ¬ r.LogsTo d q) :
    Disk.entry? (r.run d wording).disk q = d.entry? q := by
  cases hload : Project.load d r.config wording with
  | error f => rw [run_of_load_error hload, Session.disk_fail]
  | ok project =>
    cases hstart : Logger.start d (r.override project).logging with
    | error f => rw [run_of_start_error hload hstart, Session.disk_fail]
    | ok opened =>
      obtain ⟨l, opened⟩ := opened
      rw [run_of_start hload hstart]
      rcases (Logger.start_eq_ok hstart).2 with ⟨hnone, rfl⟩ | ⟨path, sink, hpath, hsink, hopen⟩
      · exact (leads_runLogged r _ l opened).entry?_eq (by simp [hnone])
      · have apart : ∀ i, sink = .file i → opened.index? q ≠ some i := by
          rintro i rfl hindex
          exact h ⟨project, path, i, opened, Project.load_eq_ok hload, hpath, hopen, hindex⟩
        calc Disk.entry? (r.runLogged (r.override project) l opened).disk q
            = opened.entry? q := (leads_runLogged r _ l opened).entry?_eq fun i hi =>
              apart i (Option.some.inj (hsink.symm.trans hi))
          _ = d.entry? q := (Disk.opens_openForAppend hopen).entry?_eq apart

/-- The log options take no part in how a source is scanned and printed. -/
theorem printed_withLog (r : CompileRequest) (c : LogChoice) (project : Project)
    (source : Except Failure String) :
    ((r.withLog c).override project).printed source = (r.override project).printed source := rfl

theorem printed_of_logOpens {project : Project} (opens : r.LogOpens d) (apart : r.LogApart d)
    (h : Project.load d r.config wording = .ok project) :
    let expected := (r.override project).printed (readSource d.reader r.path)
    (r.run d wording).exitCode = expected.1 ∧
      (r.LogAside d → (r.run d wording).stdout = expected.2.1 ++ expected.2.2) := by
  have hload := Project.load_eq_ok h
  obtain ⟨⟨l, opened⟩, hstart⟩ := opens project hload
  obtain ⟨hexit, hprints⟩ := printed_of_start apart h hstart
  exact ⟨hexit, fun aside => hprints.eq_append (Logger.start_eq_ok hstart).1
    (aside project l opened hload hstart)⟩

/-- Two choices of the log options make no difference but in what is logged: the exit status and
the files afterwards are the same, and the output is as well where neither log goes there, as long
as both logs can be opened and neither is written to the source. The log files themselves are left
out. -/
theorem run_withLog (r : CompileRequest) (d : Disk) (wording : String → String) {c c' : LogChoice}
    (opens : (r.withLog c).LogOpens d) (opens' : (r.withLog c').LogOpens d)
    (apart : (r.withLog c).LogApart d) (apart' : (r.withLog c').LogApart d) :
    let o := (Command.compile (r.withLog c)).run d wording
    let o' := (Command.compile (r.withLog c')).run d wording
    o.exitCode = o'.exitCode ∧
      ((r.withLog c).LogAside d → (r.withLog c').LogAside d → o.stdout = o'.stdout) ∧
      ∀ q, ¬ (r.withLog c).LogsTo d q → ¬ (r.withLog c').LogsTo d q →
        o.disk.entry? q = o'.disk.entry? q := by
  intro o o'
  have ho : o = (r.withLog c).run d wording := rfl
  have ho' : o' = (r.withLog c').run d wording := rfl
  have hfiles : ∀ q, ¬ (r.withLog c).LogsTo d q → ¬ (r.withLog c').LogsTo d q →
      Disk.entry? o.disk q = Disk.entry? o'.disk q := by
    intro q hq hq'
    rw [ho, ho', entry?_run hq, entry?_run hq']
  cases hload : Project.load d r.config wording with
  | error f =>
    have hfail : ∀ c, (r.withLog c).run d wording = Session.fail { disk := d } f .text none :=
      fun c => run_of_load_error (r := r.withLog c) hload
    have hsame : o = o' := by rw [ho, ho', hfail, hfail]
    exact ⟨congrArg _ hsame, fun _ _ => congrArg _ hsame, hfiles⟩
  | ok project =>
    obtain ⟨hexit, hout⟩ := printed_of_logOpens opens apart hload
    obtain ⟨hexit', hout'⟩ := printed_of_logOpens opens' apart' hload
    rw [printed_withLog] at hexit hout hexit' hout'
    refine ⟨hexit.trans hexit'.symm, fun aside aside' => ?_, hfiles⟩
    exact (hout aside).trans (hout' aside').symm

theorem run_withLog_of_trace :
    let d := Disk.ofList ["w"] [] [(["a.bas"], Utf8.encode "1 ?")]
    let r : CompileRequest := { path := "a.bas" }
    let c : LogChoice := ⟨some .trace, some "run.log", some .json⟩
    let o := (Command.compile (r.withLog c)).run d
    let o' := (Command.compile (r.withLog {})).run d
    ((r.withLog c).LogOpens d ∧ (r.withLog {}).LogOpens d) ∧
      ((r.withLog c).LogApart d ∧ (r.withLog {}).LogApart d) ∧
      ((r.withLog c).LogAside d ∧ (r.withLog {}).LogAside d) ∧
      o.exitCode = 0 ∧ o.stdout = "0: [INT:1]\n" ∧
      o.disk.entry? ["w", "a.bas"] = o'.disk.entry? ["w", "a.bas"] := by
  intro d r c o o'
  have hload : Project.load d r.config = .ok {} := by decide +kernel
  have hopened : (d.openForAppend "run.log").map (fun x =>
      (x.1, x.2.resolve "a.bas", x.2.index? ["w", "a.bas"])) =
      .ok (.file 12, .ok ["w", "a.bas"], some 11) := by decide +kernel
  have hplain : o'.exitCode = 0 ∧ o'.stdout = "0: [INT:1]\n" := by decide +kernel
  -- what the log file is, however it was found
  have hfile : ∀ {path sink opened}, some "run.log" = some path →
      d.openForAppend path = .ok (sink, opened) → sink = .file 12 ∧
        opened.resolve "a.bas" = .ok ["w", "a.bas"] ∧ opened.index? ["w", "a.bas"] = some 11 := by
    intro path sink opened hpath hopen
    obtain rfl := Option.some.inj hpath
    rw [hopen] at hopened
    simpa only [Except.map, Except.ok.injEq, Prod.mk.injEq] using hopened
  have opens : (r.withLog c).LogOpens d := logOpens_of_start hload (by decide +kernel)
  have opens' : (r.withLog {}).LogOpens d := logOpens_of_start hload rfl
  have apart : (r.withLog c).LogApart d := by
    intro project path index opened q hproject hpath hopen hq
    obtain rfl := Except.ok.inj (hload.symm.trans hproject)
    obtain ⟨hsink, hresolve, hindex⟩ := hfile hpath hopen
    obtain rfl := Sink.file.inj hsink
    obtain rfl := Except.ok.inj (hresolve.symm.trans hq)
    rw [hindex]
    decide
  have apart' : (r.withLog {}).LogApart d := logApart_of_no_file hload rfl
  have aside : (r.withLog c).LogAside d := by
    intro project l opened hproject hstart
    obtain rfl := Except.ok.inj (hload.symm.trans hproject)
    left
    rcases (Logger.start_eq_ok hstart).2 with ⟨hnone, -⟩ | ⟨path, sink, hpath, hsink, hopen⟩
    · simp [hnone]
    · simp [hsink, (hfile hpath hopen).1]
  have aside' : (r.withLog {}).LogAside d := by
    intro project l opened hproject hstart
    obtain rfl := Except.ok.inj (hload.symm.trans hproject)
    obtain ⟨rfl, rfl⟩ := Prod.mk.inj (Except.ok.inj hstart)
    exact .inl (by simp)
  obtain ⟨hexit, hout, hfiles⟩ := run_withLog r d (fun _ => "") opens opens' apart apart'
  refine ⟨⟨opens, opens'⟩, ⟨apart, apart'⟩, ⟨aside, aside'⟩, hexit.trans hplain.1,
    (hout aside aside').trans hplain.2, hfiles _ ?_ ?_⟩
  · rintro ⟨project, path, index, opened, hproject, hpath, hopen, hindex⟩
    obtain rfl := Except.ok.inj (hload.symm.trans hproject)
    obtain ⟨hsink, -, hat⟩ := hfile hpath hopen
    obtain rfl := Sink.file.inj hsink
    exact absurd (hat.symm.trans hindex) (by decide)
  · rintro ⟨project, path, index, opened, hproject, hpath, -⟩
    obtain rfl := Except.ok.inj (hload.symm.trans hproject)
    simp [withLog, override] at hpath

/-- A log that goes to the output shows there. -/
theorem stdout_withLog_of_output :
    let d := Disk.ofList ["w"] [] [(["a.bas"], Utf8.encode "1")]
    let r : CompileRequest := { path := "a.bas" }
    let c : LogChoice := ⟨some .info, some "/dev/stdout", none⟩
    ((r.withLog c).LogOpens d ∧ (r.withLog {}).LogOpens d) ∧
      ((r.withLog c).LogApart d ∧ (r.withLog {}).LogApart d) ∧
      ((Command.compile (r.withLog c)).run d).stdout ≠
        ((Command.compile (r.withLog {})).run d).stdout := by
  intro d r c
  have hload : Project.load d r.config = .ok {} := by decide +kernel
  have hopened : (d.openForAppend "/dev/stdout").map Prod.fst = .ok (.outlet .output) := by
    decide +kernel
  refine ⟨⟨logOpens_of_start hload (by decide +kernel), logOpens_of_start hload rfl⟩,
    ⟨?_, logApart_of_no_file hload rfl⟩, by decide +kernel⟩
  intro project path index opened q hproject hpath hopen
  obtain rfl := Except.ok.inj (hload.symm.trans hproject)
  obtain rfl : "/dev/stdout" = path := Option.some.inj hpath
  simp [hopen, Except.map] at hopened

end CompileRequest

end LineLexer
