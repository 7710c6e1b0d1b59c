import LineLexer.Run

/-! The program. It looks up on the real disk what the paths of a command come by, runs the
command on that, prints, and adds to the log file what the run has added to it. -/

namespace LineLexer

def absolutePath (p : Place) : String := "/" ++ "/".intercalate p

def readFile (path : String) : IO File := do
  match ← (IO.FS.readBinFile path).toBaseIO with
  | .ok content => return { content := content }
  | .error (.permissionDenied ..) =>
    return { content := ByteArray.empty, noRead := some .denied, noWrite := some .denied }
  | .error e => return { content := ByteArray.empty, noRead := some (.other e.toString) }

/-- What is at a place. A link is taken to lead to where it leads in the end. -/
def readEntry (p : Place) : IO (Option Entry) := do
  let path := (← IO.currentDir) / absolutePath p
  match ← path.symlinkMetadata.toBaseIO with
  | .error _ => return none
  | .ok about =>
    match about.type with
    | .dir => return some (.directory {})
    | .file => return some (.file (← readFile path.toString))
    | .symlink => return some (.link (← IO.FS.realPath path).toString)
    | .other => return some (.special ⟨.ok ByteArray.empty, .ok .elsewhere⟩)

/-- As much of the real disk as the paths come by. What a walk comes by next is known only once
what it has come by is. -/
def lookUp (workingDirectory : Place) (paths : List String) : IO Disk := do
  let mut disk := Disk.ofList workingDirectory [] []
  let mut known := disk.nodes.flatMap (·.1)
  for _ in [0:Disk.maxPath] do
    let next := (paths.flatMap disk.looksFor).eraseDups.filter (!known.contains ·)
    if next.isEmpty then break
    known := known ++ next
    for p in next do
      match ← readEntry p with
      | some e => disk := disk.put p e
      | none => pure ()
  return disk

/-- Adds to a file what it has gained, and makes it if it is new. A run never takes from a file. -/
def save (before : Disk) (file : Place × ByteArray) : IO Unit := do
  let old := (before.files.find? (·.1 == file.1)).map (·.2.size)
  if old ≠ some file.2.size then
    let h ← IO.FS.Handle.mk (absolutePath file.1) .append
    h.write (file.2.extract (old.getD 0) file.2.size)

end LineLexer

open LineLexer in
def main (args : List String) : IO UInt32 := do
  let command := Command.ofArguments args
  let workingDirectory := (Disk.names (← IO.currentDir).toString).filter (· != "")
  let few ← lookUp workingDirectory (command.paths (.ofList workingDirectory [] []))
  let disk ← lookUp workingDirectory (command.paths few)
  let outcome := command.run disk fun _ => "not the settings of a project"
  (← IO.getStderr).putStr outcome.stderr
  (← IO.getStdout).putStr outcome.stdout
  outcome.disk.files.forM (save disk)
  return .ofNat outcome.exitCode
