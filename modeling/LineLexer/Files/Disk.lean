import LineLexer.Files.Error
import LineLexer.Position

/-! A disk: directories, files, links and special files, each at one or more places, with one of the
directories as the working directory. A path is walked name by name, and the first name that does
not lead on says why. -/

namespace LineLexer

theorem bind_eq_ok_iff {ε α β : Type} {x : Except ε α} {f : α → Except ε β} {b : β} :
    x >>= f = .ok b ↔ ∃ a, x = .ok a ∧ f a = .ok b := by
  cases x <;> simp [bind, Except.bind]

inductive DiskError where
  | missing
  | notDirectory
  | isDirectory
  | denied
  | tooManyLinks
  | nameTooLong
  | nulInName
  | outOfMemory
  /-- whatever else the system has to say -/
  | other (message : String)
deriving DecidableEq, Repr

namespace DiskError

def message : DiskError → String
  | missing => "No such file or directory (os error 2)"
  | notDirectory => "Not a directory (os error 20)"
  | isDirectory => "Is a directory (os error 21)"
  | denied => "Permission denied (os error 13)"
  | tooManyLinks => "Too many levels of symbolic links (os error 40)"
  | nameTooLong => "File name too long (os error 36)"
  | nulInName => "file name contained an unexpected NUL byte"
  | outOfMemory => "out of memory"
  | other message => message

def toFileError (path : String) : DiskError → FileError
  | missing => .notFound path
  | denied => .permissionDenied path
  | e => .io path e.message

end DiskError

/-- A place on the disk, by the names that lead there from the root. -/
abbrev Place := List String

/-- What cannot be done with a directory, and why: to list it, to look a name up in it, and to make
a new file in it. -/
structure Limits where
  noList : Option DiskError := none
  noSearch : Option DiskError := none
  noCreate : Option DiskError := none

structure File where
  content : ByteArray
  /-- why it cannot be read, if so -/
  noRead : Option DiskError := none
  /-- why it cannot be written, if so -/
  noWrite : Option DiskError := none

/-- Where a special file takes what is written to it. -/
inductive Outlet where
  | output
  | error
  | elsewhere
deriving DecidableEq, Repr

/-- A device, a pipe, a terminal: what reading it gives, and where writing to it leads. -/
structure Special where
  reading : Except DiskError ByteArray
  writing : Except DiskError Outlet

inductive Entry where
  | directory (limits : Limits)
  | file (f : File)
  | link (target : String)
  | special (s : Special)

structure Disk where
  workingDirectory : Place
  /-- what is on the disk, and the places at which it is -/
  nodes : List (List Place × Entry)

/-- What stands at the next name of a path. -/
inductive Hop where
  | place (p : Place)
  | link (target : String)
  /-- nothing, in a directory with these limits -/
  | absent (limits : Limits)

/-- What takes the bytes that are appended: the file at an index of the disk, or an outlet. -/
inductive Sink where
  | file (index : Nat)
  | outlet (o : Outlet)
deriving DecidableEq, Repr

/-- A file that no memory holds is not read. -/
def File.read (f : File) : Except DiskError ByteArray :=
  match f.noRead with
  | some e => .error e
  | none => if maxSize < f.content.size then .error .outOfMemory else .ok f.content

namespace Entry

def read : Entry → Except DiskError ByteArray
  | directory limits => .error (limits.noList.getD .isDirectory)
  | file f => f.read
  | link _ => .error .tooManyLinks
  | special s => s.reading

def append (more : ByteArray) : Entry → Entry
  | file f => .file { f with content := f.content ++ more }
  | e => e

end Entry

namespace Disk

/-- Longest name and longest path, in bytes. -/
def maxName : Nat := 255

def maxPath : Nat := 4095

/-- Links that a walk follows. -/
def maxLinks : Nat := 40

def index? (d : Disk) (p : Place) : Option Nat := d.nodes.findIdx? fun n => n.1.contains p

/-- What is at a place. The root is always there. -/
def entry? (d : Disk) (p : Place) : Option Entry :=
  match d.index? p with
  | some i => d.nodes[i]?.map Prod.snd
  | none => if p = [] then some (.directory {}) else none

/-- The names between the slashes of a path. Two slashes in a row have an empty one between
them. -/
def names (path : String) : List String :=
  (path.toList.splitOn '/').map String.ofList

/-- Where a path begins that is read at `p`. -/
def base (p : Place) (path : String) : Place := if path.toList.head? = some '/' then [] else p

/-- Goes on from `p` by one name. Only a directory leads on, be it to itself. -/
def hop (d : Disk) (p : Place) (name : String) : Except DiskError Hop :=
  match d.entry? p with
  | some (.directory limits) =>
    if name = "" then .ok (.place p)
    else
      match limits.noSearch with
      | some e => .error e
      | none =>
        if name = "." then .ok (.place p)
        else if name = ".." then .ok (.place p.dropLast)
        else if maxName < name.utf8ByteSize then .error .nameTooLong
        else
          match d.entry? (p ++ [name]) with
          | some (.link target) => .ok (.link target)
          | some _ => .ok (.place (p ++ [name]))
          | none => .ok (.absent limits)
  | _ => .error .notDirectory

/-- Walks on from `p` up to the first link, from which on `follow` goes. -/
def walkWith (follow : Place → List String → Except DiskError Place) (d : Disk) (p : Place) :
    List String → Except DiskError Place
  | [] => .ok p
  | name :: rest =>
    match d.hop p name with
    | .error e => .error e
    | .ok (.place q) => walkWith follow d q rest
    | .ok (.link target) => follow (base p target) (names target ++ rest)
    | .ok (.absent _) => .error .missing

/-- Walks on from `p` over no more than so many links. -/
def walk (d : Disk) : Nat → Place → List String → Except DiskError Place
  | 0 => walkWith (fun _ _ => .error .tooManyLinks) d
  | links + 1 => walkWith (d.walk links) d

/-- The start of a path that can be walked at all. -/
def origin (d : Disk) (path : String) : Except DiskError Place :=
  if '\x00' ∈ path.toList then .error .nulInName
  else if path = "" then .error .missing
  else if maxPath < path.utf8ByteSize then .error .nameTooLong
  else .ok (base d.workingDirectory path)

def resolve (d : Disk) (path : String) : Except DiskError Place := do
  d.walk maxLinks (← d.origin path) (names path)

/-- What a path names. -/
def find (d : Disk) (path : String) : Except DiskError Entry := do
  match d.entry? (← d.resolve path) with
  | some e => .ok e
  | none => .error .missing

def isExisting (d : Disk) (path : String) : Bool :=
  match d.find path with
  | .ok _ => true
  | .error _ => false

def isFile (d : Disk) (path : String) : Bool :=
  match d.find path with
  | .ok (.file _) => true
  | _ => false

def content (d : Disk) (path : String) : Except DiskError ByteArray := do
  (← d.find path).read

def read (d : Disk) (path : String) : Except FileError ByteArray :=
  match d.find path with
  | .error e => .error (e.toFileError path)
  | .ok (.directory _) => .error (.notAFile path)
  | .ok e => e.read.mapError (·.toFileError path)

def reader (d : Disk) : FileReader := ⟨d.isFile, d.read⟩

theorem read_of_content {d : Disk} {path : String} {b : ByteArray}
    (h : d.content path = .ok b) : d.reader.read path = .ok b := by
  obtain ⟨e, hfind, hread⟩ := bind_eq_ok_iff.mp h
  simp only [reader, read, hfind]
  cases e with
  | directory limits => simp [Entry.read] at hread
  | _ => exact congrArg (Except.mapError (·.toFileError path)) hread

def append (d : Disk) (index : Nat) (more : ByteArray) : Disk :=
  { d with nodes := d.nodes.modify index fun n => (n.1, n.2.append more) }

def add (d : Disk) (p : Place) (e : Entry) : Disk := { d with nodes := d.nodes ++ [([p], e)] }

/-- Opens what is at a place for appending. -/
def openAt (d : Disk) (p : Place) : Except DiskError (Sink × Disk) :=
  match d.index? p, d.entry? p with
  | some i, some (.file f) =>
    match f.noWrite with
    | some e => .error e
    | none => .ok (.file i, d)
  | _, some (.special s) =>
    match s.writing with
    | .error e => .error e
    | .ok outlet => .ok (.outlet outlet, d)
  | _, _ => .error .isDirectory

/-- Makes an empty file. -/
def create (d : Disk) (limits : Limits) (p : Place) : Except DiskError (Sink × Disk) :=
  match limits.noCreate with
  | some e => .error e
  | none => .ok (.file d.nodes.length, d.add p (.file { content := ByteArray.empty }))

/-- Walks to the last name, up to the first link, and opens what is there for appending or makes it.
A slash behind the last name asks for a directory, and so do one and two dots. -/
def openWith (follow : Place → List String → Except DiskError (Sink × Disk)) (d : Disk)
    (p : Place) : List String → Except DiskError (Sink × Disk)
  | [] => .error .isDirectory
  | name :: rest =>
    let isLast := rest.all (· == "")
    if isLast ∧ (rest ≠ [] ∨ name ∈ ["", ".", ".."]) then
      match d.hop p (if rest = [] then name else ".") with
      | .error e => .error e
      | .ok _ => .error .isDirectory
    else
      match d.hop p name with
      | .error e => .error e
      | .ok (.place q) => if isLast then d.openAt q else openWith follow d q rest
      | .ok (.link target) => follow (base p target) (names target ++ rest)
      | .ok (.absent limits) => if isLast then d.create limits (p ++ [name]) else .error .missing

def openFrom (d : Disk) : Nat → Place → List String → Except DiskError (Sink × Disk)
  | 0 => openWith (fun _ _ => .error .tooManyLinks) d
  | links + 1 => openWith (d.openFrom links) d

def openForAppend (d : Disk) (path : String) : Except DiskError (Sink × Disk) := do
  d.openFrom maxLinks (← d.origin path) (names path)

/-- The places that a walk looks at. -/
def looksWith (follow : Place → List String → List Place) (d : Disk) (p : Place) :
    List String → List Place
  | [] => [p]
  | name :: rest =>
    p :: (p ++ [name]) ::
      match d.hop p name with
      | .ok (.place q) => looksWith follow d q rest
      | .ok (.link target) => follow (base p target) (names target ++ rest)
      | _ => []

def looks (d : Disk) : Nat → Place → List String → List Place
  | 0 => looksWith (fun _ _ => []) d
  | links + 1 => looksWith (d.looks links) d

/-- All that must be known about a disk to follow a path on it, as far as the disk tells. -/
def looksFor (d : Disk) (path : String) : List Place :=
  d.looks maxLinks (base d.workingDirectory path) (names path)

/-- The files with their places. -/
def files (d : Disk) : List (Place × ByteArray) :=
  d.nodes.flatMap fun n =>
    match n.2 with
    | .file f => n.1.map fun p => (p, f.content)
    | _ => []

/-- The disk with this at a place, and not with what is at this place alone so far. -/
def put (d : Disk) (p : Place) (e : Entry) : Disk :=
  { d with nodes := d.nodes.filter (·.1 != [p]) ++ [([p], e)] }

/-- All places on the way from the root to a place, and the place itself. -/
def lineage (p : Place) : List Place := (List.range p.length).map fun n => p.take (n + 1)

/-- The special files that every program finds. Two of them are its own output and error stream. -/
def system : List (List Place × Entry) :=
  let outlet (o : Outlet) : Entry := .special ⟨.ok ByteArray.empty, .ok o⟩
  let closed : Entry := .directory { noCreate := some .missing }
  [([["dev"]], .directory {}), ([["dev", "null"]], outlet .elsewhere),
   ([["dev", "stdout"]], .link "/proc/self/fd/1"), ([["dev", "stderr"]], .link "/proc/self/fd/2"),
   ([["proc"]], closed), ([["proc", "self"]], closed), ([["proc", "self", "fd"]], closed),
   ([["proc", "self", "fd", "1"]], outlet .output), ([["proc", "self", "fd", "2"]], outlet .error)]

/-- The disk with these directories and files below the working directory; later files replace
earlier ones. -/
def ofList (workingDirectory : Place) (directories : List Place)
    (files : List (Place × ByteArray)) : Disk :=
  let folders := workingDirectory :: directories.map (workingDirectory ++ ·) ++
    files.map fun f => workingDirectory ++ f.1.dropLast
  let nodes := (folders.flatMap lineage).map fun p => ([p], Entry.directory {})
  files.foldl (fun d f => d.put (workingDirectory ++ f.1) (.file { content := f.2 }))
    ⟨workingDirectory, system ++ nodes⟩

end Disk

end LineLexer
