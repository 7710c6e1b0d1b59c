import LineLexer.Files.Error

/-! Files in memory, by path. Paths that differ only in the direction of their slashes are one
path. Several handles may share the same files. -/

namespace LineLexer

def normalPath (path : String) : String :=
  String.ofList (path.toList.map fun c => if c = '\\' then '/' else c)

/-- Files by normal path, each path once. -/
structure FileTable where
  entries : List (String × ByteArray)

namespace FileTable

def empty : FileTable := ⟨[]⟩

def find? (t : FileTable) (path : String) : Option ByteArray :=
  (t.entries.find? fun e => e.1 == normalPath path).map (·.2)

def insert (t : FileTable) (path : String) (content : ByteArray) : FileTable :=
  let key := normalPath path
  ⟨(key, content) :: t.entries.filter fun e => e.1 != key⟩

/-- A later file replaces an earlier one of the same path. -/
def ofList (files : List (String × ByteArray)) : FileTable :=
  files.foldl (fun t f => t.insert f.1 f.2) empty

def size (t : FileTable) : Nat := t.entries.length

def isEmpty (t : FileTable) : Bool := t.size == 0

def contains (t : FileTable) (path : String) : Bool := (t.find? path).isSome

def read (t : FileTable) (path : String) : Except FileError ByteArray :=
  match t.find? path with
  | some content => .ok content
  | none => .error (.notFound (normalPath path))

/-- In memory every path that exists is a file. -/
def reader (t : FileTable) : FileReader := ⟨t.contains, t.read⟩

theorem read_of_find? {t : FileTable} {path : String} {b : ByteArray}
    (h : t.find? path = some b) : t.reader.read path = .ok b := by
  simp only [reader, read, h]

end FileTable

/-- Tables, and handles that name one of them each. -/
structure FileHandles where
  tables : List FileTable
  handles : List Nat

namespace FileHandles

def empty : FileHandles := ⟨[], []⟩

def ofList (files : List (String × ByteArray)) : FileHandles := ⟨[FileTable.ofList files], [0]⟩

def table (h : FileHandles) (handle : Nat) : FileTable :=
  ((h.handles[handle]?).bind fun i => h.tables[i]?).getD .empty

/-- Adds a file through a handle; every handle on the same files sees it. -/
def insert (h : FileHandles) (handle : Nat) (path : String) (content : ByteArray) : FileHandles :=
  match h.handles[handle]? with
  | some i => { h with tables := h.tables.modify i (·.insert path content) }
  | none => h

/-- One more handle on the files behind this one. -/
def clone (h : FileHandles) (handle : Nat) : FileHandles :=
  match h.handles[handle]? with
  | some i => { h with handles := h.handles ++ [i] }
  | none => h

def new (h : FileHandles) : FileHandles :=
  ⟨h.tables ++ [.empty], h.handles ++ [h.tables.length]⟩

/-- One more handle, on a table of its own. -/
def withFiles (h : FileHandles) (files : List (String × ByteArray)) : FileHandles :=
  ⟨h.tables ++ [FileTable.ofList files], h.handles ++ [h.tables.length]⟩

theorem new_eq (h : FileHandles) : h.new = h.withFiles [] := rfl

end FileHandles

end LineLexer
