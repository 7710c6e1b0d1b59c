import LineLexer.Text.Utf8

/-! Why a file cannot be read, and readers of files. A reader says which paths name files and
what they hold; all that reads sources is written against a reader. -/

namespace LineLexer

inductive FileError where
  | notFound (path : String)
  | notAFile (path : String)
  | permissionDenied (path : String)
  /-- the first `offset` bytes are the longest beginning that is UTF-8 -/
  | invalidUtf8 (path : String) (offset : Nat)
  | io (path reason : String)
deriving DecidableEq, Repr

namespace FileError

def name : FileError → String
  | notFound .. => "NotFound"
  | notAFile .. => "NotAFile"
  | permissionDenied .. => "PermissionDenied"
  | invalidUtf8 .. => "InvalidUtf8"
  | io .. => "Io"

def path : FileError → String
  | notFound p => p
  | notAFile p => p
  | permissionDenied p => p
  | invalidUtf8 p _ => p
  | io p _ => p

def message : FileError → String
  | notFound p => "Path not found: " ++ p
  | notAFile p => "Not a file: " ++ p
  | permissionDenied p => "Permission denied: " ++ p
  | invalidUtf8 p offset => "Invalid UTF-8 in '" ++ p ++ "' at byte " ++ offset.repr
  | io p reason => "IO error on '" ++ p ++ "': " ++ reason

def isNotFound : FileError → Bool
  | notFound _ => true
  | notAFile _ => true
  | _ => false

end FileError

structure FileReader where
  isFile : String → Bool
  read : String → Except FileError ByteArray

/-- The text of a file. The error of bytes that are no text shows the path as it was given. -/
def FileReader.readText (r : FileReader) (path : String) : Except FileError String := do
  match Utf8.decode (← r.read path) with
  | .ok s => .ok s
  | .error offset => .error (.invalidUtf8 path offset)

theorem FileReader.readText_of_read {r : FileReader} {path : String} {b : ByteArray}
    (h : r.read path = .ok b) :
    r.readText path =
      match Utf8.decode b with
      | .ok s => .ok s
      | .error offset => .error (.invalidUtf8 path offset) := by
  rw [readText, h]
  rfl

end LineLexer
