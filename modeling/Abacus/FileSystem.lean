import Abacus.Path

/-!
# File systems

A tree of directories and files without links, and the directory that relative paths start from.
An entry is kept under its place, the names on the way to it from the root; the root itself is
always a directory. Unlike cleaning, following a path looks at every directory on the way: `..`
after a name that does not exist is an error.
-/
namespace Abacus

inductive Entry
  | directory
  | file (content : Bytes)
  deriving DecidableEq, Repr

/-- The names on the way from the root. -/
abbrev FileSystem.Place := List Bytes

inductive FileFault
  | missing
  | notDirectory
  | isDirectory
  | nameTooLong
  | invalid
  /-- Anything else, in the words of the system: no permission, no space, a defect of the disk. -/
  | reported (reason : Bytes)
  deriving DecidableEq, Repr

def FileFault.message : FileFault → Bytes
  | missing => text "no such file or directory"
  | notDirectory => text "not a directory"
  | isDirectory => text "is a directory"
  | nameTooLong => text "file name too long"
  | invalid => text "invalid argument"
  | reported reason => reason

inductive FileAction
  | opening | reading | writing | closing
  deriving DecidableEq, Repr

structure FileError where
  action : FileAction
  path : Bytes
  fault : FileFault
  deriving DecidableEq, Repr

def FileError.message (e : FileError) : Bytes :=
  (match e.action with
    | .opening => text "open "
    | .reading => text "read "
    | .writing => text "write "
    | .closing => text "close ") ++ e.path ++ text ": " ++ e.fault.message

structure FileSystem where
  entries : List (FileSystem.Place × Entry)
  /-- An absolute path. -/
  workingDirectory : Bytes
  deriving DecidableEq, Repr

namespace FileSystem

def lookup? (fs : FileSystem) (place : Place) : Option Entry :=
  if place = [] then some .directory else fs.entries.lookup place

def longestName : Nat := 255

def longestPath : Nat := 4095

/-- Follows segments from a place. All but the last place passed must be a directory. -/
def walk (fs : FileSystem) : Place → List Bytes → Except FileFault Place
  | place, [] => .ok place
  | place, segment :: rest =>
    match fs.lookup? place with
    | none => .error .missing
    | some (.file _) => .error .notDirectory
    | some .directory =>
      if segment = [] ∨ segment = Path.here then fs.walk place rest
      else if segment = Path.above then fs.walk place.dropLast rest
      else if longestName < segment.length then .error .nameTooLong
      else fs.walk (place ++ [segment]) rest

def origin (fs : FileSystem) (p : Bytes) : Place :=
  if Path.isAbsolute p then []
  else Path.resolve true (Path.segments fs.workingDirectory)

/-- Refuses paths that name nothing in any file system. -/
def check (p : Bytes) : Except FileFault Unit :=
  if p.contains 0 then .error .invalid
  else if p = [] then .error .missing
  else if longestPath < p.length then .error .nameTooLong
  else .ok ()

/-- The place a path leads to, whether or not there is an entry. -/
def locate (fs : FileSystem) (p : Bytes) : Except FileFault Place := do
  check p
  fs.walk (fs.origin p) (Path.segments p)

def holds (fs : FileSystem) (p : Bytes) : Bool :=
  match fs.locate p with
  | .ok place => (fs.lookup? place).isSome
  | .error _ => false

def read (fs : FileSystem) (p : Bytes) : Except FileError Bytes :=
  match fs.locate p with
  | .error fault => .error ⟨.opening, p, fault⟩
  | .ok place =>
    match fs.lookup? place with
    | none => .error ⟨.opening, p, .missing⟩
    | some .directory => .error ⟨.reading, p, .isDirectory⟩
    | some (.file content) => .ok content

def put (fs : FileSystem) (place : Place) (e : Entry) : FileSystem :=
  { fs with entries := (place, e) :: fs.entries.filter (·.1 ≠ place) }

/-- The place where a file at a path may be written: its directory must exist, and the path must
name a file in it and not the directory itself. -/
def target (fs : FileSystem) (p : Bytes) : Except FileFault Place := do
  check p
  -- Slashes at the end ask for a directory, and are looked at last.
  let reversed := (Path.segments p).reverse
  let named := reversed.dropWhile (· == [])
  match named with
  | [] => throw .isDirectory
  | name :: directory =>
    let place ← fs.walk (fs.origin p) directory.reverse
    match fs.lookup? place with
    | none => throw .missing
    | some (.file _) => throw .notDirectory
    | some .directory =>
      if name = Path.here ∨ name = Path.above ∨ named.length < reversed.length then
        throw .isDirectory
      else if longestName < name.length then throw .nameTooLong
      else if fs.lookup? (place ++ [name]) = some .directory then throw .isDirectory
      else pure (place ++ [name])

/-- Adds the directory at a place and those above it, where there is nothing yet. -/
def addDirectory (fs : FileSystem) (place : Place) : FileSystem :=
  (List.range place.length).foldl
    (fun fs n =>
      let above := place.take (n + 1)
      if (fs.lookup? above).isSome then fs else fs.put above .directory) fs

/-- Adds a file at a place and the directories above it. -/
def addFile (fs : FileSystem) (place : Place) (content : Bytes) : FileSystem :=
  (fs.addDirectory place.dropLast).put place (.file content)

/-- The files with their places, in no particular order. -/
def files (fs : FileSystem) : List (Place × Bytes) :=
  fs.entries.filterMap fun (place, e) =>
    match e with
    | .directory => none
    | .file content => some (place, content)

/-- The files that are new or differ from an earlier state. -/
def changes (earlier fs : FileSystem) : List (Place × Bytes) :=
  fs.files.filter fun (place, content) => earlier.lookup? place ≠ some (.file content)

end FileSystem

end Abacus
