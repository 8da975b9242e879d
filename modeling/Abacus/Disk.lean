import Abacus.FileSystem

/-!
# Disks

Files are kept on a disk, which may fail where the paths are sound: it may not let a file be read,
or stop in the middle of one, for lack of permission or space or because it is defective.

Writing a file takes three steps. The file is opened, which creates it or drops what was in it, then
its bytes are written one after the other, and then it is closed. What has been done when a step
fails is not undone.
-/
namespace Abacus

/-- The ways in which a disk fails. -/
structure Disk where
  /-- The paths that are not shown, whether or not there is an entry. -/
  hides : Bytes → Bool
  /-- What happens when the file at a path is read, if it cannot be. -/
  unreadable : Bytes → Option (FileAction × FileFault)
  /-- Why the file at a path is not opened for writing. -/
  locked : Bytes → Option FileFault
  /-- How many bytes are written before one is refused, and why it is; `none` means all. -/
  room : Option (Nat × FileFault)
  /-- Why a file that has been written is not closed well. -/
  closing : Option FileFault

namespace Disk

/-- A disk that never fails. -/
def working : Disk where
  hides _ := false
  unreadable _ := none
  locked _ := none
  room := none
  closing := none

/-- Whether a path is found to have an entry. -/
def holds (d : Disk) (fs : FileSystem) (p : Bytes) : Bool := !d.hides p && fs.holds p

def read (d : Disk) (fs : FileSystem) (p : Bytes) : Except FileError Bytes :=
  match d.unreadable p with
  | some (action, fault) => .error ⟨action, p, fault⟩
  | none => fs.read p

@[simp] theorem holds_working (fs : FileSystem) (p : Bytes) : working.holds fs p = fs.holds p := rfl

@[simp] theorem read_working (fs : FileSystem) (p : Bytes) : working.read fs p = fs.read p := rfl

/-- Opens the file at a path for writing, and gives its place. The file is empty then. -/
def create (d : Disk) (fs : FileSystem) (p : Bytes) :
    Except FileFault (FileSystem.Place × FileSystem) :=
  match d.locked p with
  | some fault => .error fault
  | none => (fs.target p).map fun place => (place, fs.put place (.file []))

/-- The bytes that are written, and why they are not all. -/
def take (d : Disk) (content : Bytes) : Bytes × Option FileFault :=
  match d.room with
  | none => (content, none)
  | some (n, fault) => if n < content.length then (content.take n, some fault) else (content, none)

/-- Writes the file at a path, as far as possible. -/
def write (d : Disk) (fs : FileSystem) (p content : Bytes) : FileSystem × Option FileError :=
  match d.create fs p with
  | .error fault => (fs, some ⟨.opening, p, fault⟩)
  | .ok (place, opened) =>
    let (taken, broken) := d.take content
    let written := opened.put place (.file taken)
    match broken with
    | some fault => (written, some ⟨.writing, p, fault⟩)
    | none => (written, d.closing.map (⟨.closing, p, ·⟩))

end Disk

end Abacus
