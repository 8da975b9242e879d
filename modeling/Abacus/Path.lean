import Abacus.Text.Bytes

/-!
# Paths

A path is a byte string whose segments stand between slashes. Cleaning is lexical and never looks
at a file system: empty segments and `.` go, and `..` takes away the segment before it. An
absolute path has nothing above its root, so a leading `..` vanishes there; in a relative path it
stays.
-/
namespace Abacus.Path

def slash : UInt8 := 0x2f

def dot : UInt8 := 0x2e

/-- The segment that stands for the directory itself. -/
def here : Bytes := [dot]

/-- The segment that stands for the directory above. -/
def above : Bytes := [dot, dot]

def isAbsolute (p : Bytes) : Bool := p.head? == some slash

def segments (p : Bytes) : List Bytes := Bytes.splitOn slash p

/-- One more segment on a stack of clean segments, the last one first. -/
def push (rooted : Bool) (stack : List Bytes) (segment : Bytes) : List Bytes :=
  if segment = [] ∨ segment = here then stack
  else if segment = above then
    match stack with
    | [] => if rooted then [] else [above]
    | top :: below => if top = above then above :: top :: below else below
  else segment :: stack

/-- The clean segments of a list of segments. -/
def resolve (rooted : Bool) (parts : List Bytes) : List Bytes :=
  (parts.foldl (push rooted) []).reverse

/-- The shortest path of the same lexical meaning. -/
def clean (p : Bytes) : Bytes :=
  let parts := resolve (isAbsolute p) (segments p)
  if isAbsolute p then slash :: Bytes.join [slash] parts
  else if parts = [] then here
  else Bytes.join [slash] parts

/-- Puts a path below a directory; an empty one of the two leaves the other. -/
def join (directory p : Bytes) : Bytes :=
  match directory, p with
  | [], [] => []
  | [], p => clean p
  | directory, p => clean (directory ++ [slash] ++ p)

/-- The clean absolute path, seen from an absolute working directory. -/
def absolute (workingDirectory p : Bytes) : Bytes :=
  if isAbsolute p then clean p else join workingDirectory p

def afterSlash (p : Bytes) : Bytes := (p.reverse.takeWhile (· != slash)).reverse

/-- What stands before the last slash, and the slash. -/
def upToSlash (p : Bytes) : Bytes := (p.reverse.dropWhile (· != slash)).reverse

def parent (p : Bytes) : Bytes := clean (upToSlash p)

/-- A clean absolute path and all directories above it, the root last. -/
def ancestors (p : Bytes) : List Bytes :=
  let parts := resolve true (segments p)
  (List.range (parts.length + 1)).map fun n =>
    slash :: Bytes.join [slash] (parts.take (parts.length - n))

/-- The last segment, whatever slashes follow it. -/
def fileName (p : Bytes) : Bytes :=
  if p = [] then here
  else
    match (p.reverse.dropWhile (· == slash)).reverse with
    | [] => [slash]
    | trimmed => afterSlash trimmed

/-- The last dot of the last segment and what follows it; nothing if there is no dot. -/
def extension (p : Bytes) : Bytes :=
  let name := (afterSlash p).reverse
  if name.contains dot then (name.takeWhile (· != dot) ++ [dot]).reverse else []

def withoutExtension (p : Bytes) : Bytes := p.take (p.length - (extension p).length)

end Abacus.Path
