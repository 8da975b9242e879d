import Abacus.Interpreter.Session
import Abacus.Json.Reader
import Abacus.Json.Writer
import Abacus.LanguageServer.Frame
import Abacus.LanguageServer.Message
import Abacus.Tool.Consulted
import Abacus.Tool.Run

/-!
# The command line

One program with two faces, chosen by the first argument: `diablo` interprets a file or what is
typed, `diablotool` is the tool. This layer only moves bytes: it takes a picture of the part of the
file system that an invocation may look at, shows what the pure programs wrote, and writes back the
files that changed.
-/
namespace Abacus.Console

def toByteArray (s : Bytes) : ByteArray := ByteArray.mk s.toArray

def toPath (s : Bytes) : String := (String.fromUTF8? (toByteArray s)).getD ""

def emit (stream : IO.FS.Stream) (s : Bytes) : IO Unit := do
  unless s.isEmpty do
    stream.write (toByteArray s)
    stream.flush

/-! ## Files -/

/-- The error number of reading a directory as a file. -/
def directoryError : UInt32 := 21

def pathOf (place : FileSystem.Place) : Bytes := Path.slash :: Bytes.join [Path.slash] place

def entryAt (place : FileSystem.Place) : IO (Option Entry) := do
  try
    let content ← IO.FS.readBinFile (toPath (pathOf place))
    return some (.file content.data.toList)
  catch
    | .inappropriateType _ code _ => return if code == directoryError then some .directory else none
    | .unsupportedOperation code _ => return if code == directoryError then some .directory else none
    | _ => return none

/-- A picture of the places that paths pass. -/
def picture (paths : List Bytes) : IO FileSystem := do
  let empty : FileSystem := ⟨[], text (← IO.currentDir).toString⟩
  let places := (paths.flatMap empty.placesOn).eraseDups
  places.foldlM (fun fs place => do
    match ← entryAt place with
    | some e => return fs.put place e
    | none => return fs) empty

/-- Writes back what changed; the first failure is reported. -/
def writeBack (earlier later : FileSystem) : IO (Option Bytes) := do
  try
    for (place, content) in earlier.changes later do
      IO.FS.writeBinFile (toPath (pathOf place)) (toByteArray content)
    return none
  catch e => return some (text (toString e))

/-! ## Input -/

/-- Reads up to and including a given byte, or to the end. The flag says whether it came. -/
partial def readUntil (stop : UInt8) (stream : IO.FS.Stream) (read : ByteArray) :
    IO (Bytes × Bool) := do
  let next ← stream.read 1
  match next.data.toList with
  | [] => return (read.data.toList, false)
  | b :: _ => if b == stop then return (read.data.toList, true) else readUntil stop stream (read.push b)

/-- Reads a number of bytes, fewer only at the end. -/
partial def readExactly (count : Nat) (stream : IO.FS.Stream) (read : ByteArray) : IO Bytes := do
  if count ≤ read.size then return read.data.toList
  else
    let next ← stream.read (USize.ofNat (count - read.size))
    if next.isEmpty then return read.data.toList else readExactly count stream (read ++ next)

partial def readToEnd (stream : IO.FS.Stream) (read : ByteArray) : IO Bytes := do
  let next ← stream.read 65536
  if next.isEmpty then return read.data.toList else readToEnd stream (read ++ next)

/-! ## Interpreter -/

/-- Shows what a session wrote since the last time. -/
def flush (out err : IO.FS.Stream) (s : Interpreter.Session) : IO Interpreter.Session := do
  emit out s.output.content
  emit err s.errors
  return { s.withOutput .working with errors := [] }

partial def converse (inp out err : IO.FS.Stream) (s : Interpreter.Session) : IO Unit := do
  let s ← flush out err (s.say Interpreter.Session.prompt)
  let (content, complete) ← readUntil newline inp .empty
  let fragment : Fragment :=
    if complete then ⟨content ++ [newline], .lineBreak⟩ else ⟨content, .inputEnd⟩
  match (Input.readLine [fragment]).1 with
  | .line line => converse inp out err (← flush out err (s.serve line))
  | _ => emit out [newline]

def interpreter (arguments : List Bytes) (inp out err : IO.FS.Stream) : IO UInt32 := do
  if arguments.isEmpty then
    converse inp out err (.start .working)
    return 0
  else
    let fs ← picture arguments
    let outcome := Interpreter.run arguments fs ⟨[], none⟩ .working
    emit out outcome.output.content
    emit err outcome.errors
    return outcome.exit.toUInt32

/-! ## Tool -/

/-- Reads the lines of a header, up to the empty one. Nothing if the input ends before. -/
partial def readHeader (inp : IO.FS.Stream) (lines : List Bytes) : IO (Option (List Bytes)) := do
  let (line, complete) ← readUntil newline inp .empty
  if !complete then return none
  else
    match Bytes.dropCarriageReturn line with
    | [] => return some lines
    | line => readHeader inp (lines ++ [line])

/-- Answers messages until the editor leaves or something is not a message. -/
partial def serve (inp out : IO.FS.Stream) (s : LanguageServer) : IO Unit := do
  match (← readHeader inp []).bind LanguageServer.bodyLength? with
  | none => return ()
  | some length =>
    match Json.read? (← readExactly length inp .empty) with
    | none => return ()
    | some message =>
      let (next, sent, _) := s.exchange message
      sent.forM fun m => emit out (LanguageServer.frame (Json.write m))
      match next with
      | none => return ()
      | some s => serve inp out s

def surroundings (arguments : List Bytes) (inp : IO.FS.Stream) : IO Tool.Surroundings := do
  match CommandLine.request arguments with
  | .error _ => return ⟨← picture [], ⟨[], none⟩⟩
  | .ok request =>
    let files ← picture (Tool.consulted (text (← IO.currentDir).toString) request)
    let content ← if Tool.readsInput request then readToEnd inp .empty else pure []
    return ⟨files, ⟨content, none⟩⟩

def tool (arguments : List Bytes) (inp out err : IO.FS.Stream) : IO UInt32 := do
  let w ← surroundings arguments inp
  let outcome := Tool.run arguments w .working
  emit out outcome.output.content
  match outcome.error with
  | some e =>
    emit err (e.message ++ [newline])
    return outcome.exit.toUInt32
  | none =>
    match ← writeBack w.files outcome.files with
    | some message =>
      emit err (message ++ [newline])
      return Exit.inputOutput.toUInt32
    | none =>
      match outcome.server with
      | some s => serve inp out s
      | none => pure ()
      return 0

end Abacus.Console

open Abacus in
def main (arguments : List String) : IO UInt32 := do
  let inp ← IO.getStdin
  let out ← IO.getStdout
  let err ← IO.getStderr
  match arguments.map text with
  | program :: rest =>
    if program = text "diablo" then Console.interpreter rest inp out err
    else if program = CommandLine.programName then Console.tool rest inp out err
    else do
      Console.emit err (text "Usage: diablo [path] or diablotool [command]\n")
      return Exit.usage.toUInt32
  | [] => Console.interpreter [] inp out err
