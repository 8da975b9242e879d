import Abacus.Bytecode.Artifact
import Abacus.CommandLine.Invocation
import Abacus.Compiler.Compile
import Abacus.Config
import Abacus.Input
import Abacus.Tool.ArtifactPath

/-!
# Sources and chunks

The commands of the tool read a file or standard input. Where they need a chunk, an artifact is
decoded and anything else is compiled. Every error has the exit status that the tool ends with.
-/
namespace Abacus.Tool

inductive Error
  | usage (e : CommandLine.UsageError)
  | config (e : ConfigError)
  | unreadable (path reason : Bytes)
  | badArtifact (e : ChunkError)
  | rejected (e : SyntaxError)
  | unencodable (e : ChunkError)
  | wouldOverwrite (output : Bytes)
  | unwritable (e : FileError)
  /-- There is no memory for as many stack cells as the configuration asks for. This is the one error
  that the tool does not report itself: the system ends it. -/
  | exhausted
  | machine (e : MachineError)
  | unknownFormat (format : Bytes)
  | refused
  | listRefused

namespace Error

def message : Error → Bytes
  | usage e => e.message
  | config e => e.message
  | unreadable path reason => text "could not read " ++ Text.quote path ++ text ": " ++ reason
  | badArtifact e => e.message
  | rejected e => e.message
  | unencodable e => e.message
  | wouldOverwrite output =>
    text "build: output " ++ output ++ text " would overwrite the input; pass -o"
  | unwritable e => e.message
  | exhausted => text "out of memory"
  | machine e => e.message
  | unknownFormat format =>
    text "unknown format " ++ Text.quote format ++ text " (want text or yaml)"
  | refused => Sink.refusal
  | listRefused => text "yaml: write error: " ++ Sink.refusal

/-- The exit status. Errors that no step claims for itself are errors in usage. -/
def exit : Error → Nat
  | usage _ | config _ | wouldOverwrite _ | unknownFormat _ | refused | listRefused => Exit.usage
  | unreadable _ _ | unwritable _ => Exit.inputOutput
  | badArtifact _ | rejected _ => Exit.data
  | unencodable _ => Exit.software
  | exhausted => Exit.exhausted
  | machine e => Exit.ofError (some e)

end Error

structure Surroundings where
  files : FileSystem
  input : Input

/-- What the system that the tool runs on has to give. -/
structure Resources where
  disk : Disk
  /-- How many stack cells there is memory for, besides those that every machine starts with. -/
  memory : Nat

/-- As much as there can be: the addresses of bytes have 48 bits, and a stack cell takes 16 bytes. -/
def Resources.ample : Resources := ⟨.working, Nat.pow 2 44⟩

def readSource (d : Disk) (w : Surroundings) (p : Bytes) : Except Error Bytes :=
  if isStandardInput p then
    match w.input.readAll with
    | .ok content => .ok content
    | .error e => .error (.unreadable p e)
  else
    match d.read w.files p with
    | .ok content => .ok content
    | .error e => .error (.unreadable p e.message)

/-- The chunk in the bytes of a file, and what is logged about it. -/
def chunkOf (p content : Bytes) : Except Error Chunk × List LogEntry :=
  if isArtifact p then
    match Artifact.decode content with
    | .error e => (.error (.badArtifact e), [])
    | .ok chunk =>
      (.ok chunk,
        [⟨.debug, .tool, text "decoded " ++ p ++ text ": " ++ decimal chunk.code.size
          ++ text " instructions"⟩])
  else
    let compiled := compile content
    (match compiled with
      | .error e => .error (.rejected e)
      | .ok chunk => .ok chunk, [compilationEntry compiled])

/-- The chunk in a file, and what is logged about it. -/
def loadChunk (d : Disk) (w : Surroundings) (p : Bytes) : Except Error Chunk × List LogEntry :=
  match readSource d w p with
  | .error e => (.error e, [])
  | .ok content => chunkOf p content

end Abacus.Tool
