import Abacus.Bytecode.Listing
import Abacus.LanguageServer.Server
import Abacus.Tool.Source
import Abacus.Yaml.TokenList

/-!
# The tool

An invocation is read, then the configuration, and only then does a command begin. A command
changes at most the output sink and one file. The language server is not run here: the tool hands
over a server that is ready to talk.
-/
namespace Abacus.Tool

def version : Bytes := text "dev"

structure LogSetup where
  verbosity : Int
  path : Option Bytes
  deriving DecidableEq, Repr

/-- The state after a command, or after it failed. -/
structure Outcome where
  files : FileSystem
  output : Sink
  error : Option Error
  log : List LogEntry
  /-- Nothing if the command never began. -/
  logging : Option LogSetup
  /-- The language server that is to be run, if one was asked for. -/
  server : Option LanguageServer

namespace Outcome

def start (files : FileSystem) (out : Sink) : Outcome := ⟨files, out, none, [], none, none⟩

def fail (o : Outcome) (e : Error) : Outcome := { o with error := some e }

/-- The sink after writing, and an error if it refused something. -/
def written (o : Outcome) (result : Sink × Bool) (e : Error) : Outcome :=
  { o with output := result.1, error := if result.2 then none else some e }

def logged (o : Outcome) (entries : List LogEntry) : Outcome := { o with log := o.log ++ entries }

def exit (o : Outcome) : Nat :=
  match o.error with
  | none => Exit.ok
  | some e => e.exit

end Outcome

/-- Prints the tokens of a source in one of two formats. A refused row is passed over. -/
def printTokens (d : Disk) (format : Bytes) (w : Surroundings) (p : Bytes) (o : Outcome) :
    Outcome :=
  match readSource d w p with
  | .error e => o.fail e
  | .ok source =>
    let tokens := tokenize source
    if format = text "text" then
      { o with output := tokens.foldl (fun out t => out.offer t.listingRow) o.output }
    else if format = text "yaml" then o.written (Yaml.writeTokens o.output tokens) .listRefused
    else o.fail (.unknownFormat format)

/-- Goes on with a chunk, if there is one. -/
def withChunk (d : Disk) (w : Surroundings) (p : Bytes) (o : Outcome)
    (next : Chunk → Outcome → Outcome) : Outcome :=
  match loadChunk d w p with
  | (.error e, log) => (o.logged log).fail e
  | (.ok chunk, log) => next chunk (o.logged log)

def disassemble (d : Disk) (w : Surroundings) (p : Bytes) (o : Outcome) : Outcome :=
  withChunk d w p o fun chunk o => o.written (chunk.disassembleTo (title p) o.output) .refused

/-- Writes the artifact of a chunk, but never over its source. If writing fails halfway, what is
written by then stays. -/
def buildArtifact (d : Disk) (output : Bytes) (w : Surroundings) (p : Bytes) (o : Outcome) :
    Outcome :=
  withChunk d w p o fun chunk o =>
    match Artifact.encode chunk with
    | .error e => o.fail (.unencodable e)
    | .ok content =>
      let output := if output = [] then artifactPath p else output
      if isSameFile o.files.workingDirectory p output then o.fail (.wouldOverwrite output)
      else
        let (files, failure) := d.write o.files output content
        let o := { o with files }
        match failure with
        | some e => o.fail (.unwritable e)
        | none =>
          o.logged
            [⟨.info, .tool, text "wrote " ++ output ++ text " (" ++ decimal content.length
              ++ text " bytes)"⟩]

/-- Goes on with a machine as the settings want it, if there is memory for one. -/
def withMachine (c : Config) (memory : Nat) (o : Outcome) (next : Machine → Outcome) : Outcome :=
  match c.machine? memory with
  | none => o.fail .exhausted
  | some m => next m

/-- Runs a chunk on a machine whose sink is the output. -/
def execute (r : Resources) (c : Config) (w : Surroundings) (p : Bytes) (o : Outcome) : Outcome :=
  withChunk r.disk w p o fun chunk o =>
    withMachine c r.memory o fun m =>
      let reply := { m with output := some o.output }.execute (some chunk)
      let o := { o with output := reply.machine.output.getD o.output }.logged reply.log
      match reply.result with
      | .ok _ => o
      | .error e => o.fail (.machine e)

def perform (r : Resources) (c : Config) (command : CommandLine.Command) (s : CommandLine.Settings)
    (arguments : List Bytes) (w : Surroundings) (o : Outcome) : Outcome :=
  let p := arguments.headD []
  match command with
  | .tokens => printTokens r.disk s.format w p o
  | .disasm => disassemble r.disk w p o
  | .build => buildArtifact r.disk s.output w p o
  | .exec => execute r c w p o
  | .lsp =>
    withMachine c r.memory o fun m =>
      { o with server := some (LanguageServer.start m c.hoverEvaluate version) }
  | .help | .completion => o

/-- The configuration that the settings ask for: a given file, or the nearest one above the working
directory, or the defaults. -/
def configuration (d : Disk) (fs : FileSystem) (s : CommandLine.Settings) :
    Except ConfigError Config :=
  if s.config ≠ [] then Config.loadFile fs s.config d
  else (Config.find fs Path.here d).map (·.getD .default)

def setUp (c : Config) (s : CommandLine.Settings) (o : Outcome) : Outcome :=
  { o with logging := some ⟨wrapSigned (c.verbosity + s.verbose), c.logPath?⟩ }.logged
    (if c.path = [] then []
      else [⟨.debug, .tool, text "using configuration " ++ c.path⟩])

/-- The version, in the three pieces that it is written in. -/
def versionPieces : List Bytes :=
  [CommandLine.programName ++ text " version ", version, [newline]]

def summary : CommandLine.Command → String
  | .tokens => "Print the token stream of a source file"
  | .disasm => "Disassemble a source file or a .dbc artifact"
  | .build => "Compile source into a .dbc bytecode artifact"
  | .exec => "Run a .dbc artifact (or source file) on the VM"
  | .lsp => "Start the language server on stdio"
  | .help => "Help about any command"
  | .completion => "Generate the autocompletion script for the specified shell"

/-- A short description of the tool, or of one command. -/
def description : Option CommandLine.Command → Bytes
  | some c => text (summary c) ++ [newline]
  | none =>
    text "Diablo developer tools\n\n" ++ CommandLine.Command.all.flatMap fun c =>
      text "  " ++ Bytes.padRight 12 (byte ' ') c.name ++ text (summary c) ++ [newline]

def run (arguments : List Bytes) (w : Surroundings) (out : Sink) (r : Resources := .ample) :
    Outcome :=
  let o := Outcome.start w.files out
  match CommandLine.request arguments with
  | .error e => o.fail (.usage e)
  | .ok (.help command) => { o with output := out.offer (description command) }
  | .ok .version => o.written (out.writeAll versionPieces) .refused
  | .ok (.run command s arguments) =>
    match configuration r.disk w.files s with
    | .error e => o.fail (.config e)
    | .ok c => perform r c command s arguments w (setUp c s o)

end Abacus.Tool
