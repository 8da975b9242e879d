import Abacus.Disk
import Abacus.Machine.Basic
import Abacus.Text.Caseless
import Abacus.Toml.Table

/-!
# Configuration

Settings of the tools. They come from a file with three tables; what the file leaves out keeps its
default, and what it says beyond them is ignored. Names of tables and settings are recognised in
any case, and a setting must have exactly its type.

The file is looked for in a directory and then in each one above it, and the first one found is
the one that counts, even if it cannot be used.
-/
namespace Abacus

structure Config where
  /-- Stack cells that a machine sets aside. -/
  stackCapacity : Int
  /-- Whether machines log every instruction. -/
  trace : Bool
  /-- How much is logged, before the command line adds to it. -/
  verbosity : Int
  /-- Where the log goes; nothing for standard error. -/
  logFile : Bytes
  /-- Whether hovering shows the value of a line. -/
  hoverEvaluate : Bool
  /-- The file that the settings come from; nothing for the defaults. -/
  path : Bytes
  deriving DecidableEq, Repr

inductive SettingError
  | negativeCapacity (n : Int)
  | verbosityOutOfRange (n : Int)
  deriving DecidableEq, Repr

def SettingError.message : SettingError → Bytes
  | negativeCapacity n => text "vm.stack-capacity must not be negative, got " ++ signedDecimal n
  | verbosityOutOfRange n => text "log.verbosity must be between -4 and 2, got " ++ signedDecimal n

inductive ConfigProblem
  | unreadable (e : FileError)
  | malformed (e : Toml.Error)
  | wrongType (name : String)
  | outOfRange (e : SettingError)
  deriving DecidableEq, Repr

structure ConfigError where
  path : Bytes
  problem : ConfigProblem
  deriving DecidableEq, Repr

def ConfigError.message (e : ConfigError) : Bytes :=
  match e.problem with
  | .unreadable f => text "cannot read " ++ e.path ++ text ": " ++ f.message
  | .malformed m => text "parse error in " ++ e.path ++ text ": " ++ m.message
  | .wrongType name => text "parse error in " ++ e.path ++ text ": wrong type of " ++ text name
  | .outOfRange s => e.path ++ text ": " ++ s.message

namespace Config

def fileName : Bytes := text "diablo.toml"

/-- The settings when there is no file. -/
def default : Config where
  stackCapacity := Machine.defaultReservation
  trace := false
  verbosity := 0
  logFile := []
  hoverEvaluate := true
  path := []

def invalid? (c : Config) : Option SettingError :=
  if c.stackCapacity < 0 then some (.negativeCapacity c.stackCapacity)
  else if c.verbosity < -4 ∨ 2 < c.verbosity then some (.verbosityOutOfRange c.verbosity)
  else none

/-- Where the log goes; a relative path starts from the directory of the configuration file. -/
def logPath? (c : Config) : Option Bytes :=
  if c.logFile = [] then none
  else if ¬ Path.isAbsolute c.logFile ∧ c.path ≠ [] then
    some (Path.join (Path.parent c.path) c.logFile)
  else some c.logFile

/-- A machine as the settings want it, without front end or sink, where there is memory for its
stack. -/
def machine (c : Config) : Machine :=
  { Machine.fresh.reserve c.stackCapacity with traced := c.trace }

/-- A machine as the settings want it, if there is memory for its stack. -/
def machine? (c : Config) (memory : Nat) : Option Machine :=
  (Machine.fresh.reserve? memory c.stackCapacity).map fun m => { m with traced := c.trace }

/-! ## Reading -/

inductive Setting
  | stackCapacity | trace | verbosity | logFile | hoverEvaluate
  deriving DecidableEq, Repr

inductive Group
  | machine | log | languageServer
  deriving DecidableEq, Repr

def Group.all : List Group := [.machine, .log, .languageServer]

def Group.name : Group → String
  | machine => "vm"
  | log => "log"
  | languageServer => "lsp"

def Group.settings : Group → List Setting
  | machine => [.stackCapacity, .trace]
  | log => [.verbosity, .logFile]
  | languageServer => [.hoverEvaluate]

def Setting.name : Setting → String
  | stackCapacity => "stack-capacity"
  | trace => "trace"
  | verbosity => "verbosity"
  | logFile => "file"
  | hoverEvaluate => "hover-evaluate"

/-- Gives a setting a value, if it has the right type. -/
def set? (c : Config) : Setting → Toml.Value → Option Config
  | .stackCapacity, .scalar (.integer n) => some { c with stackCapacity := n }
  | .trace, .scalar (.boolean b) => some { c with trace := b }
  | .verbosity, .scalar (.integer n) => some { c with verbosity := n }
  | .logFile, .scalar (.text s) => some { c with logFile := s }
  | .hoverEvaluate, .scalar (.boolean b) => some { c with hoverEvaluate := b }
  | _, _ => none

def takeSetting (g : Group) (c : Config) (entry : Bytes × Toml.Value) :
    Except ConfigProblem Config :=
  match g.settings.find? fun s => Text.sameCaseless (text s.name) entry.1 with
  | none => .ok c
  | some s =>
    match c.set? s entry.2 with
    | some c => .ok c
    | none => .error (.wrongType (g.name ++ "." ++ s.name))

def takeGroup (c : Config) (entry : Bytes × Toml.Value) : Except ConfigProblem Config :=
  match Group.all.find? fun g => Text.sameCaseless (text g.name) entry.1 with
  | none => .ok c
  | some g =>
    match entry.2 with
    | .table entries => entries.foldlM (takeSetting g) c
    | _ => .error (.wrongType g.name)

/-- The settings that a document gives, on top of the defaults. -/
def ofDocument (entries : Toml.Entries) : Except ConfigProblem Config :=
  entries.foldlM takeGroup default

def parse (content : Bytes) : Except ConfigProblem Config :=
  match Toml.read content with
  | .error e => .error (.malformed e)
  | .ok entries => ofDocument entries

def loadFile (fs : FileSystem) (p : Bytes) (d : Disk := .working) : Except ConfigError Config :=
  match d.read fs p with
  | .error e => .error ⟨p, .unreadable e⟩
  | .ok content =>
    match parse content with
    | .error problem => .error ⟨p, problem⟩
    | .ok c =>
      match c.invalid? with
      | some e => .error ⟨p, .outOfRange e⟩
      | none => .ok { c with path := Path.absolute fs.workingDirectory p }

def load (fs : FileSystem) (directory : Bytes) (d : Disk := .working) :
    Except ConfigError Config :=
  loadFile fs (Path.join directory fileName) d

/-- The nearest configuration at or above a directory, if there is any. -/
def find (fs : FileSystem) (start : Bytes) (d : Disk := .working) :
    Except ConfigError (Option Config) :=
  let directories := Path.ancestors (Path.absolute fs.workingDirectory start)
  match directories.find? fun directory => d.holds fs (Path.join directory fileName) with
  | none => .ok none
  | some directory => (load fs directory d).map some

end Config

end Abacus
