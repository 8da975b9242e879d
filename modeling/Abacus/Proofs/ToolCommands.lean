import Abacus.Proofs.History
import Abacus.Proofs.SinkWrites
import Abacus.Proofs.WrittenFiles
import Abacus.Tool.Run

/-!
# What the commands of the tool do

Each command that works on a chunk loads it first, and what it does then is determined by the
result: a chunk is run, listed or written, and an error is the error of the command. Before a chunk
is run a machine is made for it, if there is memory for its stack. The configuration comes first, and
a file that is written afterwards does not change it unless it is the configuration file.
-/
namespace Abacus

open Abacus.Path (IsName afterSlash)

theorem Config.machine?_eq (c : Config) (memory : Nat) :
    c.machine? memory = if c.stackCapacity ≤ memory then some c.machine else none := by
  unfold Config.machine? Machine.reserve?
  split <;> rfl

namespace Tool

/-! ## Invocations -/

/-- Arguments that run a command on a file, with a configuration that loads. -/
structure Invocation (d : Disk) (files : FileSystem) (command : CommandLine.Command) (p : Bytes)
    where
  arguments : List Bytes
  settings : CommandLine.Settings
  config : Config
  asked : CommandLine.request arguments = .ok (.run command settings [p])
  loads : configuration d files settings = .ok config

def Invocation.begun {d : Disk} {files : FileSystem} {command : CommandLine.Command} {p : Bytes}
    (i : Invocation d files command p) (out : Sink) : Outcome :=
  setUp i.config i.settings (.start files out)

theorem Invocation.run_eq {d : Disk} {files : FileSystem} {command : CommandLine.Command}
    {p : Bytes} (i : Invocation d files command p) (input : Input) (out : Sink) (memory : Nat) :
    run i.arguments ⟨files, input⟩ out ⟨d, memory⟩ =
      perform ⟨d, memory⟩ i.config command i.settings [p] ⟨files, input⟩ (i.begun out) := by
  simp only [run, i.asked, i.loads, begun]

theorem Outcome.exit_ok {o : Outcome} (fine : o.error = none) : o.exit = Exit.ok := by
  simp [Outcome.exit, fine]

theorem Outcome.exit_failed {o : Outcome} {e : Error} (failed : o.error = some e) :
    o.exit = e.exit := by
  simp [Outcome.exit, failed]

theorem Error.exit_ne_zero (e : Error) : e.exit ≠ 0 := by
  cases e with
  | machine e => cases e <;> simp [exit, Exit.ofError, Exit.data, Exit.software]
  | _ => simp [exit, Exit.usage, Exit.inputOutput, Exit.data, Exit.software, Exit.exhausted]

theorem Outcome.exit_ne_zero {o : Outcome} {e : Error} (failed : o.error = some e) :
    o.exit ≠ 0 := by
  rw [Outcome.exit_failed failed]
  exact e.exit_ne_zero

/-! ## Loading -/

variable {d : Disk} {w : Surroundings} {p content : Bytes}

/-- What a file is loaded as depends on its extension. -/
theorem loadChunk_eq (named : isStandardInput p = false)
    (readable : d.read w.files p = .ok content) :
    (loadChunk d w p).1 =
      if isArtifact p then (Artifact.decode content).mapError .badArtifact
      else (compile content).mapError .rejected := by
  simp only [loadChunk, readSource, named, Bool.false_eq_true, if_false, readable, chunkOf]
  split
  · cases Artifact.decode content <;> rfl
  · cases compile content <;> rfl

theorem withChunk_loaded {chunk : Chunk} (loaded : (loadChunk d w p).1 = .ok chunk) (o : Outcome)
    (next : Chunk → Outcome → Outcome) :
    withChunk d w p o next = next chunk (o.logged (loadChunk d w p).2) := by
  unfold withChunk
  split
  next failed =>
    rw [failed] at loaded
    cases loaded
  next found =>
    rw [found] at loaded
    cases loaded
    rw [found]

theorem withChunk_failed {e : Error} (failed : (loadChunk d w p).1 = .error e) (o : Outcome)
    (next : Chunk → Outcome → Outcome) :
    withChunk d w p o next = (o.logged (loadChunk d w p).2).fail e := by
  unfold withChunk
  split
  next found =>
    rw [found] at failed
    cases failed
    rw [found]
  next found =>
    rw [found] at failed
    cases failed

/-! ## Commands -/

/-- The machine of the tool is one like any other: what it shows depends on the chunk alone. -/
theorem resting_machine (c : Config) (out : Sink) :
    Machine.Resting .floatingPoint { c.machine with output := some out } :=
  Machine.resting_new .floatingPoint
    [.reservation c.stackCapacity, .traced c.trace, .output out]

theorem withMachine_roomy {c : Config} {memory : Nat} (fits : c.stackCapacity ≤ memory)
    (o : Outcome) (next : Machine → Outcome) : withMachine c memory o next = next c.machine := by
  simp only [withMachine, Config.machine?_eq, if_pos fits]

theorem withMachine_starved {c : Config} {memory : Nat} (large : memory < c.stackCapacity)
    (o : Outcome) (next : Machine → Outcome) : withMachine c memory o next = o.fail .exhausted := by
  simp only [withMachine, Config.machine?_eq, if_neg (Int.not_le.mpr large)]

theorem execute_returned {chunk : Chunk} {v : Value} {memory : Nat} {c : Config}
    (loaded : (loadChunk d w p).1 = .ok chunk) (fits : c.stackCapacity ≤ memory)
    (returned : Run.run .floatingPoint chunk = .ok v) (o : Outcome) :
    (execute ⟨d, memory⟩ c w p o).output = o.output.offer (v.print ++ [newline]) ∧
      (execute ⟨d, memory⟩ c w p o).error = o.error := by
  have seen := (resting_machine c o.output).seen_execute (some chunk)
  simp only [Observation.ofChunk, returned] at seen
  obtain ⟨result, -, output⟩ := seen
  unfold execute
  rw [withChunk_loaded loaded, withMachine_roomy fits]
  dsimp only [Outcome.logged] at result output ⊢
  rw [result, output]
  exact ⟨rfl, rfl⟩

/-- Without memory for a machine nothing is run. -/
theorem execute_starved {chunk : Chunk} {memory : Nat} {c : Config}
    (loaded : (loadChunk d w p).1 = .ok chunk) (large : memory < c.stackCapacity) (o : Outcome) :
    (execute ⟨d, memory⟩ c w p o).output = o.output ∧
      (execute ⟨d, memory⟩ c w p o).error = some .exhausted := by
  unfold execute
  rw [withChunk_loaded loaded, withMachine_starved large]
  exact ⟨rfl, rfl⟩

/-- How building ends, once there are bytes to write. -/
inductive Building (d : Disk) (o : Outcome) (p artifact data : Bytes) (after : Outcome) : Prop
  | overwriting : isSameFile o.files.workingDirectory p artifact = true →
      after.error = some (.wouldOverwrite artifact) → after.files = o.files →
      Building d o p artifact data after
  | unwritable (e : FileError) : isSameFile o.files.workingDirectory p artifact = false →
      d.write o.files artifact data = (after.files, some e) →
      after.error = some (.unwritable e) → Building d o p artifact data after
  | written : isSameFile o.files.workingDirectory p artifact = false →
      d.write o.files artifact data = (after.files, none) →
      after.output = o.output → after.error = o.error → Building d o p artifact data after

theorem buildArtifact_ends {chunk : Chunk} {data : Bytes} (loaded : (loadChunk d w p).1 = .ok chunk)
    (encoded : Artifact.encode chunk = .ok data) (o : Outcome) (output : Bytes) :
    Building d o p (if output = [] then artifactPath p else output) data
      (buildArtifact d output w p o) := by
  have unmoved : (o.logged (loadChunk d w p).2).files = o.files := rfl
  unfold buildArtifact
  rw [withChunk_loaded loaded]
  simp only [encoded, unmoved]
  generalize (if output = [] then artifactPath p else output) = artifact
  by_cases same : isSameFile o.files.workingDirectory p artifact = true
  · rw [if_pos same]
    exact .overwriting same rfl rfl
  · have apart : isSameFile o.files.workingDirectory p artifact = false := by simpa using same
    rw [if_neg same]
    cases attempt : d.write o.files artifact data with
    | mk files failure =>
      cases failure with
      | some e => exact .unwritable e apart attempt rfl
      | none => exact .written apart attempt rfl rfl

theorem buildArtifact_written {chunk : Chunk} {data output : Bytes} {place : FileSystem.Place}
    {o : Outcome} (loaded : (loadChunk d w p).1 = .ok chunk)
    (encoded : Artifact.encode chunk = .ok data) (given : output ≠ [])
    (apart : isSameFile o.files.workingDirectory p output = false)
    (target : o.files.target output = .ok place) (admits : d.Admits o.files output data) :
    (buildArtifact d output w p o).files = o.files.put place (.file data) ∧
      (buildArtifact d output w p o).output = o.output ∧
      (buildArtifact d output w p o).error = o.error := by
  have ends := buildArtifact_ends loaded encoded o output
  have whole := admits.write_eq target
  rw [if_neg given] at ends
  cases ends with
  | overwriting same =>
    rw [apart] at same
    cases same
  | unwritable e _ attempt =>
    rw [whole, Prod.mk.injEq] at attempt
    cases attempt.2
  | written _ attempt out error =>
    rw [whole, Prod.mk.injEq] at attempt
    exact ⟨attempt.1.symm, out, error⟩

theorem disassemble_listed {chunk : Chunk} {o : Outcome} (loaded : (loadChunk d w p).1 = .ok chunk)
    (unlimited : o.output.left = none) :
    (disassemble d w p o).output.content = o.output.content ++ chunk.disassemble (title p) ∧
      (disassemble d w p o).error = none := by
  unfold disassemble
  rw [withChunk_loaded loaded]
  obtain ⟨accepted, content⟩ :=
    Sink.writeAll_unlimited o.output unlimited (chunk.titledListing (title p))
  simp only [Outcome.logged, Outcome.written, Chunk.disassembleTo, accepted, if_true, and_true]
  exact content

namespace Invocation

variable {files : FileSystem} {command : CommandLine.Command} {input : Input}

def loadsChunk (command : CommandLine.Command) : Prop :=
  command = .disasm ∨ command = .build ∨ command = .exec

/-- A command that has no chunk to work on does nothing but fail. -/
theorem run_failed (i : Invocation d files command p) (loads : loadsChunk command) {e : Error}
    (failed : (loadChunk d ⟨files, input⟩ p).1 = .error e) (out : Sink)
    (memory : Nat) :
    (run i.arguments ⟨files, input⟩ out ⟨d, memory⟩).output = out ∧
      (run i.arguments ⟨files, input⟩ out ⟨d, memory⟩).files = files ∧
      (run i.arguments ⟨files, input⟩ out ⟨d, memory⟩).exit = e.exit := by
  have ended : run i.arguments ⟨files, input⟩ out ⟨d, memory⟩ =
      ((i.begun out).logged (loadChunk d ⟨files, input⟩ p).2).fail e := by
    rw [i.run_eq]
    -- The three commands begin by loading and give up there.
    rcases loads with rfl | rfl | rfl
    · simp only [perform, List.headD_cons, disassemble, withChunk_failed failed]
    · simp only [perform, List.headD_cons, buildArtifact, withChunk_failed failed]
    · simp only [perform, List.headD_cons, execute, withChunk_failed failed]
  rw [ended]
  exact ⟨rfl, rfl, rfl⟩

/-- Running a chunk that returns a value shows the value, or nothing if there is no memory for a
machine. -/
theorem exec_returned (i : Invocation d files .exec p) {chunk : Chunk} {v : Value}
    (loaded : (loadChunk d ⟨files, input⟩ p).1 = .ok chunk)
    (returned : Run.run .floatingPoint chunk = .ok v) (out : Sink) (memory : Nat) :
    let after := run i.arguments ⟨files, input⟩ out ⟨d, memory⟩
    (i.config.stackCapacity ≤ memory →
      after.output = out.offer (v.print ++ [newline]) ∧ after.exit = Exit.ok) ∧
    (memory < i.config.stackCapacity → after.output = out ∧ after.exit = Exit.exhausted) := by
  rw [i.run_eq]
  constructor
  · intro fits
    obtain ⟨output, error⟩ := execute_returned loaded fits returned (i.begun out)
    exact ⟨output, Outcome.exit_ok error⟩
  · intro large
    obtain ⟨output, error⟩ := execute_starved loaded large (i.begun out)
    exact ⟨output, Outcome.exit_failed error⟩

theorem build_written (i : Invocation d files .build p) {chunk : Chunk} {data : Bytes}
    {place : FileSystem.Place} (loaded : (loadChunk d ⟨files, input⟩ p).1 = .ok chunk)
    (encoded : Artifact.encode chunk = .ok data) (given : i.settings.output ≠ [])
    (apart : isSameFile files.workingDirectory p i.settings.output = false)
    (target : files.target i.settings.output = .ok place)
    (admits : d.Admits files i.settings.output data) (out : Sink) (memory : Nat) :
    (run i.arguments ⟨files, input⟩ out ⟨d, memory⟩).files = files.put place (.file data) ∧
      (run i.arguments ⟨files, input⟩ out ⟨d, memory⟩).output = out ∧
      (run i.arguments ⟨files, input⟩ out ⟨d, memory⟩).exit = Exit.ok := by
  rw [i.run_eq]
  obtain ⟨written, output, error⟩ :=
    buildArtifact_written (o := i.begun out) loaded encoded given apart target admits
  exact ⟨written, output, Outcome.exit_ok error⟩

theorem disasm_listed (i : Invocation d files .disasm p) {chunk : Chunk}
    (loaded : (loadChunk d ⟨files, input⟩ p).1 = .ok chunk) (out : Sink)
    (unlimited : out.left = none) (memory : Nat) :
    (run i.arguments ⟨files, input⟩ out ⟨d, memory⟩).output.content =
        out.content ++ chunk.disassemble (title p) ∧
      (run i.arguments ⟨files, input⟩ out ⟨d, memory⟩).exit = Exit.ok := by
  rw [i.run_eq]
  obtain ⟨content, error⟩ := @disassemble_listed _ _ _ _ (i.begun out) loaded unlimited
  exact ⟨content, Outcome.exit_ok error⟩

end Invocation

/-! ## The configuration after a file is written -/

section Put

variable {fs : FileSystem} {place : FileSystem.Place} (below : place ≠ [])
  (vacant : fs.lookup? place ≠ some .directory) (content : Bytes)

include below vacant

theorem loadFile_put {p : Bytes} {c : Config} (elsewhere : fs.locate p ≠ .ok place)
    (loads : Config.loadFile fs p d = .ok c) :
    Config.loadFile (fs.put place (.file content)) p d = .ok c := by
  unfold Config.loadFile at loads ⊢
  cases readable : d.read fs p with
  | error e =>
    rw [readable] at loads
    cases loads
  | ok old =>
    rw [readable] at loads
    rw [Disk.read_put_of_ne below vacant content elsewhere readable]
    exact loads

/-- The search for a configuration is not misled by a file of another name. -/
theorem find_put {start : Bytes} {found : Option Config}
    (other : ∀ directory, place ≠ directory ++ [Config.fileName])
    (finds : Config.find fs start d = .ok found) :
    Config.find (fs.put place (.file content)) start d = .ok found := by
  have plain : IsName (afterSlash Config.fileName) := ⟨by decide, by decide, by decide⟩
  -- Whatever the directory, a path with that name leads to a place with that name.
  have elsewhere (q : Bytes) : fs.locate (Path.join q Config.fileName) ≠ .ok place := by
    intro located
    have same := Path.afterSlash_join q plain
    obtain ⟨directory, rfl⟩ := FileSystem.locate_name located (same ▸ plain)
    rw [same] at other
    exact other directory rfl
  unfold Config.find at finds ⊢
  have holds (q : Bytes) := Disk.holds_put_of_ne (d := d) below vacant content (elsewhere q)
  have unmoved : (fs.put place (.file content)).workingDirectory = fs.workingDirectory := rfl
  simp only [holds, unmoved] at finds ⊢
  split at finds
  · exact finds
  next q nearest =>
    cases loaded : Config.load fs q d with
    | error e =>
      rw [loaded] at finds
      cases finds
    | ok c =>
      rw [loaded] at finds
      have kept := loadFile_put below vacant content (elsewhere q) loaded
      rw [Config.load, kept]
      exact finds

theorem configuration_put {s : CommandLine.Settings} {c : Config}
    (other : ∀ directory, place ≠ directory ++ [Config.fileName])
    (elsewhere : fs.locate s.config ≠ .ok place) (loads : configuration d fs s = .ok c) :
    configuration d (fs.put place (.file content)) s = .ok c := by
  unfold configuration at loads ⊢
  split
  next given =>
    rw [if_pos given] at loads
    exact loadFile_put below vacant content elsewhere loads
  next absent =>
    rw [if_neg absent] at loads
    cases found : Config.find fs Path.here d with
    | error e =>
      rw [found] at loads
      cases loads
    | ok nearest =>
      rw [find_put below vacant content other found, ← found]
      exact loads

end Put

end Tool

end Abacus
