import Abacus.Proofs.CompiledArtifacts
import Abacus.Proofs.DecodedArtifacts
import Abacus.Proofs.ToolCommands

/-!
# The exit statuses of the tool

A command that works on a chunk goes through steps, each of which may fail: reading the input,
making a chunk of it, and then what the command is for. The exit status is that of the first step
that fails (`Reports`), whatever the files, the disk, the memory, the input and the sink are. Two
steps end with the status of wrong usage: building over the input, and a listing that the sink
refuses, which unlike an artifact that cannot be written has no status of its own. Running has one
step more, before the chunk is run: the stack that the configuration asks for may not fit into
memory (`exit_reports_first_mishap`).

One failure has a status but never arises. A chunk that was compiled or decoded can always be
encoded.
-/
namespace Abacus

namespace Tool

/-! ## What a command is given -/

/-- The bytes at a path, or those of standard input. -/
def Supplies (d : Disk) (w : Surroundings) (p content : Bytes) : Prop :=
  if isStandardInput p then w.input.failure = none ∧ w.input.content = content
  else d.read w.files p = .ok content

/-- The chunk in the bytes of a path: an encoded one in an artifact, else the compiled source. -/
def Holds (p content : Bytes) (chunk : Chunk) : Prop :=
  if isArtifact p then Artifact.decode content = .ok chunk else compile content = .ok chunk

def Loads (d : Disk) (w : Surroundings) (p : Bytes) (chunk : Chunk) : Prop :=
  ∃ content, Supplies d w p content ∧ Holds p content chunk

variable {d : Disk} {w : Surroundings} {p content : Bytes} {chunk : Chunk}

theorem readSource_of_supplies (supplied : Supplies d w p content) :
    readSource d w p = .ok content := by
  unfold Supplies at supplied
  unfold readSource
  split
  next standard =>
    rw [if_pos standard] at supplied
    obtain ⟨fine, rfl⟩ := supplied
    simp [Input.readAll, fine]
  next named =>
    rw [if_neg named] at supplied
    rw [supplied]

theorem supplies_of_readSource (read : readSource d w p = .ok content) :
    Supplies d w p content := by
  unfold readSource at read
  unfold Supplies
  split
  next standard =>
    rw [if_pos standard] at read
    unfold Input.readAll at read
    cases ended : w.input.failure with
    | some e =>
      rw [ended] at read
      cases read
    | none =>
      rw [ended] at read
      cases read
      exact ⟨rfl, rfl⟩
  next named =>
    rw [if_neg named] at read
    cases found : d.read w.files p with
    | error e =>
      rw [found] at read
      cases read
    | ok bytes =>
      rw [found] at read
      cases read
      rfl

theorem exit_of_readSource {e : Error} (failed : readSource d w p = .error e) :
    e.exit = Exit.inputOutput := by
  unfold readSource at failed
  split at failed
  · split at failed <;> cases failed
    rfl
  · split at failed <;> cases failed
    rfl

theorem chunkOf_ok_iff : (chunkOf p content).1 = .ok chunk ↔ Holds p content chunk := by
  unfold chunkOf Holds
  split
  · cases Artifact.decode content <;> simp
  · cases compile content <;> simp

theorem exit_of_chunkOf {e : Error} (failed : (chunkOf p content).1 = .error e) :
    e.exit = Exit.data := by
  unfold chunkOf at failed
  split at failed
  · cases decoded : Artifact.decode content with
    | error cause =>
      rw [decoded] at failed
      cases failed
      rfl
    | ok found =>
      rw [decoded] at failed
      cases failed
  · cases compiled : compile content with
    | error cause =>
      rw [compiled] at failed
      cases failed
      rfl
    | ok found =>
      rw [compiled] at failed
      cases failed

theorem loadChunk_of_supplies (supplied : Supplies d w p content) :
    loadChunk d w p = chunkOf p content := by
  unfold loadChunk
  rw [readSource_of_supplies supplied]

theorem loadChunk_of_loads (loads : Loads d w p chunk) : (loadChunk d w p).1 = .ok chunk := by
  obtain ⟨content, supplied, holds⟩ := loads
  rw [loadChunk_of_supplies supplied]
  exact chunkOf_ok_iff.mpr holds

theorem loads_of_loadChunk (loaded : (loadChunk d w p).1 = .ok chunk) : Loads d w p chunk := by
  unfold loadChunk at loaded
  split at loaded
  · cases loaded
  next content read => exact ⟨content, supplies_of_readSource read, chunkOf_ok_iff.mp loaded⟩

theorem Loads.unique {other : Chunk} (loads : Loads d w p chunk) (again : Loads d w p other) :
    chunk = other := by
  have first := loadChunk_of_loads loads
  rw [loadChunk_of_loads again] at first
  cases first
  rfl

theorem Loads.encodes (loads : Loads d w p chunk) : ∃ data, Artifact.encode chunk = .ok data := by
  obtain ⟨content, -, holds⟩ := loads
  unfold Holds at holds
  split at holds
  · obtain ⟨data, encoded, -⟩ := Artifact.encode_of_decode holds
    exact ⟨data, encoded⟩
  · exact ⟨_, Artifact.encode_compiled holds⟩

/-! ## Mishaps -/

inductive Mishap
  | unreadable
  | meaningless
  | overwriting
  | unwritable
  | unlisted
  | starved
  | faulting
  deriving DecidableEq, Repr

namespace Mishap

def status : Mishap → Nat
  | unreadable | unwritable => Exit.inputOutput
  | meaningless => Exit.data
  | overwriting | unlisted => Exit.usage
  | starved => Exit.exhausted
  | faulting => Exit.software

theorem status_eq_usage_iff (m : Mishap) : m.status = 64 ↔ m = .overwriting ∨ m = .unlisted := by
  cases m <;> decide

theorem status_eq_software_iff (m : Mishap) : m.status = 70 ↔ m = .faulting := by
  cases m <;> decide

theorem status_eq_exhausted_iff (m : Mishap) : m.status = 2 ↔ m = .starved := by
  cases m <;> decide

/-- What can go wrong in a command, in the order of its steps. -/
def steps : CommandLine.Command → List Mishap
  | .disasm => [unreadable, meaningless, unlisted]
  | .build => [unreadable, meaningless, overwriting, unwritable]
  | .exec => [unreadable, meaningless, starved, faulting]
  | _ => []

theorem overwriting_mem_steps {command : CommandLine.Command} :
    overwriting ∈ steps command ↔ command = .build := by
  cases command <;> simp [steps]

theorem unlisted_mem_steps {command : CommandLine.Command} :
    unlisted ∈ steps command ↔ command = .disasm := by
  cases command <;> simp [steps]

theorem running_mem_steps {command : CommandLine.Command} {m : Mishap}
    (running : m = starved ∨ m = faulting) : m ∈ steps command ↔ command = .exec := by
  rcases running with rfl | rfl <;> cases command <;> simp [steps]

/-- A mishap occurs to a command with these resources, configuration, input, artifact path and
sink. -/
def Occurs (r : Resources) (c : Config) (w : Surroundings) (p artifact : Bytes) (out : Sink) :
    Mishap → Prop
  | unreadable => ¬ ∃ content, Supplies r.disk w p content
  | meaningless => ∃ content, Supplies r.disk w p content ∧ ¬ ∃ chunk, Holds p content chunk
  | overwriting =>
    isStandardInput p = false ∧
      Path.absolute w.files.workingDirectory p = Path.absolute w.files.workingDirectory artifact
  | unwritable =>
    ∃ chunk data, Loads r.disk w p chunk ∧ Artifact.encode chunk = .ok data ∧
      ¬ r.disk.Admits w.files artifact data
  -- A listing has a line for the title and one for each instruction.
  | unlisted => ∃ chunk, Loads r.disk w p chunk ∧ ∃ n, out.left = some n ∧ n < 1 + chunk.code.size
  | starved => r.memory < c.stackCapacity
  | faulting => ∃ chunk, Loads r.disk w p chunk ∧ ∃ f, Run.run .floatingPoint chunk = .error f

end Mishap

/-- The status is that of the first mishap that occurs, and zero if none does. -/
inductive Reports (occurs : Mishap → Prop) : List Mishap → Nat → Prop
  | nothing : Reports occurs [] 0
  | first {m : Mishap} (later : List Mishap) : occurs m → Reports occurs (m :: later) m.status
  | next {m : Mishap} {later : List Mishap} {n : Nat} :
      ¬ occurs m → Reports occurs later n → Reports occurs (m :: later) n

theorem Reports.mishap {occurs : Mishap → Prop} {steps : List Mishap} {n : Nat}
    (reports : Reports occurs steps n) (failed : n ≠ 0) :
    ∃ m ∈ steps, occurs m ∧ m.status = n := by
  induction reports with
  | nothing => exact absurd rfl failed
  | first later here => exact ⟨_, List.mem_cons_self, here, rfl⟩
  | next _ _ ih =>
    obtain ⟨m, member, occurred, status⟩ := ih failed
    exact ⟨m, List.mem_cons_of_mem _ member, occurred, status⟩

/-! ## Commands that have their chunk -/

section Commands

variable {r : Resources} {c : Config}

theorem disassemble_exit (loads : Loads r.disk w p chunk) (o : Outcome) (artifact : Bytes) :
    Reports (Mishap.Occurs r c w p artifact o.output) [.unlisted]
      (disassemble r.disk w p o).exit := by
  have written : (disassemble r.disk w p o).error =
      if (chunk.disassembleTo (title p) o.output).2 then none else some .refused := by
    unfold disassemble
    rw [withChunk_loaded (loadChunk_of_loads loads)]
    rfl
  have accepts := o.output.writeAll_accepts_iff (chunk.titledListing (title p))
  have lines : (chunk.titledListing (title p)).length = 1 + chunk.code.size := by
    simp [Chunk.titledListing, Chunk.listing, Nat.add_comm]
  rw [lines] at accepts
  by_cases accepted : (chunk.disassembleTo (title p) o.output).2 = true
  · rw [if_pos accepted] at written
    rw [Outcome.exit_ok written]
    apply Reports.next _ .nothing
    rintro ⟨other, again, n, limit, short⟩
    rw [← loads.unique again] at short
    have room := accepts.mp accepted n limit
    omega
  · rw [if_neg accepted] at written
    have status : (disassemble r.disk w p o).exit = Mishap.unlisted.status :=
      Outcome.exit_failed written
    rw [status]
    apply Reports.first
    have refused := mt accepts.mpr accepted
    simp only [not_forall, Nat.not_le] at refused
    obtain ⟨n, limit, short⟩ := refused
    exact ⟨chunk, loads, n, limit, short⟩

theorem buildArtifact_exit (loads : Loads r.disk w p chunk) {o : Outcome} (fine : o.error = none)
    (unmoved : o.files = w.files) (output : Bytes) :
    Reports (Mishap.Occurs r c w p (if output = [] then artifactPath p else output) o.output)
      [.overwriting, .unwritable] (buildArtifact r.disk output w p o).exit := by
  obtain ⟨data, encoded⟩ := loads.encodes
  have ends := buildArtifact_ends (loadChunk_of_loads loads) encoded o output
  generalize (if output = [] then artifactPath p else output) = artifact at ends ⊢
  have overwrites : Mishap.Occurs r c w p artifact o.output .overwriting ↔
      isSameFile o.files.workingDirectory p artifact = true := by
    simp [isSameFile, Mishap.Occurs, unmoved]
  have succeeds := @Disk.write_succeeds_iff r.disk o.files artifact data
  cases ends with
  | overwriting same error =>
    rw [Outcome.exit_failed error]
    exact .first _ (overwrites.mpr same)
  | unwritable e apart attempt error =>
    rw [Outcome.exit_failed error]
    apply Reports.next
    · rw [overwrites, apart]
      exact Bool.false_ne_true
    · apply Reports.first
      refine ⟨chunk, data, loads, encoded, fun admits => ?_⟩
      rw [attempt, unmoved] at succeeds
      cases succeeds.mpr admits
  | written apart attempt _ error =>
    rw [Outcome.exit_ok (error.trans fine)]
    apply Reports.next
    · rw [overwrites, apart]
      exact Bool.false_ne_true
    · apply Reports.next _ .nothing
      rintro ⟨other, bytes, again, encodedAgain, refuses⟩
      -- The chunk that was loaded is the only one, and so are its bytes.
      rw [← loads.unique again, encoded] at encodedAgain
      cases encodedAgain
      rw [attempt, unmoved] at succeeds
      exact refuses (succeeds.mp rfl)

theorem execute_exit (loads : Loads r.disk w p chunk) {o : Outcome} (fine : o.error = none)
    (artifact : Bytes) :
    Reports (Mishap.Occurs r c w p artifact o.output) [.starved, .faulting]
      (execute r c w p o).exit := by
  have loaded := loadChunk_of_loads loads
  -- The machine comes before the run, so a chunk that would fault is not run without memory for it.
  by_cases fits : c.stackCapacity ≤ r.memory
  · apply Reports.next (Int.not_lt.mpr fits)
    have seen := (resting_machine c o.output).seen_execute (some chunk)
    obtain ⟨result, -, -⟩ := seen
    unfold execute
    rw [withChunk_loaded loaded, withMachine_roomy fits]
    dsimp only [Outcome.logged] at result ⊢
    rw [result]
    cases ran : Run.run .floatingPoint chunk with
    | error f =>
      simp only [Observation.ofChunk, ran]
      apply Reports.first
      exact ⟨chunk, loads, f, ran⟩
    | ok v =>
      simp only [Observation.ofChunk, ran]
      apply Reports.next
      · rintro ⟨other, again, f, faulted⟩
        rw [← loads.unique again, ran] at faulted
        cases faulted
      · simp only [Outcome.exit, fine]
        exact .nothing
  · have large := Int.not_le.mp fits
    obtain ⟨-, error⟩ := execute_starved loaded large o
    have status : (execute r c w p o).exit = Mishap.starved.status := Outcome.exit_failed error
    rw [status]
    exact .first _ large

/-! ## Commands from the start -/

/-- A command begins by loading its chunk, and what it does later matters only if that succeeds. -/
theorem withChunk_exit (o : Outcome) (next : Chunk → Outcome → Outcome) (artifact : Bytes)
    (out : Sink) (later : List Mishap)
    (rest : ∀ chunk, Loads r.disk w p chunk →
      Reports (Mishap.Occurs r c w p artifact out) later (withChunk r.disk w p o next).exit) :
    Reports (Mishap.Occurs r c w p artifact out) (.unreadable :: .meaningless :: later)
      (withChunk r.disk w p o next).exit := by
  cases read : readSource r.disk w p with
  | error e =>
    have failed : (loadChunk r.disk w p).1 = .error e := by simp [loadChunk, read]
    have status : (withChunk r.disk w p o next).exit = Mishap.unreadable.status := by
      rw [withChunk_failed failed]
      exact exit_of_readSource read
    rw [status]
    apply Reports.first
    rintro ⟨content, supplied⟩
    rw [readSource_of_supplies supplied] at read
    cases read
  | ok content =>
    have supplied := supplies_of_readSource read
    apply Reports.next (not_not_intro ⟨content, supplied⟩)
    cases made : (chunkOf p content).1 with
    | error e =>
      have failed : (loadChunk r.disk w p).1 = .error e := by
        rw [loadChunk_of_supplies supplied, made]
      have status : (withChunk r.disk w p o next).exit = Mishap.meaningless.status := by
        rw [withChunk_failed failed]
        exact exit_of_chunkOf made
      rw [status]
      apply Reports.first
      refine ⟨content, supplied, ?_⟩
      rintro ⟨chunk, holds⟩
      rw [chunkOf_ok_iff.mpr holds] at made
      cases made
    | ok chunk =>
      have holds := chunkOf_ok_iff.mp made
      apply Reports.next _ (rest chunk ⟨content, supplied, holds⟩)
      -- Reading a second time gives the same bytes.
      rintro ⟨other, again, none⟩
      have same := readSource_of_supplies again
      rw [read] at same
      cases same
      exact none ⟨chunk, holds⟩

theorem run_reports {arguments rest : List Bytes} {command : CommandLine.Command}
    {s : CommandLine.Settings} (asked : CommandLine.request arguments = .ok (.run command s rest))
    (configured : configuration r.disk w.files s = .ok c) (works : Invocation.loadsChunk command)
    (out : Sink) :
    Reports
      (Mishap.Occurs r c w (rest.headD [])
        (if s.output = [] then artifactPath (rest.headD []) else s.output) out)
      (Mishap.steps command) (run arguments w out r).exit := by
  have begun : run arguments w out r =
      perform r c command s rest w (setUp c s (.start w.files out)) := by
    simp only [run, asked, configured]
  rw [begun]
  have fine : (setUp c s (.start w.files out)).error = none := rfl
  rcases works with rfl | rfl | rfl
  · exact withChunk_exit _ _ _ _ _ fun chunk loads =>
      disassemble_exit loads (setUp c s (.start w.files out)) _
  · exact withChunk_exit _ _ _ _ _ fun chunk loads => buildArtifact_exit loads fine rfl s.output
  · exact withChunk_exit _ _ _ _ _ fun chunk loads => execute_exit loads fine _

end Commands

theorem configuration_empty : configuration .working ⟨[], text "/"⟩ {} = .ok .default := rfl

end Tool

end Abacus
