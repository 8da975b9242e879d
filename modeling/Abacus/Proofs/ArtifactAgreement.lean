import Abacus.Interpreter.Session
import Abacus.Proofs.CompiledArtifacts
import Abacus.Proofs.ToolCommands

/-!
# Running a source and running its artifact

A source can be run in three ways: by the interpreter, by the tool, and by the tool from the
artifact that the tool built. Building succeeds whenever the source compiles, and the artifact then
runs and lists like the source if it has at most 131072 instructions; beyond that it is written all
the same, but no longer accepted. The interpreter has no configuration. That of the tool may ask for
a larger stack than there is memory for, and then the tool runs nothing; where there is memory, the
first two ways always agree (`artifact_agrees_up_to_limit`).
-/
namespace Abacus

open Abacus.Path (IsName afterSlash)

/-! ## The interpreter -/

namespace Interpreter

variable {d : Disk} {fs : FileSystem} {p source : Bytes}

theorem resting_machine (out : Sink) : Machine.Resting .floatingPoint (machine out) :=
  Machine.resting_new .floatingPoint [.frontEnd (some .standard), .output out]

theorem runFile_returned {c : Chunk} {v : Value} (readable : d.read fs p = .ok source)
    (compiled : compile source = .ok c) (returned : Run.run .floatingPoint c = .ok v) (out : Sink) :
    runFile d fs p out = ⟨Exit.ok, out.offer (v.print ++ [newline]), []⟩ := by
  have chunk : FrontEnd.chunk (machine out).frontEnd source = .ok c := by
    rw [show (machine out).frontEnd = some .standard from rfl, FrontEnd.chunk_standard, compiled]
    rfl
  have seen := (resting_machine out).seen_interpret chunk
  simp only [Observation.ofChunk, returned] at seen
  obtain ⟨result, -, output⟩ := seen
  simp only [runFile, readable, result, output]
  rfl

theorem runFile_rejected {e : SyntaxError} (readable : d.read fs p = .ok source)
    (rejected : compile source = .error e) (out : Sink) :
    (runFile d fs p out).exit = Exit.data ∧ (runFile d fs p out).output = out := by
  have chunk : FrontEnd.chunk (machine out).frontEnd source = .error (.rejected e) := by
    rw [show (machine out).frontEnd = some .standard from rfl, FrontEnd.chunk_standard, rejected]
    rfl
  obtain ⟨unchanged, result⟩ := Machine.interpret_rejected chunk
  simp only [runFile, readable, result, unchanged]
  exact ⟨rfl, rfl⟩

end Interpreter

namespace Tool

/-! ## A source and a place for its artifact -/

/-- A source in a file that is no artifact by its name, and a path where its artifact is written in
full and can be read again. -/
structure Workspace where
  disk : Disk
  files : FileSystem
  tree : files.WellFormed
  path : Bytes
  source : Bytes
  readable : disk.read files path = .ok source
  notDash : path ≠ text "-"
  isSource : Tool.isArtifact path = false
  /-- Lengths are signed words. -/
  short : source.length < signedLimit
  artifact : Bytes
  place : FileSystem.Place
  isArtifact : Tool.isArtifact artifact = true
  target : files.target artifact = .ok place
  writable : ∀ c data, compile source = .ok c → Artifact.encode c = .ok data →
    disk.Admits files artifact data
  readAgain : disk.unreadable artifact = none

namespace Workspace

variable (s : Workspace)

theorem found : s.files.read s.path = .ok s.source := (Disk.read_eq_ok_iff.mp s.readable).2

theorem path_named : isStandardInput s.path = false := by
  have occupied : s.path ≠ [] := by
    intro empty
    have found := s.found
    rw [empty] at found
    cases found
  simp [isStandardInput, occupied, s.notDash]

theorem artifact_named : isStandardInput s.artifact = false := by
  have extension := s.isArtifact
  have occupied : s.artifact ≠ [] := by
    intro empty
    rw [empty] at extension
    revert extension
    decide
  have notDash : s.artifact ≠ text "-" := by
    intro dash
    rw [dash] at extension
    revert extension
    decide
  simp [isStandardInput, occupied, notDash]

theorem isArtifact_congr {p q : Bytes} (same : afterSlash p = afterSlash q) :
    Tool.isArtifact p = Tool.isArtifact q := by
  have extensions : Path.extension p = Path.extension q := by simp only [Path.extension, same]
  rw [Tool.isArtifact, Tool.isArtifact, extensions]

/-- However the two paths are written, they do not lead to the same file. -/
theorem isSameFile_eq_false :
    isSameFile s.files.workingDirectory s.path s.artifact = false := by
  have sourceName := FileSystem.isName_of_read s.tree s.found
  have artifactName := (FileSystem.locate_of_target s.target).2.1
  -- Made absolute, both paths keep their names, and only one of these has the extension.
  have different : Path.absolute s.files.workingDirectory s.path ≠
      Path.absolute s.files.workingDirectory s.artifact := by
    intro same
    have names := congrArg afterSlash same
    rw [Path.afterSlash_absolute _ sourceName, Path.afterSlash_absolute _ artifactName] at names
    have both := isArtifact_congr names
    rw [s.isSource, s.isArtifact] at both
    cases both
  simp [isSameFile, different]

theorem place_eq_concat : ∃ directory, s.place = directory ++ [afterSlash s.artifact] := by
  obtain ⟨located, plain, -⟩ := FileSystem.locate_of_target s.target
  exact FileSystem.locate_name located plain

theorem place_ne_nil : s.place ≠ [] := by
  obtain ⟨directory, same⟩ := s.place_eq_concat
  simp [same]

theorem place_ne_config (directory : FileSystem.Place) :
    s.place ≠ directory ++ [Config.fileName] := by
  obtain ⟨above, same⟩ := s.place_eq_concat
  rw [same]
  intro equal
  obtain ⟨-, last⟩ := List.append_inj' equal rfl
  -- Equal places have equal names, and the configuration file has another extension.
  have names : afterSlash s.artifact = afterSlash Config.fileName := (List.cons.inj last).1
  have both := isArtifact_congr names
  rw [s.isArtifact] at both
  revert both
  decide

def built (content : Bytes) : FileSystem := s.files.put s.place (.file content)

theorem read_built (content : Bytes) : s.disk.read (s.built content) s.artifact = .ok content := by
  obtain ⟨located, -, vacant⟩ := FileSystem.locate_of_target s.target
  have found := FileSystem.read_put_self s.place_ne_nil vacant content located
  exact Disk.read_eq_ok_iff.mpr ⟨s.readAgain, found⟩

/-- An invocation is the same after the build, if its configuration file is not the artifact. -/
def later {command : CommandLine.Command} {p : Bytes} (i : Invocation s.disk s.files command p)
    (elsewhere : s.files.locate i.settings.config ≠ .ok s.place) (content : Bytes) :
    Invocation s.disk (s.built content) command p :=
  { i with
    loads := configuration_put s.place_ne_nil (FileSystem.locate_of_target s.target).2.2 content
      s.place_ne_config elsewhere i.loads }

theorem loadChunk_source (input : Input) :
    (loadChunk s.disk ⟨s.files, input⟩ s.path).1 = (compile s.source).mapError .rejected := by
  rw [loadChunk_eq s.path_named s.readable, s.isSource]
  rfl

theorem loadChunk_artifact (content : Bytes) (input : Input) :
    (loadChunk s.disk ⟨s.built content, input⟩ s.artifact).1 =
      (Artifact.decode content).mapError .badArtifact := by
  rw [loadChunk_eq s.artifact_named (s.read_built content), s.isArtifact]
  rfl

/-! ## Building and running -/

/-- A source that does not compile is refused by whatever needs its chunk. -/
theorem run_rejected {input : Input} {e : SyntaxError} (rejected : compile s.source = .error e)
    {command : CommandLine.Command} (i : Invocation s.disk s.files command s.path)
    (loads : Invocation.loadsChunk command) (out : Sink) (memory : Nat) :
    (run i.arguments ⟨s.files, input⟩ out ⟨s.disk, memory⟩).output = out ∧
      (run i.arguments ⟨s.files, input⟩ out ⟨s.disk, memory⟩).exit = Exit.data := by
  have failed : (loadChunk s.disk ⟨s.files, input⟩ s.path).1 = .error (.rejected e) := by
    rw [s.loadChunk_source, rejected]
    rfl
  obtain ⟨output, -, exit⟩ := i.run_failed loads failed out memory
  exact ⟨output, exit⟩

section Compiled

variable {c : Chunk} (compiled : compile s.source = .ok c) (input : Input) (memory : Nat)

include compiled

theorem loadChunk_compiled : (loadChunk s.disk ⟨s.files, input⟩ s.path).1 = .ok c := by
  rw [s.loadChunk_source, compiled]
  rfl

theorem build_returned (build : Invocation s.disk s.files .build s.path)
    (output : build.settings.output = s.artifact) (out : Sink) :
    let after := run build.arguments ⟨s.files, input⟩ out ⟨s.disk, memory⟩
    after.files = s.built (Artifact.Fields.ofChunk c).write ∧ after.output = out ∧
      after.exit = Exit.ok := by
  have given : s.artifact ≠ [] := by
    intro empty
    have named := s.artifact_named
    simp [isStandardInput, empty] at named
  have encoded := Artifact.encode_compiled compiled
  have admits := s.writable c _ compiled encoded
  rw [← output] at given admits
  exact build.build_written (s.loadChunk_compiled compiled input) encoded given
    (output ▸ s.isSameFile_eq_false) (output ▸ s.target) admits out memory

/-- The artifact of a chunk that is not too large is loaded as that chunk. -/
theorem loadChunk_built (small : c.code.size ≤ Cbor.maxElements) :
    (loadChunk s.disk ⟨s.built (Artifact.Fields.ofChunk c).write, input⟩ s.artifact).1 = .ok c := by
  rw [s.loadChunk_artifact, Artifact.decode_compiled compiled s.short small]
  rfl

/-- The artifact of one that is too large is refused. -/
theorem loadChunk_oversized (large : Cbor.maxElements < c.code.size) :
    (loadChunk s.disk ⟨s.built (Artifact.Fields.ofChunk c).write, input⟩ s.artifact).1 =
      .error (.badArtifact Artifact.notADocument) := by
  rw [s.loadChunk_artifact, Artifact.decode_oversized compiled s.short large]
  rfl

theorem exec_built {v : Value} (returned : Run.run .floatingPoint c = .ok v)
    (exec : Invocation s.disk s.files .exec s.artifact)
    (elsewhere : s.files.locate exec.settings.config ≠ .ok s.place)
    (small : c.code.size ≤ Cbor.maxElements) (out : Sink) :
    let w : Surroundings := ⟨s.built (Artifact.Fields.ofChunk c).write, input⟩
    let after := run exec.arguments w out ⟨s.disk, memory⟩
    (exec.config.stackCapacity ≤ memory →
      after.output = out.offer (v.print ++ [newline]) ∧ after.exit = Exit.ok) ∧
    (memory < exec.config.stackCapacity → after.output = out ∧ after.exit = Exit.exhausted) :=
  (s.later exec elsewhere _).exec_returned (s.loadChunk_built compiled input small) returned out
    memory

theorem exec_oversized (exec : Invocation s.disk s.files .exec s.artifact)
    (elsewhere : s.files.locate exec.settings.config ≠ .ok s.place)
    (large : Cbor.maxElements < c.code.size) (out : Sink) :
    let w : Surroundings := ⟨s.built (Artifact.Fields.ofChunk c).write, input⟩
    let after := run exec.arguments w out ⟨s.disk, memory⟩
    after.output = out ∧ after.exit = Exit.data := by
  obtain ⟨output, -, exit⟩ := (s.later exec elsewhere _).run_failed (.inr (.inr rfl))
    (s.loadChunk_oversized compiled input large) out memory
  exact ⟨output, exit⟩

theorem disasm_built (list : Invocation s.disk s.files .disasm s.artifact)
    (elsewhere : s.files.locate list.settings.config ≠ .ok s.place)
    (small : c.code.size ≤ Cbor.maxElements) :
    let w : Surroundings := ⟨s.built (Artifact.Fields.ofChunk c).write, input⟩
    (run list.arguments w .working ⟨s.disk, memory⟩).output.content =
      c.disassemble (title s.artifact) :=
  ((s.later list elsewhere _).disasm_listed (s.loadChunk_built compiled input small) .working rfl
    memory).1

end Compiled

end Workspace

/-! ## A workspace with a chain of minus signs -/

/-- One directory with one source in it. -/
def negationFiles (n : Nat) : FileSystem :=
  ⟨[([text "w"], .directory), ([text "w", text "n.dbl"], .file (negations n))], text "/w"⟩

/-- Its artifact goes next to it. -/
def negationWorkspace (n : Nat) (short : n + 1 < signedLimit) : Workspace where
  disk := .working
  files := negationFiles n
  tree := by
    intro entry member
    simp only [negationFiles, List.mem_cons, List.not_mem_nil, or_false] at member
    rcases member with rfl | rfl <;> rfl
  path := text "n.dbl"
  source := negations n
  readable := rfl
  notDash := by decide
  isSource := by decide
  short := by simpa [negations] using short
  artifact := text "n.dbc"
  place := [text "w", text "n.dbc"]
  isArtifact := by decide
  target := rfl
  writable _ _ _ _ := Disk.working_admits rfl
  readAgain := rfl

/-- There is no configuration file, so the defaults are used. -/
theorem configuration_negationFiles (n : Nat) (s : CommandLine.Settings) (none : s.config = []) :
    configuration .working (negationFiles n) s = .ok .default := by
  -- The search looks in the working directory and in the root above it.
  have directories : Path.ancestors (Path.absolute (text "/w") Path.here) =
      [text "/w", text "/"] := by decide +kernel
  have near : Path.join (text "/w") Config.fileName = text "/w/diablo.toml" := by decide +kernel
  have top : Path.join (text "/") Config.fileName = text "/diablo.toml" := by decide +kernel
  have absentNear : (negationFiles n).holds (text "/w/diablo.toml") = false := rfl
  have absentTop : (negationFiles n).holds (text "/diablo.toml") = false := rfl
  have workingDirectory : (negationFiles n).workingDirectory = text "/w" := rfl
  simp [configuration, none, Config.find, workingDirectory, directories, near, top, absentNear,
    absentTop, Except.map]

def negationExec (n : Nat) : Invocation .working (negationFiles n) .exec (text "n.dbl") where
  arguments := [text "exec", text "n.dbl"]
  settings := {}
  config := .default
  asked := rfl
  loads := configuration_negationFiles n {} rfl

def negationBuild (n : Nat) : Invocation .working (negationFiles n) .build (text "n.dbl") where
  arguments := [text "build", text "-o", text "n.dbc", text "n.dbl"]
  settings := { output := text "n.dbc" }
  config := .default
  asked := rfl
  loads := configuration_negationFiles n _ rfl

def negationExecArtifact (n : Nat) :
    Invocation .working (negationFiles n) .exec (text "n.dbc") where
  arguments := [text "exec", text "n.dbc"]
  settings := {}
  config := .default
  asked := rfl
  loads := configuration_negationFiles n {} rfl

theorem negation_elsewhere (n : Nat) (place : FileSystem.Place) :
    (negationFiles n).locate (negationExecArtifact n).settings.config ≠ .ok place := by
  simp [FileSystem.locate, FileSystem.check, negationExecArtifact, bind, Except.bind]

/-! ## Agreement -/

/-- The interpreter and the tool run a source alike, and so does the tool its artifact. A source that
does not compile ends with status 65 everywhere, and building it does too. One that compiles always
runs and is built. The tool runs it with the same output and the same status as the interpreter, and
up to 131072 instructions it runs and lists the artifact like the source; with more the artifact is
refused. Where there is no memory for the stack that the configuration asks for, the tool prints
nothing instead and ends with status 2. -/
theorem artifact_agrees_up_to_limit (s : Workspace) (input : Input) (memory : Nat)
    (exec : Invocation s.disk s.files .exec s.path)
    (build : Invocation s.disk s.files .build s.path) (output : build.settings.output = s.artifact)
    (execArtifact : Invocation s.disk s.files .exec s.artifact)
    (elsewhere : s.files.locate execArtifact.settings.config ≠ .ok s.place) :
    let r : Resources := ⟨s.disk, memory⟩
    let direct := Interpreter.run [s.path] s.files input .working s.disk
    let tool := run exec.arguments ⟨s.files, input⟩ .working r
    let built := run build.arguments ⟨s.files, input⟩ .working r
    let artifact := run execArtifact.arguments ⟨built.files, input⟩ .working r
    built.output.content = [] ∧
    match compile s.source with
    | .error _ =>
      tool.output.content = direct.output.content ∧ tool.exit = direct.exit ∧
      direct.output.content = [] ∧ direct.exit = 65 ∧ built.exit = 65
    | .ok c =>
      direct.exit = 0 ∧ built.exit = 0 ∧
      (exec.config.stackCapacity ≤ memory →
        tool.output.content = direct.output.content ∧ tool.exit = direct.exit) ∧
      (memory < exec.config.stackCapacity → tool.output.content = [] ∧ tool.exit = 2) ∧
      (c.code.size ≤ 131072 →
        (execArtifact.config.stackCapacity ≤ memory →
          artifact.output.content = direct.output.content ∧ artifact.exit = 0) ∧
        (memory < execArtifact.config.stackCapacity →
          artifact.output.content = [] ∧ artifact.exit = 2) ∧
        ∀ (list : Invocation s.disk s.files .disasm s.path)
          (listArtifact : Invocation s.disk s.files .disasm s.artifact),
          s.files.locate listArtifact.settings.config ≠ .ok s.place →
            (run list.arguments ⟨s.files, input⟩ .working r).output.content =
                c.disassemble (title s.path) ∧
              (run listArtifact.arguments ⟨built.files, input⟩ .working r).output.content =
                c.disassemble (title s.artifact)) ∧
      (131072 < c.code.size → artifact.output.content = [] ∧ artifact.exit = 65) := by
  dsimp only [Interpreter.run]
  cases compiled : compile s.source with
  | error e =>
    -- All three stop where the source is compiled; nothing is run or written.
    obtain ⟨directExit, directOutput⟩ :=
      Interpreter.runFile_rejected s.readable compiled .working
    obtain ⟨toolOutput, toolExit⟩ :=
      s.run_rejected compiled exec (.inr (.inr rfl)) .working memory
    obtain ⟨buildOutput, buildExit⟩ :=
      s.run_rejected compiled build (.inr (.inl rfl)) .working memory
    rw [directOutput, directExit, toolOutput, toolExit, buildOutput, buildExit]
    exact ⟨rfl, rfl, rfl, rfl, rfl, rfl⟩
  | ok c =>
    -- The run of a compiled chunk returns a value, whatever loaded the chunk.
    obtain ⟨v, returned⟩ := run_of_compile compiled .floatingPoint
    have direct := Interpreter.runFile_returned s.readable compiled returned .working
    obtain ⟨runs, starves⟩ :=
      exec.exec_returned (s.loadChunk_compiled compiled input) returned .working memory
    obtain ⟨files, buildOutput, buildExit⟩ :=
      s.build_returned compiled input memory build output .working
    rw [direct, buildOutput, buildExit, files]
    refine ⟨rfl, rfl, rfl, ?_, ?_, ?_, ?_⟩
    · intro fits
      obtain ⟨toolOutput, toolExit⟩ := runs fits
      rw [toolOutput, toolExit]
      exact ⟨rfl, rfl⟩
    · intro large
      obtain ⟨toolOutput, toolExit⟩ := starves large
      rw [toolOutput, toolExit]
      exact ⟨rfl, rfl⟩
    · intro small
      obtain ⟨artifactRuns, artifactStarves⟩ :=
        s.exec_built compiled input memory returned execArtifact elsewhere small .working
      refine ⟨fun fits => ?_, fun large => ?_, fun list listArtifact apart => ⟨?_, ?_⟩⟩
      · obtain ⟨artifactOutput, artifactExit⟩ := artifactRuns fits
        rw [artifactOutput, artifactExit]
        exact ⟨rfl, rfl⟩
      · obtain ⟨artifactOutput, artifactExit⟩ := artifactStarves large
        rw [artifactOutput, artifactExit]
        exact ⟨rfl, rfl⟩
      · exact (list.disasm_listed (s.loadChunk_compiled compiled input) .working rfl memory).1
      · exact s.disasm_built compiled input memory listArtifact apart small
    · intro large
      obtain ⟨artifactOutput, artifactExit⟩ :=
        s.exec_oversized compiled input memory execArtifact elsewhere large .working
      rw [artifactOutput, artifactExit]
      exact ⟨rfl, rfl⟩

/-- One minus sign: built and run from the artifact, the result is that of the source. -/
theorem artifact_agrees_one_negation :
    let w : Surroundings := ⟨negationFiles 1, ⟨[], none⟩⟩
    let direct := Interpreter.run [text "n.dbl"] w.files w.input .working
    let built := run [text "build", text "-o", text "n.dbc", text "n.dbl"] w .working
    let artifact := run [text "exec", text "n.dbc"] ⟨built.files, w.input⟩ .working
    direct.exit = 0 ∧ built.exit = 0 ∧ artifact.exit = 0 ∧
      artifact.output.content = direct.output.content := by
  obtain ⟨-, agreement⟩ :=
    artifact_agrees_up_to_limit (negationWorkspace 1 (by decide)) ⟨[], none⟩ (Nat.pow 2 44)
      (negationExec 1) (negationBuild 1) rfl (negationExecArtifact 1) (negation_elsewhere 1 _)
  obtain ⟨c, compiled, size⟩ := compile_negations 1
  have source : (negationWorkspace 1 (by decide)).source = negations 1 := rfl
  rw [source, compiled] at agreement
  obtain ⟨direct, built, -, -, small, -⟩ := agreement
  obtain ⟨runs, -, -⟩ := small (by omega)
  obtain ⟨output, exit⟩ := runs (by decide)
  exact ⟨direct, built, exit, output⟩

/-- With 131071 minus signs there is one instruction too many: the source runs and is built, but its
artifact is refused. -/
theorem artifact_refused_many_negations :
    let w : Surroundings := ⟨negationFiles 131071, ⟨[], none⟩⟩
    let direct := Interpreter.run [text "n.dbl"] w.files w.input .working
    let built := run [text "build", text "-o", text "n.dbc", text "n.dbl"] w .working
    let artifact := run [text "exec", text "n.dbc"] ⟨built.files, w.input⟩ .working
    direct.exit = 0 ∧ built.exit = 0 ∧ artifact.exit = 65 := by
  let s := negationWorkspace 131071 (by decide)
  obtain ⟨c, compiled, size⟩ := compile_negations 131071
  have large : Cbor.maxElements < c.code.size := by simp [size, Cbor.maxElements]
  obtain ⟨v, returned⟩ := run_of_compile compiled .floatingPoint
  have direct := Interpreter.runFile_returned s.readable compiled returned .working
  obtain ⟨files, -, built⟩ :=
    s.build_returned compiled ⟨[], none⟩ (Nat.pow 2 44) (negationBuild 131071) rfl .working
  obtain ⟨-, refused⟩ := s.exec_oversized compiled ⟨[], none⟩ (Nat.pow 2 44)
    (negationExecArtifact 131071) (negation_elsewhere 131071 _) large .working
  rw [← files] at refused
  exact ⟨congrArg Interpreter.Outcome.exit direct, built, refused⟩

end Tool

end Abacus
