import Abacus.Proofs.ExitStatuses
import Abacus.Proofs.Places

/-!
# What building does to the files

Building refuses to write over its input. It compares the two paths by their spelling, cleaned and
made absolute, and never looks at the files for that. Where there are no links this decides whether
they lead to one place: a path that leads anywhere leads to the place that its clean spelling names
(`FileSystem.absolute_of_locate`). So the input is never written.

Everything that can fail before the artifact is opened leaves the files as they were. Opening it
empties it, so if the disk fails after that, for lack of space or while the file is closed, the
artifact is left incomplete or unconfirmed (`Disk.Leaves`). Then its place is still the only one
that differs, and the exit status says that it could not be written.
-/
namespace Abacus

open Abacus.Path (IsName afterSlash upToSlash segments)

namespace FileSystem

variable {fs : FileSystem}

/-- If the absolute spellings of two paths differ, so do the places that they lead to. -/
theorem locate_ne_of_isSameFile (rooted : Path.isAbsolute fs.workingDirectory = true)
    {p artifact : Bytes} {place : Place} (named : Tool.isStandardInput p = false)
    (apart : Tool.isSameFile fs.workingDirectory p artifact = false)
    (target : fs.locate artifact = .ok place) : fs.locate p ≠ .ok place := by
  intro located
  have same := (absolute_of_locate rooted located).2.trans (absolute_of_locate rooted target).2.symm
  simp [Tool.isSameFile, named, same] at apart

end FileSystem

/-! ## The name of an artifact -/

namespace Path

theorem extension_of_name {p stem rest : Bytes} (name : afterSlash p = stem ++ dot :: rest)
    (free : dot ∉ rest) : extension p = dot :: rest := by
  have reversed : (afterSlash p).reverse = rest.reverse ++ dot :: stem.reverse := by simp [name]
  have taken := Bytes.takeWhile_append_separator (mt List.mem_reverse.mp free) stem.reverse
  simp [extension, reversed, taken]

theorem withoutExtension_eq {p before : Bytes} (parts : p = before ++ extension p) :
    withoutExtension p = before := by
  have count : p.length - (extension p).length = before.length := by
    have whole := congrArg List.length parts
    rw [List.length_append] at whole
    omega
  rw [withoutExtension, count, parts]
  exact List.take_left' rfl

end Path

namespace Tool

/-- The last extension of a name, if it has one, gives way to that of artifacts. -/
inductive Renames : Bytes → Bytes → Prop
  | plain {name : Bytes} : Path.dot ∉ name → Renames name (name ++ text ".dbc")
  | extended {stem extension : Bytes} :
      Path.dot ∉ extension → Renames (stem ++ Path.dot :: extension) (stem ++ text ".dbc")

theorem Renames.slash_notMem {name renamed : Bytes} (renames : Renames name renamed)
    (free : Path.slash ∉ name) : Path.slash ∉ renamed := by
  have none : Path.slash ∉ text ".dbc" := by decide
  cases renames with
  | plain => simp [free, none]
  | @extended stem =>
    have before : Path.slash ∉ stem := fun member => free (List.mem_append_left _ member)
    simp [before, none]

theorem artifactPath_eq {p : Bytes} (named : isStandardInput p = false) :
    ∃ renamed, artifactPath p = upToSlash p ++ renamed ∧ Renames (afterSlash p) renamed := by
  have whole := Path.upToSlash_append_afterSlash p
  have path : artifactPath p = Path.withoutExtension p ++ text ".dbc" := by
    simp [artifactPath, named, artifactExtension]
  by_cases dotted : Path.dot ∈ afterSlash p
  · -- The extension starts at the last dot of the name, wherever else there are dots in the path.
    obtain ⟨back, front, split, free⟩ := List.eq_append_cons_of_mem (List.mem_reverse.mpr dotted)
    have name : afterSlash p = front.reverse ++ Path.dot :: back.reverse := by
      rw [← List.reverse_reverse (afterSlash p), split]
      simp
    have last : Path.dot ∉ back.reverse := by simpa using free
    have extension := Path.extension_of_name name last
    have parts : p = (upToSlash p ++ front.reverse) ++ Path.extension p := by
      rw [extension, List.append_assoc, ← name, whole]
    refine ⟨front.reverse ++ text ".dbc", ?_, name ▸ .extended last⟩
    rw [path, Path.withoutExtension_eq parts, List.append_assoc]
  · have extension : Path.extension p = [] := by simp [Path.extension, dotted]
    have parts : p = p ++ Path.extension p := by simp [extension]
    refine ⟨afterSlash p ++ text ".dbc", ?_, .plain dotted⟩
    rw [path, Path.withoutExtension_eq parts, ← List.append_assoc, whole]

theorem Renames.isName {name renamed : Bytes} (renames : Renames name renamed) :
    IsName renamed := by
  have long : 4 ≤ renamed.length := by
    have count : (text ".dbc").length = 4 := by decide
    cases renames with
    | plain | extended => simp [count]
  constructor <;>
  · rintro rfl
    revert long
    decide

/-! ## Building -/

variable {w : Surroundings} {p : Bytes} {r : Resources}

/-- The place of an artifact has been written, and never over the input. What is left there are the
bytes of the encoded chunk, or some of them. -/
structure Built (d : Disk) (w : Surroundings) (p artifact : Bytes) (place : FileSystem.Place)
    (chunk : Chunk) (data left : Bytes) (after : FileSystem) : Prop where
  loaded : Loads d w p chunk
  encoded : Artifact.encode chunk = .ok data
  apart : isSameFile w.files.workingDirectory p artifact = false
  target : w.files.target artifact = .ok place
  files : after = w.files.put place (.file left)

/-- What building may do to the files: nothing, if it fails, or an artifact that is left by a disk
that fails, or the whole artifact. -/
inductive Effects (d : Disk) (w : Surroundings) (p artifact : Bytes) (after : Outcome) : Prop
  | untouched : after.exit ≠ 0 → after.files = w.files → Effects d w p artifact after
  | spoiled {place : FileSystem.Place} {chunk : Chunk} {data left : Bytes} :
      after.exit = Exit.inputOutput → d.Leaves data left →
      Built d w p artifact place chunk data left after.files → Effects d w p artifact after
  | finished {place : FileSystem.Place} {chunk : Chunk} {data : Bytes} :
      after.exit = 0 → Built d w p artifact place chunk data data after.files →
      Effects d w p artifact after

theorem buildArtifact_effects {d : Disk} {o : Outcome} (fine : o.error = none)
    (unmoved : o.files = w.files) (output : Bytes) :
    Effects d w p (if output = [] then artifactPath p else output)
      (buildArtifact d output w p o) := by
  cases loaded : (loadChunk d w p).1 with
  | error e =>
    have failed : buildArtifact d output w p o = (o.logged (loadChunk d w p).2).fail e :=
      withChunk_failed loaded o _
    rw [failed]
    exact .untouched (Outcome.exit_ne_zero rfl) unmoved
  | ok chunk =>
    have loads := loads_of_loadChunk loaded
    obtain ⟨data, encoded⟩ := loads.encodes
    have ends := buildArtifact_ends loaded encoded o output
    generalize (if output = [] then artifactPath p else output) = artifact at ends ⊢
    -- Files change only in an attempt to write, which comes last.
    cases ends with
    | overwriting _ error files =>
      exact .untouched (Outcome.exit_ne_zero error) (files.trans unmoved)
    | unwritable e apart attempt error =>
      rw [unmoved] at apart attempt
      rcases Disk.write_failed attempt with same | ⟨place, left, target, leaves, files⟩
      · exact .untouched (Outcome.exit_ne_zero error) same
      · exact .spoiled (Outcome.exit_failed error) leaves ⟨loads, encoded, apart, target, files⟩
    | written apart attempt _ error =>
      rw [unmoved] at apart attempt
      obtain ⟨-, place, target, files⟩ := Disk.write_finished attempt
      exact .finished (Outcome.exit_ok (error.trans fine)) ⟨loads, encoded, apart, target, files⟩

theorem run_build {arguments rest : List Bytes} {s : CommandLine.Settings}
    (asked : CommandLine.request arguments = .ok (.run .build s rest)) (out : Sink) :
    let p := rest.headD []
    let artifact := if s.output = [] then artifactPath p else s.output
    Effects r.disk w p artifact (run arguments w out r) := by
  cases configured : configuration r.disk w.files s with
  | error e =>
    have failed : run arguments w out r = (Outcome.start w.files out).fail (.config e) := by
      simp only [run, asked, configured]
    rw [failed]
    exact .untouched (Outcome.exit_ne_zero rfl) rfl
  | ok c =>
    have begun : run arguments w out r =
        buildArtifact r.disk s.output w (rest.headD []) (setUp c s (.start w.files out)) := by
      simp only [run, asked, configured, perform]
    rw [begun]
    exact buildArtifact_effects rfl rfl s.output

/-- The file that is written is not the input, and no other file changes. -/
theorem Built.effects {d : Disk} {artifact data left : Bytes} {place : FileSystem.Place}
    {chunk : Chunk} {after : FileSystem} (built : Built d w p artifact place chunk data left after)
    (rooted : Path.isAbsolute w.files.workingDirectory = true) :
    (isStandardInput p = false →
      w.files.locate p ≠ .ok place ∧ after.read p = w.files.read p) ∧
    after.read artifact = .ok left ∧
    ∀ q, after.lookup? q = if q = place then some (.file left) else w.files.lookup? q := by
  obtain ⟨located, plain, vacant⟩ := FileSystem.locate_of_target built.target
  have below : place ≠ [] := by
    obtain ⟨directory, rfl⟩ := FileSystem.locate_name located plain
    simp
  rw [built.files]
  refine ⟨fun named => ?_, FileSystem.read_put_self below vacant left located, fun q => ?_⟩
  · -- The spellings have been found to differ, so the input is at another place.
    have elsewhere := FileSystem.locate_ne_of_isSameFile rooted named built.apart located
    obtain ⟨content, supplied, -⟩ := built.loaded
    rw [Supplies, if_neg (by simp [named])] at supplied
    obtain ⟨-, found⟩ := Disk.read_eq_ok_iff.mp supplied
    refine ⟨elsewhere, ?_⟩
    rw [found]
    exact FileSystem.read_put_of_ne below vacant left elsewhere found
  · split
    next same =>
      rw [same]
      exact FileSystem.lookup?_put_self _ below _
    next other => exact FileSystem.lookup?_put_of_ne _ other _

end Tool

end Abacus
