import Abacus.Proofs.Places
import Abacus.Proofs.Settings

/-!
# The nearest configuration

Looking for a configuration means looking into a directory, then into its parent, and so on up to
the root, which is its own parent (`Config.Search`). However the start is spelled, its absolute path
is the path of a place; each parent leaves out a name, so the search ends after as many steps as
there are names. The directory where it ends is the nearest one with a file, whatever that file is
like.
-/
namespace Abacus

open Abacus.Path (IsName Names ofNames segments)

namespace Config

variable {fs : FileSystem}

/-- Looking into a directory, and if it has no configuration file, looking from its parent on. -/
inductive Search (fs : FileSystem) : Bytes → Except ConfigError (Option Config) → Prop
  | found {d : Bytes} : fs.holds (Path.join d fileName) = true → Search fs d ((load fs d).map some)
  | exhausted {d : Bytes} : fs.holds (Path.join d fileName) = false → Path.parent d = d →
      Search fs d (.ok none)
  | up {d : Bytes} {r : Except ConfigError (Option Config)} :
      fs.holds (Path.join d fileName) = false → Path.parent d ≠ d → Search fs (Path.parent d) r →
      Search fs d r

/-- The search comes to one result at most. -/
theorem Search.unique {d : Bytes} {r t : Except ConfigError (Option Config)}
    (first : Search fs d r) (second : Search fs d t) : t = r := by
  induction first generalizing t with
  | found holds =>
    cases second with
    | found _ => rfl
    | exhausted none | up none => simp [holds] at none
  | exhausted none root =>
    cases second with
    | found holds => simp [holds] at none
    | exhausted => rfl
    | up _ below => exact absurd root below
  | up none below _ ih =>
    cases second with
    | found holds => simp [holds] at none
    | exhausted _ root => exact absurd root below
    | up _ _ later => exact ih later

/-- The configuration of the first of some directories that has one. -/
def ofFirst (fs : FileSystem) (directories : List Bytes) : Except ConfigError (Option Config) :=
  match directories.find? fun d => fs.holds (Path.join d fileName) with
  | none => .ok none
  | some d => (load fs d).map some

theorem find_eq_ofFirst (fs : FileSystem) (start : Bytes) :
    find fs start = ofFirst fs (Path.ancestors (Path.absolute fs.workingDirectory start)) := rfl

theorem ofFirst_cons (d : Bytes) (directories : List Bytes) :
    ofFirst fs (d :: directories) =
      if fs.holds (Path.join d fileName) = true then (load fs d).map some
      else ofFirst fs directories := by
  unfold ofFirst
  rw [List.find?_cons]
  cases fs.holds (Path.join d fileName) <;> rfl

theorem isName_fileName : IsName fileName ∧ Path.slash ∉ fileName :=
  ⟨⟨by decide, by decide, by decide⟩, by decide⟩

/-- Going through the ancestors in turn is searching. -/
theorem search_ofFirst {place : FileSystem.Place} (names : Names place) :
    Search fs (ofNames place) (ofFirst fs (Path.ancestors (ofNames place))) := by
  -- From the last name up, as the parent leaves out the last name.
  induction place using List.reverseRecOn with
  | nil =>
    rw [Path.ancestors_root, ofFirst_cons]
    split
    next holds => exact .found holds
    next none => exact .exhausted (by simpa using none) Path.parent_root
  | append_singleton place name ih =>
    obtain ⟨before, plain, free⟩ := names.of_concat
    rw [Path.ancestors_concat names, ofFirst_cons]
    split
    next holds => exact .found holds
    next none =>
      have moves : Path.parent (ofNames (place ++ [name])) ≠ ofNames (place ++ [name]) := by
        rw [ne_eq, Path.parent_eq_self_iff names]
        simp
      refine .up (by simpa using none) moves ?_
      rw [Path.parent_concat before plain free]
      exact ih before

/-! ## The nearest directory -/

/-- The directory has an entry with the name of configuration files, whose path is one that a system
can be asked for. -/
def Configured (fs : FileSystem) (directory : FileSystem.Place) : Prop :=
  (fs.lookup? (directory ++ [fileName])).isSome = true ∧
    (ofNames (directory ++ [fileName])).length ≤ FileSystem.longestPath

theorem holds_fileName (tree : fs.Tree) {place : FileSystem.Place} (names : Names place) :
    fs.holds (Path.join (ofNames place) fileName) = true ↔ Configured fs place := by
  obtain ⟨plain, free⟩ := isName_fileName
  rw [Path.join_ofNames names plain free]
  exact tree.holds_ofNames (names.concat plain free)

/-- The configuration is that of the nearest directory that has one, even if it cannot be used. -/
theorem ofFirst_nearest (tree : fs.Tree) {place : FileSystem.Place} (names : Names place) :
    (∃ d, d <+: place ∧ Configured fs d ∧ (∀ e, e <+: place → Configured fs e → e <+: d) ∧
      ofFirst fs (Path.ancestors (ofNames place)) = (load fs (ofNames d)).map some) ∨
    ((∀ d, d <+: place → ¬ Configured fs d) ∧
      ofFirst fs (Path.ancestors (ofNames place)) = .ok none) := by
  induction place using List.reverseRecOn with
  | nil =>
    rw [Path.ancestors_root, ofFirst_cons]
    by_cases here : Configured fs []
    · rw [if_pos ((holds_fileName tree names).mpr here)]
      exact .inl ⟨[], List.prefix_refl _, here, fun e root _ => root, rfl⟩
    · rw [if_neg (mt (holds_fileName tree names).mp here)]
      refine .inr ⟨fun d root => ?_, rfl⟩
      rw [List.prefix_nil.mp root]
      exact here
  | append_singleton place name ih =>
    obtain ⟨before, -, -⟩ := names.of_concat
    rw [Path.ancestors_concat names, ofFirst_cons]
    by_cases here : Configured fs (place ++ [name])
    · rw [if_pos ((holds_fileName tree names).mpr here)]
      exact .inl ⟨place ++ [name], List.prefix_refl _, here, fun e above _ => above, rfl⟩
    · -- What lies above and is not the directory itself lies above its parent.
      have above {d : FileSystem.Place} (configured : Configured fs d)
          (front : d <+: place ++ [name]) : d <+: place := by
        rcases List.prefix_concat_iff.mp front with rfl | front
        · exact absurd configured here
        · exact front
      rw [if_neg (mt (holds_fileName tree names).mp here)]
      rcases ih before with ⟨d, front, configured, nearest, result⟩ | ⟨none, result⟩
      · left
        refine ⟨d, front.trans (List.prefix_append ..), configured, ?_, result⟩
        intro e inside present
        exact nearest e (above present inside) present
      · right
        refine ⟨fun d front configured => ?_, result⟩
        exact none d (above configured front) configured

/-! ## Configurations that are returned -/

/-- A configuration that loading a file or a directory or searching returns. -/
inductive Returned (fs : FileSystem) (c : Config) : Prop
  | file (p : Bytes) : loadFile fs p = .ok c → Returned fs c
  | directory (d : Bytes) : load fs d = .ok c → Returned fs c
  | search (start : Bytes) : find fs start = .ok (some c) → Returned fs c

theorem Returned.loaded {c : Config} (returned : Returned fs c) : ∃ p, loadFile fs p = .ok c := by
  cases returned with
  | file p loaded => exact ⟨p, loaded⟩
  | directory d loaded => exact ⟨_, loaded⟩
  | search start found =>
    unfold find at found
    dsimp only at found
    split at found
    · cases found
    next d _ =>
      cases loaded : load fs d with
      | error e =>
        rw [loaded] at found
        cases found
      | ok settings =>
        rw [loaded] at found
        cases found
        exact ⟨_, loaded⟩

theorem clean_absolute (rooted : Path.isAbsolute fs.workingDirectory = true) (p : Bytes) :
    Path.isAbsolute (Path.absolute fs.workingDirectory p) = true ∧
      Path.clean (Path.absolute fs.workingDirectory p) =
        Path.absolute fs.workingDirectory p := by
  obtain ⟨place, names, same⟩ := Path.absolute_eq_ofNames rooted p
  rw [same]
  exact ⟨Path.isAbsolute_ofNames place, Path.clean_ofNames names⟩

end Config

end Abacus
