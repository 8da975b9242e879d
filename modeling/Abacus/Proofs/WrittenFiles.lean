import Abacus.Disk
import Abacus.Proofs.PathNames

/-!
# Files after one of them is written

Writing a file leaves every path where it was: what a path leads to depends only on which places are
directories, and a file is never written over one. So the path that was written is read with the new
content, and every path to another place as before.

A disk refuses to open the file, or spoils it once it is open, or writes it in full
(`Disk.write_ends`). It does the last exactly if every step succeeds (`Disk.write_succeeds_iff`).
-/
namespace Abacus

namespace FileSystem

open Abacus.Path (IsName afterSlash segments)

/-- Everything lies in a directory. -/
def WellFormed (fs : FileSystem) : Prop :=
  ∀ entry ∈ fs.entries, fs.lookup? entry.1.dropLast = some .directory

instance (fs : FileSystem) : Decidable fs.WellFormed :=
  inferInstanceAs (Decidable (∀ entry ∈ fs.entries, _))

variable {fs : FileSystem}

theorem mem_entries_of_lookup? {place : Place} {e : Entry} (below : place ≠ [])
    (found : fs.lookup? place = some e) : (place, e) ∈ fs.entries := by
  rw [lookup?, if_neg below] at found
  obtain ⟨before, after, same, -⟩ := List.lookup_eq_some_iff.mp found
  simp [same]

theorem WellFormed.above (tree : fs.WellFormed) {place : Place} {e : Entry}
    (found : fs.lookup? place = some e) : fs.lookup? place.dropLast = some .directory := by
  by_cases root : place = []
  · rw [root]
    rfl
  · exact tree _ (mem_entries_of_lookup? root found)

/-! ## Following paths -/

theorem locate_eq_ok_iff {p : Bytes} {place : Place} :
    fs.locate p = .ok place ↔
      check p = .ok () ∧ fs.walk (fs.origin p) (segments p) = .ok place := by
  unfold locate
  cases check p with
  | error fault => simp [bind, Except.bind]
  | ok _ => simp [bind, Except.bind]

theorem walk_append (start : Place) (before after : List Bytes) :
    fs.walk start (before ++ after) = (fs.walk start before).bind (fs.walk · after) := by
  induction before generalizing start with
  | nil => rfl
  | cons segment before ih =>
    simp only [List.cons_append, walk]
    cases fs.lookup? start with
    | none => rfl
    | some e =>
      cases e with
      | file _ => rfl
      | directory =>
        dsimp only
        split
        · exact ih _
        · split
          · exact ih _
          · split
            · rfl
            · exact ih _

/-- The last segment is followed from a directory. -/
theorem walk_concat {start place : Place} {before : List Bytes} {segment : Bytes}
    (walked : fs.walk start (before ++ [segment]) = .ok place) :
    ∃ directory, fs.lookup? directory = some .directory ∧
      fs.walk directory [segment] = .ok place := by
  rw [walk_append] at walked
  cases reached : fs.walk start before with
  | error fault =>
    rw [reached] at walked
    cases walked
  | ok directory =>
    rw [reached] at walked
    refine ⟨directory, ?_, walked⟩
    change fs.walk directory [segment] = .ok place at walked
    simp only [walk] at walked
    split at walked
    · cases walked
    · cases walked
    next found => exact found

theorem locate_concat {p : Bytes} {place : Place} (located : fs.locate p = .ok place) :
    ∃ directory, fs.lookup? directory = some .directory ∧
      fs.walk directory [afterSlash p] = .ok place := by
  obtain ⟨before, shape⟩ := Path.segments_eq_concat p
  have walked := (locate_eq_ok_iff.mp located).2
  rw [shape] at walked
  exact walk_concat walked

theorem walk_name {directory place : Place} {name : Bytes} (plain : IsName name)
    (walked : fs.walk directory [name] = .ok place) : place = directory ++ [name] := by
  simp only [walk, plain.occupied, plain.notHere, plain.notAbove, or_self, if_false] at walked
  split at walked
  · cases walked
  · cases walked
  · split at walked
    · cases walked
    · cases walked
      rfl

/-- A path whose last segment is a name leads to an entry of that name. -/
theorem locate_name {p : Bytes} {place : Place} (located : fs.locate p = .ok place)
    (plain : IsName (afterSlash p)) : ∃ directory, place = directory ++ [afterSlash p] := by
  obtain ⟨directory, -, walked⟩ := locate_concat located
  exact ⟨directory, walk_name plain walked⟩

/-- Paths that differ in their last segments only, which are names, lead to entries of one
directory. -/
theorem locate_sibling {p : Bytes} {place other : Place} {name : Bytes}
    (located : fs.locate p = .ok place) (plain : IsName (afterSlash p))
    (found : fs.locate (Path.upToSlash p ++ name) = .ok other) (named : IsName name)
    (free : Path.slash ∉ name) :
    ∃ directory, place = directory ++ [afterSlash p] ∧ other = directory ++ [name] := by
  obtain ⟨before, shape⟩ := Path.segments_upToSlash p
  have own := shape _ (Path.slash_notMem_afterSlash p)
  have origin : fs.origin (Path.upToSlash p ++ name) = fs.origin p := by
    have same := Path.isAbsolute_append (Path.upToSlash p) (Path.slash_notMem_afterSlash p)
    rw [Path.upToSlash_append_afterSlash] at same
    simp only [FileSystem.origin, Path.isAbsolute_append _ free, same]
  have walked := (locate_eq_ok_iff.mp located).2
  have walkedOther := (locate_eq_ok_iff.mp found).2
  rw [Path.upToSlash_append_afterSlash] at own
  rw [own, walk_append] at walked
  rw [shape name free, origin, walk_append] at walkedOther
  cases reached : fs.walk (fs.origin p) before with
  | error fault =>
    rw [reached] at walked
    cases walked
  | ok directory =>
    rw [reached] at walked walkedOther
    exact ⟨directory, walk_name plain walked, walk_name named walkedOther⟩

/-- What can be read has a name, for directories and what is above them cannot. -/
theorem isName_of_read (tree : fs.WellFormed) {p content : Bytes}
    (readable : fs.read p = .ok content) : IsName (afterSlash p) := by
  unfold read at readable
  split at readable
  · cases readable
  next place located =>
    obtain ⟨directory, found, walked⟩ := locate_concat located
    have aFile : fs.lookup? place ≠ some .directory := by
      intro same
      rw [same] at readable
      cases readable
    simp only [walk, found] at walked
    -- The directory itself and the one above it are no files.
    have stays (same : directory = place) : False := aFile (same ▸ found)
    have rises (same : directory.dropLast = place) : False := aFile (same ▸ tree.above found)
    split at walked
    · exact (stays (by simpa using walked)).elim
    next special =>
      rw [not_or] at special
      refine ⟨special.1, special.2, ?_⟩
      intro above
      rw [if_pos above] at walked
      exact rises (by simpa using walked)

/-- What `target` finds once the path is split into a directory and a name. -/
theorem target_named {p : Bytes} {before : List Bytes}
    (shape : segments p = before ++ [afterSlash p]) (occupied : afterSlash p ≠ []) {place : Place}
    (writable : fs.target p = .ok place) :
    check p = .ok () ∧ IsName (afterSlash p) ∧ (afterSlash p).length ≤ longestName ∧
      ∃ directory, fs.walk (fs.origin p) before = .ok directory ∧
        fs.lookup? directory = some .directory ∧ place = directory ++ [afterSlash p] ∧
        fs.lookup? place ≠ some .directory := by
  -- No slash stands at the end, so nothing is dropped there.
  have named : ([afterSlash p] ++ before.reverse).dropWhile (· == []) =
      afterSlash p :: before.reverse := by simp [occupied]
  unfold target at writable
  simp only [shape, List.reverse_append, List.reverse_singleton, named] at writable
  cases checked : check p with
  | error fault =>
    rw [checked] at writable
    cases writable
  | ok _ =>
    rw [checked] at writable
    simp only [List.reverse_reverse, bind, Except.bind] at writable
    split at writable
    · cases writable
    next directory walked =>
      split at writable
      · cases writable
      · cases writable
      next found =>
        simp only [List.singleton_append, List.length_cons, Nat.lt_irrefl, or_false] at writable
        split at writable
        · cases writable
        next plain =>
          rw [not_or] at plain
          split at writable
          · cases writable
          next short =>
            split at writable
            · cases writable
            next vacant =>
              cases writable
              exact ⟨rfl, ⟨occupied, plain.1, plain.2⟩, Nat.not_lt.mp short, directory, walked,
                found, rfl, vacant⟩

theorem target_unnamed {p : Bytes} {before : List Bytes} (shape : segments p = before ++ [[]])
    (place : Place) : fs.target p ≠ .ok place := by
  intro writable
  unfold target at writable
  simp only [shape, List.reverse_append, List.reverse_singleton, List.singleton_append,
    List.dropWhile_cons, BEq.rfl, if_true, List.length_cons] at writable
  generalize dropped : before.reverse.dropWhile (· == ([] : Bytes)) = named at writable
  have shorter : named.length < before.reverse.length + 1 := by
    rw [← dropped]
    exact Nat.lt_succ_of_le (List.dropWhile_sublist _).length_le
  cases checked : check p with
  | error fault =>
    rw [checked] at writable
    cases writable
  | ok _ =>
    rw [checked] at writable
    simp only [bind, Except.bind, shorter, or_true, if_true] at writable
    -- Whatever there is in front of the slash, the path names a directory.
    repeat' split at writable
    all_goals cases writable

/-- A file can be written where a path with a name leads, unless a directory is there. -/
theorem locate_of_target {p : Bytes} {place : Place} (writable : fs.target p = .ok place) :
    fs.locate p = .ok place ∧ IsName (afterSlash p) ∧ fs.lookup? place ≠ some .directory := by
  obtain ⟨before, shape⟩ := Path.segments_eq_concat p
  have occupied : afterSlash p ≠ [] := by
    intro empty
    rw [empty] at shape
    exact target_unnamed shape place writable
  obtain ⟨checked, plain, short, directory, walked, found, rfl, vacant⟩ :=
    target_named shape occupied writable
  refine ⟨locate_eq_ok_iff.mpr ⟨checked, ?_⟩, plain, vacant⟩
  rw [shape, walk_append, walked]
  simp [Except.bind, walk, found, plain.occupied, plain.notHere, plain.notAbove,
    Nat.not_lt.mpr short]

/-! ## Writing a file -/

theorem lookup_filter_ne {place q : Place} (other : q ≠ place) (entries : List (Place × Entry)) :
    (entries.filter (·.1 ≠ place)).lookup q = entries.lookup q := by
  induction entries with
  | nil => rfl
  | cons entry entries ih =>
    obtain ⟨at_, e⟩ := entry
    by_cases same : at_ = place
    · have different : (q == at_) = false := by simpa [same] using other
      rw [List.filter_cons_of_neg (by simp [same]), List.lookup_cons, different, ih]
    · rw [List.filter_cons_of_pos (by simp [same]), List.lookup_cons, List.lookup_cons, ih]

theorem lookup?_put_self (fs : FileSystem) {place : Place} (below : place ≠ []) (e : Entry) :
    (fs.put place e).lookup? place = some e := by
  simp [lookup?, put, below]

theorem lookup?_put_of_ne (fs : FileSystem) {place q : Place} (other : q ≠ place) (e : Entry) :
    (fs.put place e).lookup? q = fs.lookup? q := by
  have different : (q == place) = false := by simpa using other
  simp only [lookup?, put, List.lookup_cons, different, lookup_filter_ne other]

section Put

variable {place : Place} (below : place ≠ []) (vacant : fs.lookup? place ≠ some .directory)
  (content : Bytes)

include below vacant

/-- Where a path leads does not change, for the place of the file was and is no directory. -/
theorem walk_put (start q : Place) (parts : List Bytes) :
    (fs.put place (.file content)).walk start parts = .ok q ↔ fs.walk start parts = .ok q := by
  induction parts generalizing start with
  | nil => simp [walk]
  | cons segment parts ih =>
    -- Only a step from the written place could go another way, and there is none.
    by_cases same : start = place
    · subst same
      simp only [walk, lookup?_put_self fs below]
      constructor
      · intro walked
        cases walked
      · intro walked
        split at walked
        · cases walked
        · cases walked
        next found => exact absurd found vacant
    · simp only [walk, lookup?_put_of_ne fs same]
      split
      · exact Iff.rfl
      · exact Iff.rfl
      · split
        · exact ih _
        · split
          · exact ih _
          · split
            · exact Iff.rfl
            · exact ih _

theorem locate_put (p : Bytes) (q : Place) :
    (fs.put place (.file content)).locate p = .ok q ↔ fs.locate p = .ok q := by
  have origin : (fs.put place (.file content)).origin p = fs.origin p := rfl
  rw [locate_eq_ok_iff, locate_eq_ok_iff, origin, walk_put below vacant]

/-- The written file is read with its new content. -/
theorem read_put_self {p : Bytes} (located : fs.locate p = .ok place) :
    (fs.put place (.file content)).read p = .ok content := by
  have after := (locate_put below vacant content p place).mpr located
  simp [read, after, lookup?_put_self fs below]

theorem read_put_of_ne {p old : Bytes} (elsewhere : fs.locate p ≠ .ok place)
    (readable : fs.read p = .ok old) : (fs.put place (.file content)).read p = .ok old := by
  unfold read at readable
  split at readable
  · cases readable
  next q located =>
    have other : q ≠ place := fun same => elsewhere (same ▸ located)
    have after := (locate_put below vacant content p q).mpr located
    simp only [read, after, lookup?_put_of_ne fs other]
    exact readable

theorem holds_put_of_ne {p : Bytes} (elsewhere : fs.locate p ≠ .ok place) :
    (fs.put place (.file content)).holds p = fs.holds p := by
  cases located : fs.locate p with
  | ok q =>
    have other : q ≠ place := fun same => elsewhere (same ▸ located)
    have after := (locate_put below vacant content p q).mpr located
    simp only [holds, located, after, lookup?_put_of_ne fs other]
  | error fault =>
    cases after : (fs.put place (.file content)).locate p with
    | ok q =>
      have before := (locate_put below vacant content p q).mp after
      rw [located] at before
      cases before
    | error _ => simp only [holds, located, after]

end Put

/-- Of two files that are written to one place the second one stays. -/
theorem put_put (fs : FileSystem) (place : Place) (first second : Entry) :
    (fs.put place first).put place second = fs.put place second := by
  have again : (fs.entries.filter (·.1 ≠ place)).filter (·.1 ≠ place) =
      fs.entries.filter (·.1 ≠ place) := by simp [List.filter_filter]
  simp only [put]
  rw [List.filter_cons_of_neg (by simp), again]

end FileSystem

/-! ## Disks -/

namespace Disk

open FileSystem (Place)

variable {d : Disk} {fs : FileSystem} {p content : Bytes}

/-- A disk gives the content of a file or nothing. -/
theorem read_eq_ok_iff :
    d.read fs p = .ok content ↔ d.unreadable p = none ∧ fs.read p = .ok content := by
  unfold read
  cases d.unreadable p with
  | none => simp
  | some failure => simp

theorem create_eq_ok_iff {place : Place} {opened : FileSystem} :
    d.create fs p = .ok (place, opened) ↔
      d.locked p = none ∧ fs.target p = .ok place ∧ opened = fs.put place (.file []) := by
  unfold create
  cases d.locked p with
  | some fault => simp
  | none =>
    cases fs.target p with
    | error fault => simp [Except.map]
    | ok target =>
      simp only [Except.map, Except.ok.injEq, Prod.mk.injEq, true_and]
      constructor
      · rintro ⟨rfl, rfl⟩
        exact ⟨rfl, rfl⟩
      · rintro ⟨rfl, rfl⟩
        exact ⟨rfl, rfl⟩

/-- Every step of writing a file succeeds. -/
structure Admits (d : Disk) (fs : FileSystem) (p content : Bytes) : Prop where
  unlocked : d.locked p = none
  target : ∃ place, fs.target p = .ok place
  roomy : ∀ n fault, d.room = some (n, fault) → content.length ≤ n
  closes : d.closing = none

/-- What is left of some bytes when writing them fails after the file has been opened. -/
inductive Leaves (d : Disk) (content : Bytes) : Bytes → Prop
  | part {n : Nat} {fault : FileFault} : d.room = some (n, fault) → n < content.length →
      Leaves d content (content.take n)
  | whole {fault : FileFault} : d.closing = some fault → Leaves d content content

/-- How writing a file ends, with the files and the error that there are then. -/
inductive Writing (d : Disk) (fs : FileSystem) (p content : Bytes) :
    FileSystem × Option FileError → Prop
  | refused {fault : FileFault} : d.create fs p = .error fault →
      Writing d fs p content (fs, some ⟨.opening, p, fault⟩)
  | spoiled {place : Place} {left : Bytes} (action : FileAction) (fault : FileFault) :
      fs.target p = .ok place → d.Leaves content left →
      Writing d fs p content (fs.put place (.file left), some ⟨action, p, fault⟩)
  | finished {place : Place} : fs.target p = .ok place → d.Admits fs p content →
      Writing d fs p content (fs.put place (.file content), none)

theorem take_cases (d : Disk) (content : Bytes) :
    (d.take content = (content, none) ∧ ∀ n fault, d.room = some (n, fault) → content.length ≤ n) ∨
      ∃ n fault, d.room = some (n, fault) ∧ n < content.length ∧
        d.take content = (content.take n, some fault) := by
  unfold take
  cases d.room with
  | none => simp
  | some limit =>
    obtain ⟨n, fault⟩ := limit
    by_cases short : n < content.length
    · exact .inr ⟨n, fault, rfl, short, if_pos short⟩
    · left
      refine ⟨if_neg short, ?_⟩
      rintro m reason ⟨rfl, rfl⟩
      exact Nat.not_lt.mp short

theorem write_ends (d : Disk) (fs : FileSystem) (p content : Bytes) :
    Writing d fs p content (d.write fs p content) := by
  unfold write
  cases created : d.create fs p with
  | error fault => exact .refused created
  | ok file =>
    obtain ⟨place, opened⟩ := file
    obtain ⟨unlocked, target, rfl⟩ := create_eq_ok_iff.mp created
    -- That the file was empty in between is not to be seen afterwards.
    rcases d.take_cases content with ⟨whole, roomy⟩ | ⟨n, fault, room, short, part⟩
    · simp only [whole, FileSystem.put_put]
      cases closing : d.closing with
      | none => exact .finished target ⟨unlocked, ⟨place, target⟩, roomy, closing⟩
      | some fault => exact .spoiled _ _ target (.whole closing)
    · simp only [part, FileSystem.put_put]
      exact .spoiled _ _ target (.part room short)

/-- A failed attempt leaves the files as they were, or spoils the one at the place of the path. -/
theorem write_failed {files : FileSystem} {e : FileError}
    (attempt : d.write fs p content = (files, some e)) :
    files = fs ∨ ∃ place left, fs.target p = .ok place ∧ d.Leaves content left ∧
      files = fs.put place (.file left) := by
  have ends := d.write_ends fs p content
  rw [attempt] at ends
  cases ends with
  | refused => exact .inl rfl
  | spoiled _ _ target leaves => exact .inr ⟨_, _, target, leaves, rfl⟩

theorem write_finished {files : FileSystem} (attempt : d.write fs p content = (files, none)) :
    d.Admits fs p content ∧
      ∃ place, fs.target p = .ok place ∧ files = fs.put place (.file content) := by
  have ends := d.write_ends fs p content
  rw [attempt] at ends
  cases ends with
  | finished target admits => exact ⟨admits, _, target, rfl⟩

theorem Admits.write_eq (admits : d.Admits fs p content) {place : Place}
    (target : fs.target p = .ok place) :
    d.write fs p content = (fs.put place (.file content), none) := by
  have created := create_eq_ok_iff.mpr ⟨admits.unlocked, target, rfl⟩
  rcases d.take_cases content with ⟨whole, -⟩ | ⟨n, fault, room, short, -⟩
  · simp only [write, created, whole, admits.closes, FileSystem.put_put, Option.map_none]
  · exact absurd short (Nat.not_lt.mpr (admits.roomy n fault room))

/-- A file is written without an error exactly if no step of it fails. -/
theorem write_succeeds_iff : (d.write fs p content).2 = none ↔ d.Admits fs p content := by
  constructor
  · intro succeeds
    exact (write_finished (Prod.ext rfl succeeds)).1
  · intro admits
    obtain ⟨place, target⟩ := admits.target
    rw [admits.write_eq target]

/-- A disk that never fails admits every file that has a place. -/
theorem working_admits {place : Place} (target : fs.target p = .ok place) :
    working.Admits fs p content := by
  refine ⟨rfl, ⟨place, target⟩, ?_, rfl⟩
  intro n fault limited
  cases limited

/-- What can be read stays the same when a file is written at another place. -/
theorem read_put_of_ne {place : Place} (below : place ≠ [])
    (vacant : fs.lookup? place ≠ some .directory) (new : Bytes)
    (elsewhere : fs.locate p ≠ .ok place) (readable : d.read fs p = .ok content) :
    d.read (fs.put place (.file new)) p = .ok content := by
  obtain ⟨healthy, found⟩ := read_eq_ok_iff.mp readable
  have kept := FileSystem.read_put_of_ne below vacant new elsewhere found
  exact read_eq_ok_iff.mpr ⟨healthy, kept⟩

theorem holds_put_of_ne {place : Place} (below : place ≠ [])
    (vacant : fs.lookup? place ≠ some .directory) (new : Bytes)
    (elsewhere : fs.locate p ≠ .ok place) :
    d.holds (fs.put place (.file new)) p = d.holds fs p := by
  unfold holds
  rw [FileSystem.holds_put_of_ne below vacant new elsewhere]

end Disk

end Abacus
