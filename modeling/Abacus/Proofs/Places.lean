import Abacus.Proofs.WrittenFiles
import Mathlib.Data.List.Induction

/-!
# Places and their paths

A place of a file system is a row of names, and its path is those names behind slashes
(`Path.ofNames`). The clean absolute paths are the paths of places, and seen so cleaning does
nothing, joining adds a name, the parent leaves out the last one, and the root is the only place
that is its own parent. Where there are no links a path that leads anywhere leads to the place that
its clean spelling names (`FileSystem.absolute_of_locate`).
-/
namespace Abacus

theorem Bytes.notMem_of_mem_splitOn {separator : UInt8} {s piece : Bytes}
    (member : piece ∈ splitOn separator s) : separator ∉ piece := by
  induction s generalizing piece with
  | nil =>
    obtain rfl := List.mem_singleton.mp member
    simp
  | cons b s ih =>
    rw [splitOn_cons] at member
    split at member
    · rcases List.mem_cons.mp member with rfl | later
      · simp
      · exact ih later
    next other =>
      -- The byte goes in front of the first piece of the rest.
      cases pieces : splitOn separator s with
      | nil => exact absurd pieces (splitOn_ne_nil separator s)
      | cons line others =>
        rw [pieces] at member ih
        rcases List.mem_cons.mp member with rfl | later
        · rw [List.mem_cons, not_or]
          exact ⟨fun same => other (by simp [same]), ih List.mem_cons_self⟩
        · exact ih (List.mem_cons_of_mem _ later)

theorem Bytes.mem_join {separator : Bytes} {parts : List Bytes} {b : UInt8}
    (member : b ∈ join separator parts) : b ∈ separator ∨ ∃ part ∈ parts, b ∈ part := by
  induction parts with
  | nil => cases member
  | cons part parts ih =>
    cases parts with
    | nil => exact .inr ⟨part, List.mem_cons_self, member⟩
    | cons next parts =>
      rw [join, List.mem_append, List.mem_append] at member
      · rcases member with (first | between) | later
        · exact .inr ⟨part, List.mem_cons_self, first⟩
        · exact .inl between
        · refine (ih later).imp_right ?_
          rintro ⟨other, among, within⟩
          exact ⟨other, List.mem_cons_of_mem _ among, within⟩
      · simp

namespace Path

/-- Names of entries, with no slash in them. -/
def Names (place : List Bytes) : Prop := ∀ name ∈ place, IsName name ∧ slash ∉ name

theorem Names.of_concat {place : List Bytes} {name : Bytes} (names : Names (place ++ [name])) :
    Names place ∧ IsName name ∧ slash ∉ name :=
  ⟨fun s member => names s (List.mem_append_left _ member), names name (by simp)⟩

/-- The path of the place that these names lead to from the root. -/
def ofNames (place : List Bytes) : Bytes := slash :: Bytes.join [slash] place

/-! ## Resolving names -/

theorem push_subset (rooted : Bool) (stack : List Bytes) (segment : Bytes) :
    push rooted stack segment ⊆ segment :: stack := by
  unfold push
  split
  · exact List.subset_cons_self ..
  · split
    next up =>
      split
      · split
        · exact List.nil_subset _
        · simp [up]
      next top below =>
        split
        · simp [up]
        · exact fun s member => List.mem_cons_of_mem _ (List.mem_cons_of_mem _ member)
    · exact List.Subset.refl _

theorem foldl_push_subset (rooted : Bool) (parts stack : List Bytes) :
    ∀ s ∈ parts.foldl (push rooted) stack, s ∈ parts ∨ s ∈ stack := by
  induction parts generalizing stack with
  | nil => exact fun s member => .inr member
  | cons part parts ih =>
    intro s member
    rcases ih _ s member with later | now
    · exact .inl (List.mem_cons_of_mem _ later)
    · rcases List.mem_cons.mp (push_subset rooted stack part now) with rfl | old
      · exact .inl List.mem_cons_self
      · exact .inr old

theorem names_resolve {parts : List Bytes} (free : ∀ s ∈ parts, slash ∉ s) :
    Names (resolve true parts) := by
  intro s member
  rw [resolve, List.mem_reverse] at member
  refine ⟨names_foldl_push parts (by simp) s member, ?_⟩
  rcases foldl_push_subset true parts [] s member with inside | none
  · exact free s inside
  · cases none

theorem slash_notMem_of_mem_segments {p : Bytes} : ∀ s ∈ segments p, slash ∉ s :=
  fun _ => Bytes.notMem_of_mem_splitOn

theorem names_resolve_segments (p : Bytes) : Names (resolve true (segments p)) :=
  names_resolve slash_notMem_of_mem_segments

theorem names_resolve_below (d p : Bytes) : Names (resolve true (segments d ++ segments p)) :=
  names_resolve (List.forall_mem_append.mpr
    ⟨slash_notMem_of_mem_segments, slash_notMem_of_mem_segments⟩)

theorem resolve_names {place : List Bytes} (names : Names place) : resolve true place = place := by
  induction place using List.reverseRecOn with
  | nil => rfl
  | append_singleton place name ih =>
    obtain ⟨before, plain, -⟩ := names.of_concat
    rw [resolve_concat true place plain, ih before]

/-- Slashes at the start and at the end add empty segments, which lead nowhere. -/
theorem resolve_nil_cons (parts : List Bytes) :
    resolve true ([] :: parts) = resolve true parts := rfl

theorem resolve_concat_nil (parts : List Bytes) :
    resolve true (parts ++ [[]]) = resolve true parts := by
  simp [resolve, push]

/-! ## Paths of places -/

theorem segments_ofNames {place : List Bytes} (names : Names place) :
    segments (ofNames place) = [] :: if place = [] then [[]] else place := by
  have first : segments (ofNames place) = [] :: segments (Bytes.join [slash] place) := rfl
  rw [first]
  split
  next root =>
    subst root
    rfl
  next below =>
    have parts := Bytes.splitOn_join (fun s member => (names s member).2) below
    rw [segments, parts]

theorem resolve_ofNames {place : List Bytes} (names : Names place) :
    resolve true (segments (ofNames place)) = place := by
  rw [segments_ofNames names, resolve_nil_cons]
  split
  next root =>
    subst root
    rfl
  · exact resolve_names names

theorem isAbsolute_ofNames (place : List Bytes) : isAbsolute (ofNames place) = true := rfl

theorem clean_ofNames {place : List Bytes} (names : Names place) :
    clean (ofNames place) = ofNames place := by
  rw [clean_of_isAbsolute (isAbsolute_ofNames place), resolve_ofNames names]
  rfl

theorem ofNames_injective {place other : List Bytes} (names : Names place) (names' : Names other)
    (same : ofNames place = ofNames other) : place = other := by
  rw [← resolve_ofNames names, same, resolve_ofNames names']

/-- A path seen from an absolute working directory is the path of a place. -/
theorem absolute_eq_ofNames {workingDirectory : Bytes} (rooted : isAbsolute workingDirectory = true)
    (p : Bytes) :
    ∃ place, Names place ∧ absolute workingDirectory p = ofNames place := by
  cases absolute : isAbsolute p with
  | true =>
    refine ⟨_, names_resolve_segments p, ?_⟩
    rw [Path.absolute, if_pos absolute, clean_of_isAbsolute absolute]
    rfl
  | false =>
    refine ⟨_, names_resolve_below workingDirectory p, ?_⟩
    rw [absolute_of_relative rooted absolute]
    rfl

/-! ## Children and parents -/

section Concat

variable {place : List Bytes} {name : Bytes} (names : Names place) (plain : IsName name)
  (free : slash ∉ name)

include plain free in
theorem Names.concat (names : Names place) : Names (place ++ [name]) := by
  intro s member
  rcases List.mem_append.mp member with old | new
  · exact names s old
  · rw [List.mem_singleton.mp new]
    exact ⟨plain, free⟩

include names plain free

theorem join_ofNames : join (ofNames place) name = ofNames (place ++ [name]) := by
  have occupied : name ≠ [] := plain.occupied
  have below : join (ofNames place) name = clean (ofNames place ++ slash :: name) := by
    cases name with
    | nil => exact absurd rfl occupied
    | cons b rest => simp [join, ofNames]
  have absolute : isAbsolute (ofNames place ++ slash :: name) = true := rfl
  rw [below, clean_of_isAbsolute absolute, segments, Bytes.splitOn_append_separator,
    Bytes.splitOn_eq_self free, resolve_concat true _ plain]
  change ofNames (resolve true (segments (ofNames place)) ++ [name]) = _
  rw [resolve_ofNames names]

theorem parent_concat : parent (ofNames (place ++ [name])) = ofNames place := by
  have all := Names.concat plain free names
  have last : afterSlash (ofNames (place ++ [name])) = name := by
    have ends : segments (ofNames (place ++ [name])) = ([] :: place) ++ [name] := by
      rw [segments_ofNames all, if_neg (by simp), List.cons_append]
    exact afterSlash_of_segments ends
  have parts := upToSlash_append_afterSlash (ofNames (place ++ [name]))
  rw [last] at parts
  -- What stands before the last name leads to the same place with and without the last slash.
  obtain ⟨before, split⟩ := segments_upToSlash (ofNames (place ++ [name]))
  have whole := split name free
  have front := split [] (by simp)
  rw [parts, segments_ofNames all, if_neg (by simp), ← List.cons_append] at whole
  obtain ⟨rfl, -⟩ := List.append_inj' whole rfl
  rw [List.append_nil] at front
  have absolute : isAbsolute (upToSlash (ofNames (place ++ [name]))) = true := by
    rw [← isAbsolute_append _ free, parts]
    rfl
  rw [parent, clean_of_isAbsolute absolute, front, resolve_concat_nil, resolve_nil_cons,
    resolve_names names]
  rfl

end Concat

theorem parent_root : parent (ofNames []) = ofNames [] := by decide

/-- The parent of a place leaves out its last name. -/
theorem parent_ofNames {place : List Bytes} (names : Names place) :
    parent (ofNames place) = ofNames place.dropLast := by
  rcases List.eq_nil_or_concat place with rfl | ⟨above, name, rfl⟩
  · exact parent_root
  · rw [List.concat_eq_append] at names ⊢
    obtain ⟨before, plain, free⟩ := names.of_concat
    rw [parent_concat before plain free, List.dropLast_concat]

/-- Only the root is its own parent. -/
theorem parent_eq_self_iff {place : List Bytes} (names : Names place) :
    parent (ofNames place) = ofNames place ↔ place = [] := by
  rw [parent_ofNames names]
  constructor
  · intro same
    have shorter := ofNames_injective (fun s member => names s (List.dropLast_subset _ member))
      names same
    have length := congrArg List.length shorter
    rw [List.length_dropLast] at length
    exact List.length_eq_zero_iff.mp (by omega)
  · rintro rfl
    rfl

theorem ancestors_root : ancestors (ofNames []) = [ofNames []] := by decide

theorem ancestors_concat {place : List Bytes} {name : Bytes} (names : Names (place ++ [name])) :
    ancestors (ofNames (place ++ [name])) =
      ofNames (place ++ [name]) :: ancestors (ofNames place) := by
  obtain ⟨before, -, -⟩ := names.of_concat
  have shape {p : List Bytes} (plain : Names p) : ancestors (ofNames p) =
      (List.range (p.length + 1)).map fun n => ofNames (p.take (p.length - n)) := by
    rw [ancestors, resolve_ofNames plain]
    rfl
  rw [shape names, shape before, List.length_append, List.length_singleton,
    List.range_succ_eq_map, List.map_cons, List.map_map]
  congr 1
  · simp [List.take_of_length_le]
  · apply List.map_congr_left
    intro n _
    rw [Function.comp_apply, Nat.succ_eq_add_one, Nat.add_sub_add_right,
      List.take_append_of_le_length (Nat.sub_le ..)]

end Path

namespace FileSystem

open Abacus.Path (IsName Names ofNames segments)

variable {fs : FileSystem}

/-! ## Spellings and places -/

/-- A path is followed to where resolving its segments leads, if it can be followed at all. -/
theorem walk_resolves {start place : Place} {parts : List Bytes} (names : ∀ s ∈ start, IsName s)
    (walked : fs.walk start parts = .ok place) :
    place = (parts.foldl (Path.push true) start.reverse).reverse := by
  induction parts generalizing start with
  | nil =>
    cases walked
    simp
  | cons segment parts ih =>
    have stack : ∀ s ∈ start.reverse, IsName s := fun s member =>
      names s (List.mem_reverse.mp member)
    -- One segment makes the same step on the place and on the stack of segments.
    have step (next : Place) (same : next.reverse = Path.push true start.reverse segment)
        (onward : fs.walk next parts = .ok place) :
        place = ((segment :: parts).foldl (Path.push true) start.reverse).reverse := by
      rw [List.foldl_cons, ← same]
      refine ih (fun s member => ?_) onward
      have pushed := Path.names_push stack segment
      rw [← same] at pushed
      exact pushed s (List.mem_reverse.mpr member)
    simp only [walk] at walked
    rw [Path.push_of_names stack] at step
    split at walked
    · cases walked
    · cases walked
    · split at walked
      next stays => exact step start (by rw [if_pos stays]) walked
      next moves =>
        rw [if_neg moves] at step
        split at walked
        next up => exact step start.dropLast (by rw [if_pos up, List.tail_reverse]) walked
        next down =>
          split at walked
          · cases walked
          · exact step (start ++ [segment]) (by rw [if_neg down]; simp) walked

/-- The absolute spelling of a path that leads to a place is the path of that place. -/
theorem absolute_of_locate (rooted : Path.isAbsolute fs.workingDirectory = true) {p : Bytes}
    {place : Place} (located : fs.locate p = .ok place) :
    Names place ∧ Path.absolute fs.workingDirectory p = ofNames place := by
  have walked := (locate_eq_ok_iff.mp located).2
  cases absolute : Path.isAbsolute p with
  | true =>
    have origin : fs.origin p = [] := by simp [FileSystem.origin, absolute]
    rw [origin] at walked
    obtain rfl : place = Path.resolve true (segments p) := walk_resolves (by simp) walked
    have clean : Path.absolute fs.workingDirectory p = Path.clean p := by
      simp [Path.absolute, absolute]
    rw [clean, Path.clean_of_isAbsolute absolute]
    exact ⟨Path.names_resolve_segments p, rfl⟩
  | false =>
    have origin : fs.origin p = Path.resolve true (segments fs.workingDirectory) := by
      simp [FileSystem.origin, absolute]
    rw [origin] at walked
    have names : ∀ s ∈ Path.resolve true (segments fs.workingDirectory), IsName s :=
      fun s member => Path.names_foldl_push _ (by simp) s (List.mem_reverse.mp member)
    have resolved := walk_resolves names walked
    rw [Path.resolve, List.reverse_reverse, ← List.foldl_append] at resolved
    rw [Path.absolute_of_relative rooted absolute, resolved]
    exact ⟨Path.names_resolve_below fs.workingDirectory p, rfl⟩

/-! ## Trees -/

/-- A name that an entry can have. -/
structure EntryName (name : Bytes) : Prop extends IsName name where
  noSlash : Path.slash ∉ name
  noZero : 0 ∉ name
  short : name.length ≤ longestName

instance (name : Bytes) : Decidable (EntryName name) :=
  decidable_of_iff ((name ≠ [] ∧ name ≠ Path.here ∧ name ≠ Path.above) ∧ Path.slash ∉ name ∧
      0 ∉ name ∧ name.length ≤ longestName)
    ⟨fun ⟨⟨occupied, notHere, notAbove⟩, others⟩ =>
        ⟨⟨occupied, notHere, notAbove⟩, others.1, others.2.1, others.2.2⟩,
      fun ⟨⟨occupied, notHere, notAbove⟩, noSlash, noZero, short⟩ =>
        ⟨⟨occupied, notHere, notAbove⟩, noSlash, noZero, short⟩⟩

/-- A tree of directories and files: every entry lies in a directory and has a name there. -/
structure Tree (fs : FileSystem) : Prop where
  inDirectories : fs.WellFormed
  named : ∀ entry ∈ fs.entries, ∀ name ∈ entry.1, EntryName name

instance (fs : FileSystem) : Decidable fs.Tree :=
  decidable_of_iff (fs.WellFormed ∧ ∀ entry ∈ fs.entries, ∀ name ∈ entry.1, EntryName name)
    ⟨fun ⟨inDirectories, named⟩ => ⟨inDirectories, named⟩, fun tree => ⟨tree.1, tree.2⟩⟩

theorem Tree.entryName (tree : fs.Tree) {place : Place} {e : Entry}
    (found : fs.lookup? place = some e) : ∀ name ∈ place, EntryName name := by
  by_cases root : place = []
  · rw [root]
    simp
  · exact tree.named _ (mem_entries_of_lookup? root found)

/-- An entry is reached from the root by its names. -/
theorem Tree.walk_place (tree : fs.Tree) {place : Place} {e : Entry}
    (found : fs.lookup? place = some e) : fs.walk [] place = .ok place := by
  -- From the last name up, as every entry lies in a directory that is reached before.
  induction place using List.reverseRecOn generalizing e with
  | nil => rfl
  | append_singleton place name ih =>
    obtain ⟨plain, -, -, short⟩ := tree.entryName found name (by simp)
    have above := tree.inDirectories.above found
    rw [List.dropLast_concat] at above
    rw [walk_append, ih above]
    simp [Except.bind, walk, above, plain.occupied, plain.notHere, plain.notAbove,
      Nat.not_lt.mpr short]

/-- The path of a place leads there if nothing on the way is in its way. -/
theorem walk_ofNames {place : Place} (names : Names place) :
    fs.walk [] (segments (ofNames place)) = fs.walk [] place := by
  have root (rest : List Bytes) : fs.walk [] ([] :: rest) = fs.walk [] rest := rfl
  rw [Path.segments_ofNames names, root]
  split
  next here => rw [here, root]
  · rfl

theorem check_eq_ok_iff {p : Bytes} :
    check p = .ok () ↔ 0 ∉ p ∧ p ≠ [] ∧ p.length ≤ longestPath := by
  unfold check
  split
  next zero => simp [List.contains_iff_mem.mp zero]
  next noZero =>
    have free : 0 ∉ p := by simpa using noZero
    split
    next empty => simp [empty]
    next occupied =>
      split
      next long => simp [Nat.not_le.mpr long]
      next short => simp [free, occupied, Nat.not_lt.mp short]

theorem Tree.check_ofNames (tree : fs.Tree) {place : Place} {e : Entry}
    (found : fs.lookup? place = some e) (short : (ofNames place).length ≤ longestPath) :
    check (ofNames place) = .ok () := by
  have noZero : 0 ∉ ofNames place := by
    intro member
    rcases List.mem_cons.mp member with slash | inside
    · cases slash
    · rcases Bytes.mem_join inside with separator | ⟨name, among, within⟩
      · exact absurd separator (by decide)
      · exact (tree.entryName found name among).noZero within
  exact check_eq_ok_iff.mpr ⟨noZero, List.cons_ne_nil _ _, short⟩

/-- The path of a place names an entry if there is one, and if the path is not too long. -/
theorem Tree.holds_ofNames (tree : fs.Tree) {place : Place} (names : Names place) :
    fs.holds (ofNames place) = true ↔
      (fs.lookup? place).isSome = true ∧ (ofNames place).length ≤ longestPath := by
  have origin : fs.origin (ofNames place) = [] := rfl
  constructor
  · intro present
    unfold holds at present
    split at present
    next found located =>
      obtain ⟨checked, walked⟩ := locate_eq_ok_iff.mp located
      rw [origin] at walked
      -- Where the walk ends is where the segments resolve to, which is the place again.
      have resolved := walk_resolves (by simp) walked
      rw [List.reverse_nil, ← Path.resolve, Path.resolve_ofNames names] at resolved
      exact ⟨resolved ▸ present, (check_eq_ok_iff.mp checked).2.2⟩
    · cases present
  · rintro ⟨present, short⟩
    obtain ⟨e, found⟩ := Option.isSome_iff_exists.mp present
    have located : fs.locate (ofNames place) = .ok place := by
      rw [locate_eq_ok_iff, origin, walk_ofNames names]
      exact ⟨tree.check_ofNames found short, tree.walk_place found⟩
    simp only [holds, located]
    exact present

end FileSystem

end Abacus
