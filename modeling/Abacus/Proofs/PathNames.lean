import Abacus.Path
import Abacus.Proofs.TextLines
import Mathlib.Data.List.TakeWhile

/-!
# The name at the end of a path

What stands after the last slash of a path is its last segment. If that is a name, not empty and
neither `.` nor `..`, then cleaning a path, putting it below a directory and making it absolute all
keep it, however the path is spelled. So two paths with different names at their end never lead to
the same absolute path.

In an absolute path only names are left after cleaning, since nothing lies above the root.
-/
namespace Abacus

namespace Bytes

/-- Only the part behind the last separator stands at the end. -/
theorem join_concat (separator : Bytes) (parts : List Bytes) (last : Bytes) :
    join separator (parts ++ [last]) = last ∨
      ∃ before, join separator (parts ++ [last]) = before ++ separator ++ last := by
  induction parts with
  | nil => exact .inl rfl
  | cons part others ih =>
    right
    have unfolded : join separator (part :: others ++ [last]) =
        part ++ separator ++ join separator (others ++ [last]) := by
      rw [join_eq, join_eq, List.cons_append, List.intercalate_cons_of_ne_nil (by simp)]
    rw [unfolded]
    rcases ih with same | ⟨before, same⟩
    · exact ⟨part, by rw [same]⟩
    · exact ⟨part ++ separator ++ before, by rw [same]; simp⟩

end Bytes

namespace Path

/-- A segment that names an entry of a directory. -/
structure IsName (segment : Bytes) : Prop where
  occupied : segment ≠ []
  notHere : segment ≠ here
  notAbove : segment ≠ above

/-! ## What stands after the last slash -/

theorem slash_notMem_afterSlash (p : Bytes) : slash ∉ afterSlash p := by
  intro member
  have kept := List.mem_takeWhile_imp (List.mem_reverse.mp member)
  simp at kept

theorem upToSlash_append_afterSlash (p : Bytes) : upToSlash p ++ afterSlash p = p := by
  rw [upToSlash, afterSlash, ← List.reverse_append, List.takeWhile_append_dropWhile,
    List.reverse_reverse]

theorem upToSlash_cases (p : Bytes) :
    upToSlash p = [] ∨ ∃ before, upToSlash p = before ++ [slash] := by
  cases remaining : p.reverse.dropWhile (· != slash) with
  | nil =>
    left
    simp [upToSlash, remaining]
  | cons b rest =>
    right
    have stop : (b != slash) = false := by
      have first := List.head?_dropWhile_not (· != slash) p.reverse
      simpa [remaining] using first
    obtain rfl : b = slash := by simpa using stop
    exact ⟨rest.reverse, by simp [upToSlash, remaining]⟩

theorem afterSlash_cases (p : Bytes) :
    afterSlash p = p ∨ ∃ before, p = before ++ slash :: afterSlash p := by
  have parts := upToSlash_append_afterSlash p
  rcases upToSlash_cases p with none | ⟨before, ends⟩
  · rw [none, List.nil_append] at parts
    exact .inl parts
  · rw [ends, List.append_assoc, List.singleton_append] at parts
    exact .inr ⟨before, parts.symm⟩

theorem afterSlash_eq_self {s : Bytes} (free : slash ∉ s) : afterSlash s = s := by
  rcases afterSlash_cases s with same | ⟨before, parts⟩
  · exact same
  · exact absurd (parts ▸ List.mem_append_right before List.mem_cons_self) free

theorem segments_eq_concat (p : Bytes) : ∃ before, segments p = before ++ [afterSlash p] := by
  have last := Bytes.splitOn_eq_self (slash_notMem_afterSlash p)
  rcases afterSlash_cases p with same | ⟨before, parts⟩
  · rw [same] at last
    exact ⟨[], by rw [segments, last, same]; rfl⟩
  · refine ⟨segments before, ?_⟩
    rw [segments, congrArg (Bytes.splitOn slash) parts, Bytes.splitOn_append_separator, last]
    rfl

theorem afterSlash_of_segments {p name : Bytes} {before : List Bytes}
    (shape : segments p = before ++ [name]) : afterSlash p = name := by
  obtain ⟨others, same⟩ := segments_eq_concat p
  obtain ⟨-, last⟩ := List.append_inj' (same.symm.trans shape) rfl
  exact (List.cons.inj last).1

theorem afterSlash_append_slash (s p : Bytes) : afterSlash (s ++ slash :: p) = afterSlash p := by
  obtain ⟨before, shape⟩ := segments_eq_concat p
  apply afterSlash_of_segments
  rw [segments, Bytes.splitOn_append_separator]
  change segments s ++ segments p = _
  rw [shape, ← List.append_assoc]

/-- Another name behind the same directory is another last segment. -/
theorem segments_upToSlash (p : Bytes) :
    ∃ before, ∀ name, slash ∉ name → segments (upToSlash p ++ name) = before ++ [name] := by
  rcases upToSlash_cases p with none | ⟨front, ends⟩
  · refine ⟨[], fun name free => ?_⟩
    rw [none, List.nil_append, segments, Bytes.splitOn_eq_self free]
    rfl
  · refine ⟨segments front, fun name free => ?_⟩
    rw [ends, List.append_assoc, List.singleton_append, segments, Bytes.splitOn_append_separator,
      Bytes.splitOn_eq_self free]
    rfl

theorem isAbsolute_append (p : Bytes) {name : Bytes} (free : slash ∉ name) :
    isAbsolute (p ++ name) = isAbsolute p := by
  cases p with
  | cons b rest => rfl
  | nil =>
    cases name with
    | nil => rfl
    | cons b rest =>
      rw [List.mem_cons, not_or] at free
      simpa [isAbsolute] using fun same => free.1 same.symm

/-! ## Other spellings of a path -/

theorem resolve_concat (rooted : Bool) (parts : List Bytes) {name : Bytes} (plain : IsName name) :
    resolve rooted (parts ++ [name]) = resolve rooted parts ++ [name] := by
  simp [resolve, push, plain.occupied, plain.notHere, plain.notAbove]

theorem afterSlash_join_concat (parts : List Bytes) {name : Bytes} (free : slash ∉ name) :
    afterSlash (Bytes.join [slash] (parts ++ [name])) = name := by
  rcases Bytes.join_concat [slash] parts name with same | ⟨before, same⟩
  · rw [same, afterSlash_eq_self free]
  · rw [same, List.append_assoc, List.singleton_append, afterSlash_append_slash,
      afterSlash_eq_self free]

theorem afterSlash_clean {p : Bytes} (plain : IsName (afterSlash p)) :
    afterSlash (clean p) = afterSlash p := by
  obtain ⟨before, shape⟩ := segments_eq_concat p
  have free := slash_notMem_afterSlash p
  unfold clean
  -- Resolving cannot cancel the last segment, since it is a name.
  rw [shape, resolve_concat _ _ plain]
  dsimp only
  split
  · have joined := afterSlash_join_concat (resolve (isAbsolute p) before) free
    rw [← List.nil_append (slash :: _), afterSlash_append_slash]
    exact joined
  · rw [if_neg (by simp)]
    exact afterSlash_join_concat _ free

theorem afterSlash_join (directory : Bytes) {p : Bytes} (plain : IsName (afterSlash p)) :
    afterSlash (join directory p) = afterSlash p := by
  unfold join
  split
  · rfl
  · exact afterSlash_clean plain
  · have below := afterSlash_append_slash directory p
    rw [List.append_assoc, List.singleton_append, afterSlash_clean (below ▸ plain), below]

theorem afterSlash_absolute (workingDirectory : Bytes) {p : Bytes} (plain : IsName (afterSlash p)) :
    afterSlash (absolute workingDirectory p) = afterSlash p := by
  unfold absolute
  split
  · exact afterSlash_clean plain
  · exact afterSlash_join workingDirectory plain

/-! ## Clean paths -/

/-- On a stack of names `..` takes away the last one. -/
theorem push_of_names {stack : List Bytes} (names : ∀ s ∈ stack, IsName s) (segment : Bytes) :
    push true stack segment =
      if segment = [] ∨ segment = here then stack
      else if segment = above then stack.tail
      else segment :: stack := by
  unfold push
  split
  · rfl
  · split
    · cases stack with
      | nil => rfl
      | cons top below =>
        have plain := names top List.mem_cons_self
        simp [plain.notAbove]
    · rfl

theorem names_push {stack : List Bytes} (names : ∀ s ∈ stack, IsName s) (segment : Bytes) :
    ∀ s ∈ push true stack segment, IsName s := by
  rw [push_of_names names]
  split
  · exact names
  next special =>
    rw [not_or] at special
    split
    · exact fun s member => names s (List.mem_of_mem_tail member)
    next other =>
      intro s member
      rcases List.mem_cons.mp member with rfl | old
      · exact ⟨special.1, special.2, other⟩
      · exact names s old

theorem names_foldl_push (parts : List Bytes) {stack : List Bytes}
    (names : ∀ s ∈ stack, IsName s) : ∀ s ∈ parts.foldl (push true) stack, IsName s := by
  induction parts generalizing stack with
  | nil => exact names
  | cons part parts ih => exact ih (names_push names part)

theorem clean_of_isAbsolute {p : Bytes} (absolute : isAbsolute p = true) :
    clean p = slash :: Bytes.join [slash] (resolve true (segments p)) := by
  simp [clean, absolute]

/-- A relative path is put below the working directory. -/
theorem absolute_of_relative {workingDirectory p : Bytes}
    (rooted : isAbsolute workingDirectory = true) (relative : isAbsolute p = false) :
    absolute workingDirectory p =
      slash :: Bytes.join [slash] (resolve true (segments workingDirectory ++ segments p)) := by
  obtain ⟨b, rest, rfl⟩ : ∃ b rest, workingDirectory = b :: rest := by
    cases workingDirectory with
    | nil => cases rooted
    | cons b rest => exact ⟨b, rest, rfl⟩
  have below : absolute (b :: rest) p = clean (b :: rest ++ slash :: p) := by
    simp [absolute, relative, join]
  have longer : isAbsolute (b :: rest ++ slash :: p) = true := rooted
  rw [below, clean_of_isAbsolute longer, segments, Bytes.splitOn_append_separator]
  rfl

end Path

end Abacus
