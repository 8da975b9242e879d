import Abacus.Text.Bytes
import Mathlib.Data.List.TakeWhile

/-!
# The lines of a text

A text is its lines, each with a line break behind it, and what follows the last line break. There
is one way to split it so (`Splits.unique`), and `Bytes.lines` gives those parts in a row. Splitting
and joining are the functions of the library (`Bytes.splitOn_eq`, `Bytes.join_eq`), which has what
holds of them in general.
-/
namespace Abacus

namespace Bytes

theorem splitOn_cons (separator b : UInt8) (s : Bytes) :
    splitOn separator (b :: s) =
      if b == separator then [] :: splitOn separator s else consLine b (splitOn separator s) := rfl

theorem splitOn_eq (separator : UInt8) (s : Bytes) :
    splitOn separator s = List.splitOn separator s := by
  induction s with
  | nil => rfl
  | cons b s ih =>
    rw [splitOn_cons, List.splitOn_cons_eq_if_modifyHead, ih]
    -- The two differ where there is no piece to put the byte in front of, and there always is one.
    cases pieces : List.splitOn separator s with
    | nil => exact absurd pieces (List.splitOn_ne_nil separator s)
    | cons piece others => rfl

theorem join_eq (separator : Bytes) (parts : List Bytes) :
    join separator parts = List.intercalate separator parts := by
  induction parts with
  | nil => rfl
  | cons part others ih =>
    cases others with
    | nil => exact List.intercalate_singleton.symm
    | cons next others =>
      rw [List.intercalate_cons_cons, ← ih]
      rfl

theorem splitOn_ne_nil (separator : UInt8) (s : Bytes) : splitOn separator s ≠ [] := by
  rw [splitOn_eq]
  exact List.splitOn_ne_nil separator s

theorem splitOn_eq_self {separator : UInt8} {s : Bytes} (free : separator ∉ s) :
    splitOn separator s = [s] := by
  rw [splitOn_eq, List.splitOn_eq_singleton free]

theorem splitOn_append_separator (separator : UInt8) (s t : Bytes) :
    splitOn separator (s ++ separator :: t) = splitOn separator s ++ splitOn separator t := by
  simp only [splitOn_eq, List.splitOn_append_cons_self]

theorem splitOn_join {separator : UInt8} {parts : List Bytes}
    (free : ∀ part ∈ parts, separator ∉ part) (occupied : parts ≠ []) :
    splitOn separator (join [separator] parts) = parts := by
  rw [splitOn_eq, join_eq, List.splitOn_intercalate separator free occupied]

/-! ## The first separator -/

section FirstSeparator

variable {separator : UInt8} {s : Bytes}

theorem forall_bne_of_notMem (free : separator ∉ s) : ∀ b ∈ s, (b != separator) = true := by
  intro b member
  exact bne_iff_ne.mpr fun same => free (same ▸ member)

theorem takeWhile_of_notMem (free : separator ∉ s) : s.takeWhile (· != separator) = s :=
  List.takeWhile_eq_self_iff.mpr (forall_bne_of_notMem free)

theorem takeWhile_append_separator (free : separator ∉ s) (t : Bytes) :
    (s ++ separator :: t).takeWhile (· != separator) = s := by
  rw [List.takeWhile_append_of_pos (forall_bne_of_notMem free)]
  simp

theorem cut_of_notMem (free : separator ∉ s) : cut separator s = (s, []) := by
  have nothing := List.dropWhile_eq_nil_iff.mpr (forall_bne_of_notMem free)
  rw [cut, takeWhile_of_notMem free, nothing]
  rfl

theorem cut_at (free : separator ∉ s) (t : Bytes) :
    cut separator (s ++ separator :: t) = (s, t) := by
  rw [cut, takeWhile_append_separator free,
    List.dropWhile_append_of_pos (forall_bne_of_notMem free)]
  simp

end FirstSeparator

end Bytes

/-- The lines of a text that end in a line break, and what follows the last of them. -/
structure Splits (s : Bytes) (terminated : List Bytes) (rest : Bytes) : Prop where
  text_eq : s = terminated.flatMap (· ++ [newline]) ++ rest
  lines : ∀ line ∈ terminated, newline ∉ line
  open_rest : newline ∉ rest

theorem Splits.last {s : Bytes} (free : newline ∉ s) : Splits s [] s :=
  ⟨rfl, by simp, free⟩

theorem Splits.cons {s line rest : Bytes} {terminated : List Bytes} (free : newline ∉ line)
    (splits : Splits s terminated rest) :
    Splits (line ++ newline :: s) (line :: terminated) rest where
  text_eq := by simp [splits.text_eq]
  lines := List.forall_mem_cons.mpr ⟨free, splits.lines⟩
  open_rest := splits.open_rest

theorem Splits.lines_eq {s rest : Bytes} {terminated : List Bytes}
    (splits : Splits s terminated rest) : Bytes.lines s = terminated ++ [rest] := by
  obtain ⟨rfl, lines, free⟩ := splits
  induction terminated with
  | nil => exact Bytes.splitOn_eq_self free
  | cons line others ih =>
    rw [List.forall_mem_cons] at lines
    have later := ih lines.2
    rw [List.flatMap_cons, List.append_assoc, List.append_assoc, List.singleton_append, Bytes.lines,
      Bytes.splitOn_append_separator, Bytes.splitOn_eq_self lines.1]
    exact congrArg (line :: ·) later

theorem Splits.unique {s rest rest' : Bytes} {terminated terminated' : List Bytes}
    (splits : Splits s terminated rest) (splits' : Splits s terminated' rest') :
    terminated' = terminated ∧ rest' = rest := by
  have same : terminated' ++ [rest'] = terminated ++ [rest] :=
    splits'.lines_eq.symm.trans splits.lines_eq
  obtain ⟨lines, last⟩ := List.append_inj' same rfl
  exact ⟨lines, (List.cons.inj last).1⟩

theorem splits_exist (s : Bytes) : ∃ terminated rest, Splits s terminated rest := by
  induction s with
  | nil => exact ⟨[], [], .last List.not_mem_nil⟩
  | cons b s ih =>
    obtain ⟨terminated, rest, splits⟩ := ih
    by_cases lineBreak : b = newline
    · subst lineBreak
      exact ⟨[] :: terminated, rest, splits.cons List.not_mem_nil⟩
    · -- The byte belongs to the first line, which may be the one without a line break.
      obtain ⟨rfl, lines, free⟩ := splits
      cases terminated with
      | nil =>
        exact ⟨[], b :: rest, .last (List.not_mem_cons_of_ne_of_not_mem (Ne.symm lineBreak) free)⟩
      | cons line others =>
        rw [List.forall_mem_cons] at lines
        refine ⟨(b :: line) :: others, rest, by simp, ?_, free⟩
        rw [List.forall_mem_cons]
        exact ⟨List.not_mem_cons_of_ne_of_not_mem (Ne.symm lineBreak) lines.1, lines.2⟩

namespace Splits

variable {s rest : Bytes} {terminated : List Bytes} (splits : Splits s terminated rest)

include splits

theorem newlines_eq : Bytes.newlines s = terminated.length := by
  obtain ⟨rfl, lines, free⟩ := splits
  induction terminated with
  | nil => exact List.count_eq_zero.mpr free
  | cons line others ih =>
    rw [List.forall_mem_cons] at lines
    have later := ih lines.2
    have first : Bytes.newlines line = 0 := List.count_eq_zero.mpr lines.1
    simp only [Bytes.newlines, List.flatMap_cons, List.count_append, List.count_singleton_self,
      List.length_cons] at later first ⊢
    omega

theorem takeWhile_reverse : s.reverse.takeWhile (· != newline) = rest.reverse := by
  obtain ⟨rfl, -, free⟩ := splits
  have kept := Bytes.forall_bne_of_notMem (mt List.mem_reverse.mp free)
  rw [List.reverse_append, List.takeWhile_append_of_pos kept]
  rcases List.eq_nil_or_concat terminated with rfl | ⟨others, line, rfl⟩
  · simp
  · simp

theorem lines_append (t : Bytes) :
    Bytes.lines (s ++ t) = terminated ++ Bytes.lines (rest ++ t) := by
  obtain ⟨rfl, lines, -⟩ := splits
  induction terminated with
  | nil => rfl
  | cons line others ih =>
    rw [List.forall_mem_cons] at lines
    have later := ih lines.2
    have parts : (line :: others).flatMap (· ++ [newline]) ++ rest ++ t =
        line ++ newline :: (others.flatMap (· ++ [newline]) ++ rest ++ t) := by simp
    rw [parts, Bytes.lines, Bytes.splitOn_append_separator, Bytes.splitOn_eq_self lines.1]
    exact congrArg (line :: ·) later

end Splits

/-- Bytes without a line break extend the first line of what follows them. -/
theorem lines_open_append {front : Bytes} (free : newline ∉ front) (s : Bytes) :
    ∃ line others, Bytes.lines (front ++ s) = (front ++ line) :: others := by
  induction front with
  | nil =>
    cases lines : Bytes.lines s with
    | nil => exact absurd lines (Bytes.splitOn_ne_nil newline s)
    | cons line others => exact ⟨line, others, lines⟩
  | cons b front ih =>
    rw [List.mem_cons, not_or] at free
    obtain ⟨line, others, lines⟩ := ih free.2
    refine ⟨line, others, ?_⟩
    rw [List.cons_append, Bytes.lines_cons, if_neg (by simpa using fun same => free.1 same.symm),
      lines]
    rfl

end Abacus
