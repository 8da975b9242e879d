import Abacus.Token.Scanner

/-!
# Layout and the moves of a cursor

What stands between tokens is layout: blanks, line breaks, and comments that run to a line break or
to the end of the source. `Layout` says so of bytes and of what follows them. Settling a cursor
passes over layout and stops where none starts.

A cursor only ever moves by `advance`, so everything that is said about offsets and lines is said
of that one function.
-/
namespace Abacus

def isSpace (b : UInt8) : Bool := b == 0x20 || b == 0x09 || b == 0x0d || b == newline

/-- The bytes are layout if `after` follows them. -/
inductive Layout (after : Bytes) : Bytes → Prop
  | nil : Layout after []
  | space {b : UInt8} {s : Bytes} : isSpace b = true → Layout after s → Layout after (b :: s)
  | comment {body s : Bytes} : newline ∉ body →
      (s ++ after = [] ∨ (s ++ after).head? = some newline) → Layout after s →
      Layout after (0x2f :: 0x2f :: (body ++ s))

/-- The bytes begin with a blank, a line break or a comment. -/
def StartsLayout (s : Bytes) : Prop :=
  (∃ b ∈ s.head?, isSpace b = true) ∨ [0x2f, 0x2f] <+: s

theorem StartsLayout.mono {s t : Bytes} (starts : StartsLayout s) (here : s <+: t) :
    StartsLayout t := by
  obtain ⟨after, rfl⟩ := here
  rcases starts with ⟨b, first, space⟩ | slashes
  · left
    exact ⟨b, by simp [List.head?_append, Option.mem_def.mp first], space⟩
  · right
    exact slashes.trans (List.prefix_append ..)

theorem Bytes.newlines_append (s t : Bytes) :
    Bytes.newlines (s ++ t) = Bytes.newlines s + Bytes.newlines t :=
  List.count_append

/-- A blank behind some bytes opens no comment with them. -/
theorem not_startsLayout_append_space {s t : Bytes} {b : UInt8} (stopped : ¬ StartsLayout s)
    (occupied : s ≠ []) (space : isSpace b = true) : ¬ StartsLayout (s ++ b :: t) := by
  obtain ⟨first, rest, rfl⟩ := List.exists_cons_of_ne_nil occupied
  rintro (⟨b', head, blank⟩ | slashes)
  · exact stopped (.inl ⟨b', by simpa using head, blank⟩)
  · -- The second slash would be one of the bytes, or the blank.
    obtain ⟨rfl, second⟩ := List.cons_prefix_cons.mp slashes
    cases rest with
    | nil =>
      obtain ⟨rfl, -⟩ := List.cons_prefix_cons.mp second
      cases space
    | cons second' rest =>
      obtain ⟨rfl, -⟩ := List.cons_prefix_cons.mp second
      exact stopped (.inr ⟨rest, rfl⟩)

/-- Layout stays layout if a line break comes behind all that follows. -/
theorem Layout.append_newline {after gap : Bytes} (layout : Layout after gap) (t : Bytes) :
    Layout (after ++ newline :: t) gap := by
  induction layout with
  | nil => exact .nil
  | space blank _ ih => exact .space blank ih
  | comment quiet boundary _ ih =>
    apply Layout.comment quiet _ ih
    -- A comment that ran to the end now runs to the line break.
    right
    rcases boundary with nothing | broken
    · rw [← List.append_assoc, nothing, List.nil_append, List.head?_cons]
    · rw [← List.append_assoc, List.head?_append, broken, Option.some_or]

/-- Inside a comment: the rest of it, then layout. -/
private def InComment (after s : Bytes) : Prop :=
  ∃ body t, s = body ++ t ∧ newline ∉ body ∧
    (t ++ after = [] ∨ (t ++ after).head? = some newline) ∧ Layout after t

private theorem Layout.of_inComment {after s : Bytes} (slash : (s ++ after).head? = some 0x2f)
    (inside : InComment after s) : Layout after (0x2f :: s) := by
  obtain ⟨body, t, rfl, quiet, boundary, rest⟩ := inside
  -- The second slash belongs to the comment, because neither a line break nor the end is one.
  cases body with
  | nil =>
    rcases boundary with nothing | broken
    · simp [nothing] at slash
    · rw [List.nil_append, broken] at slash
      cases slash
  | cons b body =>
    obtain rfl : b = 0x2f := by simpa using slash
    exact .comment (fun member => quiet (List.mem_cons_of_mem _ member)) boundary rest

namespace Cursor

@[simp] theorem advance_offset (c : Cursor) (n : Nat) : (c.advance n).offset = c.offset + n := rfl

theorem advance_append (gap after : Bytes) (offset line : Nat) :
    (⟨gap ++ after, offset, line⟩ : Cursor).advance gap.length =
      ⟨after, offset + gap.length, line + Bytes.newlines gap⟩ := by
  simp [advance]

/-- The cursor behind a gap, seen from one byte before it. -/
private theorem behind_cons (b : UInt8) (gap after : Bytes) {offset line next : Nat}
    (counted : next = line + Bytes.newlines [b]) :
    (⟨after, offset + 1 + gap.length, next + Bytes.newlines gap⟩ : Cursor) =
      ⟨after, offset + (b :: gap).length, line + Bytes.newlines (b :: gap)⟩ := by
  have lines := Bytes.newlines_append [b] gap
  simp only [List.singleton_append] at lines
  simp only [Cursor.mk.injEq, true_and, List.length_cons]
  omega

private theorem newlines_other {b : UInt8} (other : ¬ (b == newline) = true) :
    Bytes.newlines [b] = 0 := by
  simp [Bytes.newlines, List.count_singleton, other]

/-- What is passed over, in a comment and outside one. -/
private theorem skipLayout_spec (inComment : Bool) (s : Bytes) (offset line : Nat) :
    ∃ gap after, s = gap ++ after ∧
      skipLayout inComment s offset line =
        ⟨after, offset + gap.length, line + Bytes.newlines gap⟩ ∧
      ¬ StartsLayout after ∧
      if inComment then InComment after gap else Layout after gap := by
  fun_induction skipLayout inComment s offset line with
  | case1 inComment offset line =>
    refine ⟨[], [], rfl, rfl, by simp [StartsLayout], ?_⟩
    split
    · exact ⟨[], [], rfl, by simp, .inl rfl, .nil⟩
    · exact .nil
  | case2 inComment b rest offset line broken ih =>
    -- A line break ends a comment and is layout by itself.
    obtain ⟨gap, after, rfl, skipped, stopped, layout⟩ := ih
    obtain rfl : b = newline := by simpa using broken
    have whole : Layout after (newline :: gap) := .space rfl (by simpa using layout)
    refine ⟨newline :: gap, after, rfl, skipped.trans (behind_cons _ gap after rfl), stopped, ?_⟩
    split
    · exact ⟨[], newline :: gap, rfl, by simp, .inr rfl, whole⟩
    · exact whole
  | case3 b rest offset line unbroken ih =>
    obtain ⟨gap, after, rfl, skipped, stopped, layout⟩ := ih
    obtain ⟨body, t, rfl, quiet, boundary, tail⟩ : InComment after gap := by simpa using layout
    have counted : line = line + Bytes.newlines [b] := by simp [newlines_other unbroken]
    have other : newline ≠ b := fun same => unbroken (by simp [same])
    exact ⟨b :: (body ++ t), after, rfl, skipped.trans (behind_cons b _ after counted), stopped,
      b :: body, t, rfl, by simp [other, quiet], boundary, tail⟩
  | case4 inComment b rest offset line unbroken outside blank ih =>
    obtain ⟨gap, after, rfl, skipped, stopped, layout⟩ := ih
    have counted : line = line + Bytes.newlines [b] := by simp [newlines_other unbroken]
    have space : isSpace b = true := by
      simp only [Bool.or_eq_true, beq_iff_eq] at blank
      rcases blank with (rfl | rfl) | rfl <;> rfl
    refine ⟨b :: gap, after, rfl, skipped.trans (behind_cons b gap after counted), stopped, ?_⟩
    rw [if_neg outside]
    exact .space space (by simpa using layout)
  | case5 inComment b rest offset line unbroken outside _ slashes ih =>
    obtain ⟨gap, after, rfl, skipped, stopped, layout⟩ := ih
    have counted : line = line + Bytes.newlines [b] := by simp [newlines_other unbroken]
    simp only [Bool.and_eq_true, beq_iff_eq] at slashes
    obtain ⟨rfl, second⟩ := slashes
    refine ⟨0x2f :: gap, after, rfl, skipped.trans (behind_cons _ gap after counted), stopped, ?_⟩
    rw [if_neg outside]
    exact .of_inComment second (by simpa using layout)
  | case6 inComment b rest offset line unbroken outside blank slashes =>
    refine ⟨[], b :: rest, rfl, rfl, ?_, by rw [if_neg outside]; exact .nil⟩
    rintro (⟨b', first, space⟩ | ⟨t, slashed⟩)
    · obtain rfl : b = b' := by simpa using first
      simp_all [isSpace]
    · obtain ⟨rfl, rfl⟩ : 0x2f = b ∧ 0x2f :: t = rest := by simpa using slashed
      simp at slashes

/-- Settling passes over layout and stops where none starts. -/
theorem settle_layout (c : Cursor) :
    ∃ gap, c.rest = gap ++ c.settle.rest ∧ c.settle = c.advance gap.length ∧
      Layout c.settle.rest gap ∧ ¬ StartsLayout c.settle.rest := by
  obtain ⟨gap, after, split, skipped, stopped, layout⟩ :=
    skipLayout_spec false c.rest c.offset c.line
  have settled : c.settle = ⟨after, c.offset + gap.length, c.line + Bytes.newlines gap⟩ := skipped
  refine ⟨gap, by rw [settled, split], ?_, ?_, ?_⟩
  · rw [settled, ← advance_append, ← split]
  · rw [settled]
    simpa using layout
  · rw [settled]
    exact stopped

/-- A comment is passed over up to what ends it. -/
private theorem skipLayout_comment {body rest : Bytes} (quiet : newline ∉ body)
    (boundary : rest = [] ∨ rest.head? = some newline) (offset line : Nat) :
    skipLayout true (body ++ rest) offset line =
      skipLayout false rest (offset + body.length) line := by
  induction body generalizing offset with
  | nil =>
    rcases boundary with rfl | broken
    · rfl
    · cases rest with
      | nil => rfl
      | cons b rest =>
        obtain rfl : b = newline := by simpa using broken
        simp [skipLayout]
  | cons b body ih =>
    rw [List.mem_cons, not_or] at quiet
    have unbroken : (b == newline) = false := by simpa using fun same => quiet.1 same.symm
    rw [List.cons_append, skipLayout, unbroken]
    simp only [Bool.false_eq_true, if_false, if_true]
    rw [ih quiet.2, List.length_cons, Nat.add_assoc, Nat.add_comm 1]

/-- Layout is passed over, whatever stands behind it. -/
theorem settle_append {after gap : Bytes} (layout : Layout after gap) (offset line : Nat) :
    settle ⟨gap ++ after, offset, line⟩ =
      settle ⟨after, offset + gap.length, line + Bytes.newlines gap⟩ := by
  induction layout generalizing offset line with
  | nil => rfl
  | @space b s blank _ ih =>
    have moved : settle ⟨b :: (s ++ after), offset, line⟩ =
        settle ⟨s ++ after, offset + 1, line + Bytes.newlines [b]⟩ := by
      simp only [isSpace, Bool.or_eq_true, beq_iff_eq] at blank
      rcases blank with ((rfl | rfl) | rfl) | rfl <;> rfl
    rw [List.cons_append, moved, ih]
    have lines := Bytes.newlines_append [b] s
    rw [List.singleton_append] at lines
    rw [lines, List.length_cons, Nat.add_assoc, Nat.add_assoc, Nat.add_comm 1]
  | @comment body s quiet boundary _ ih =>
    have opened : settle ⟨0x2f :: 0x2f :: (body ++ s) ++ after, offset, line⟩ =
        skipLayout true (body ++ (s ++ after)) (offset + 2) line := by
      rw [← List.append_assoc]
      rfl
    have quietBody : body.count newline = 0 := List.count_eq_zero.mpr quiet
    have lines : Bytes.newlines (0x2f :: 0x2f :: (body ++ s)) = Bytes.newlines s := by
      simpa [Bytes.newlines, newline] using quietBody
    have length : offset + 2 + body.length + s.length =
        offset + (0x2f :: 0x2f :: (body ++ s)).length := by
      simp only [List.length_cons, List.length_append]
      omega
    rw [opened, skipLayout_comment quiet boundary, lines, ← length]
    exact ih _ _

theorem settle_eq_self {c : Cursor} (stopped : ¬ StartsLayout c.rest) : c.settle = c := by
  obtain ⟨gap, parts, moved, layout, -⟩ := c.settle_layout
  cases layout with
  | nil => simpa [advance, Bytes.newlines] using moved
  | space blank _ => exact absurd (.inl ⟨_, by simp [parts], blank⟩) stopped
  | comment _ _ _ => exact absurd (.inr ⟨_, parts.symm⟩) stopped

end Cursor

end Abacus
