import Abacus.Proofs.CompiledArtifacts
import Abacus.Proofs.OpenDocuments
import Abacus.Proofs.Positions
import Abacus.Proofs.TokenSpans

/-!
# What a hover is about

A position is turned into an offset, the offset into a token and the token into a range again. The
spans of tokens do not overlap, so there is one token at most whose bytes include the one at the
offset, and as a position and an offset mark each other (`Position.Marks.unique`), its range is
around the position and reads back as its lexeme. A position behind the end of its line counts as
the end of the line.

The value that is shown is that of the line of the position. It is there whenever it is wanted, the
worker is in service and the line compiles, because what compiles never faults.
-/
namespace Abacus

/-- The token is no error and not the end, and its lexeme includes the byte at an offset. -/
def Token.Includes (t : Token) (offset : Nat) : Prop :=
  t.kind ≠ .endOfInput ∧ t.kind ≠ .error ∧ t.offset ≤ offset ∧ offset < t.offset + t.lexeme.length

instance (t : Token) (offset : Nat) : Decidable (t.Includes offset) :=
  inferInstanceAs (Decidable (_ ∧ _))

/-! ## One token -/

/-- Of elements that exclude each other there is one at most. -/
theorem filter_eq_singleton {α : Type} {l : List α} {R : α → α → Prop} {p : α → Bool} {a : α}
    (apart : l.Pairwise R) (excludes : ∀ x y, R x y → p x = true → p y = false) (member : a ∈ l)
    (holds : p a = true) : l.filter p = [a] := by
  have inside : a ∈ l.filter p := List.mem_filter.mpr ⟨member, holds⟩
  have others := apart.filter p
  have all : ∀ x ∈ l.filter p, p x = true := fun x found => (List.mem_filter.mp found).2
  cases shape : l.filter p with
  | nil =>
    rw [shape] at inside
    cases inside
  | cons x rest =>
    rw [shape] at inside others all
    cases rest with
    | nil => rw [List.mem_singleton.mp inside]
    | cons y rest =>
      have first := (List.pairwise_cons.mp others).1 y List.mem_cons_self
      have second := all y (by simp)
      rw [excludes x y first (all x List.mem_cons_self)] at second
      cases second

namespace Document

variable {s : Bytes}

theorem tokenAtOffset?_eq (offset : Nat) :
    tokenAtOffset? s offset = ((tokenize s).filter (decide <| ·.Includes offset)).head? := by
  rw [List.head?_filter, tokenAtOffset?]
  congr 1
  funext t
  rw [Bool.eq_iff_iff, decide_eq_true_iff, Token.Includes]
  simp [Token.isEnd, Token.isError, and_assoc]

theorem filter_includes {t : Token} {offset : Nat} (member : t ∈ tokenize s)
    (includes : t.Includes offset) :
    (tokenize s).filter (decide <| ·.Includes offset) = [t] := by
  refine filter_eq_singleton (tokenize_pairwise s) (fun x y behind here => ?_) member
    (decide_eq_true includes)
  obtain ⟨-, sound, -, before⟩ := of_decide_eq_true here
  have stop : x.stop s = x.offset + x.lexeme.length := by simp [Token.stop, Token.width, sound]
  apply decide_eq_false
  rintro ⟨-, -, after, -⟩
  omega

theorem tokenAtOffset?_eq_some_iff {t : Token} {offset : Nat} :
    tokenAtOffset? s offset = some t ↔ t ∈ tokenize s ∧ t.Includes offset := by
  rw [tokenAtOffset?_eq]
  constructor
  · intro found
    have inside := List.mem_of_head? found
    obtain ⟨member, includes⟩ := List.mem_filter.mp inside
    exact ⟨member, of_decide_eq_true includes⟩
  · rintro ⟨member, includes⟩
    rw [filter_includes member includes]
    rfl

end Document

/-! ## Its range -/

namespace Document

variable {s : Bytes} (short : s.length < 4294967296)

include short in
/-- Around the offset of a position, ranges are around the position. -/
theorem positionAt_surrounds {p : Position} {offset i j : Nat} (marks : p.Marks s offset)
    (before : i ≤ offset) (after : offset < j) (inside : j ≤ s.length) :
    (positionAt s i).le p ∧ p.lt (positionAt s j) := by
  have within : offset ≤ s.length := Nat.le_trans (Nat.le_of_lt after) inside
  have here : p = positionAt s offset := marks.unique (marks_positionAt short within)
  rw [here]
  exact ⟨positionAt_mono short before within, positionAt_lt short after inside⟩

/-- The range reads back as the lexeme. -/
def Spells (s : Bytes) (r : Range) (lexeme : Bytes) : Prop :=
  ∃ i j, offsetAt? s r.start = some i ∧ offsetAt? s r.stop = some j ∧ i ≤ j ∧
    (s.drop i).take (j - i) = lexeme

include short in
theorem tokenRange_spells {t : Token} (member : t ∈ tokenize s) (sound : t.kind ≠ .error) :
    Spells s (tokenRange s t) t.lexeme := by
  have read := Token.readFrom_of_mem member
  have inside : t.offset + t.lexeme.length ≤ s.length := by
    simpa [Token.stop, Token.width, sound] using read.inside
  have start := marks_positionAt short (Nat.le_trans (Nat.le_add_right ..) inside)
  refine ⟨_, _, start.offset_eq, (marks_positionAt short inside).offset_eq,
    Nat.le_add_right .., ?_⟩
  rw [Nat.add_sub_cancel_left]
  exact (read.lexeme sound).symm

end Document

/-! ## The value of a line -/

namespace Hover

/-- A line has a value if it compiles, the one that any machine with the compiler of the language
comes to. -/
theorem valueOf_spec (m : Machine) (source : Bytes) :
    ((valueOf m.arithmetic source).isSome ↔ ∃ c, compile source = .ok c) ∧
    ∀ printed ∈ valueOf m.arithmetic source, ∃ v,
      ((m.useFrontEnd (some .standard)).interpret source).result = .ok v ∧ printed = v.print := by
  have result := (m.useFrontEnd (some .standard)).interpret_result source
  simp only [Machine.useFrontEnd, FrontEnd.chunk_standard] at result
  unfold valueOf
  cases compiled : compile source with
  | error e => simp
  | ok c =>
    obtain ⟨v, ran⟩ := run_of_compile compiled m.arithmetic
    simp only [compiled, Except.mapError, ran] at result
    simp only [ran, Machine.useFrontEnd]
    refine ⟨by simp, fun printed same => ⟨v, result, ?_⟩⟩
    exact (Option.some.inj same).symm

open Document

end Hover

end Abacus
