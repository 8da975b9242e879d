import Abacus.Sink

/-!
# Writing to sinks

A sink that never fails takes every piece that it is offered. One that fails after some writes takes
that many pieces from the front and refuses the next one, and nothing behind that is offered.
-/
namespace Abacus.Sink

theorem writeAll_unlimited (s : Sink) (unlimited : s.left = none) (pieces : List Bytes) :
    (s.writeAll pieces).2 = true ∧
      (s.writeAll pieces).1.content = s.content ++ pieces.flatten := by
  induction pieces generalizing s with
  | nil => simp [writeAll]
  | cons piece others ih =>
    have taken : s.write piece = ({ s with pieces := piece :: s.pieces }, true) := by
      simp [write, unlimited]
    obtain ⟨accepted, content⟩ := ih { s with pieces := piece :: s.pieces } unlimited
    rw [writeAll, taken]
    refine ⟨accepted, content.trans ?_⟩
    simp [Sink.content]

theorem writeAll_limited (n : Nat) (accepted refused pieces : List Bytes) :
    writeAll ⟨some n, accepted, refused⟩ pieces =
      (⟨some (n - pieces.length), (pieces.take n).reverse ++ accepted,
        pieces[n]?.toList ++ refused⟩, decide (pieces.length ≤ n)) := by
  induction pieces generalizing n accepted with
  | nil => simp [writeAll]
  | cons piece others ih =>
    cases n with
    -- The first piece is refused, and the others are not offered.
    | zero => simp [writeAll, write]
    | succ n =>
      simp only [writeAll, write, ih]
      simp

/-- A sink takes all of some pieces if it accepts that many more writes. -/
theorem writeAll_accepts_iff (s : Sink) (pieces : List Bytes) :
    (s.writeAll pieces).2 = true ↔ ∀ n, s.left = some n → pieces.length ≤ n := by
  obtain ⟨left, accepted, refused⟩ := s
  cases left with
  | none => simp [writeAll_unlimited ⟨none, accepted, refused⟩ rfl pieces]
  | some n => simp [writeAll_limited]

end Abacus.Sink
