import Abacus.Text.Bytes

/-!
# Output sinks

A sink takes whole pieces of output, one per write. It may be one that fails: it then accepts a
number of writes and refuses all later ones, taking nothing of them. What was refused is kept apart,
since it was offered all the same.
-/
namespace Abacus

structure Sink where
  /-- How many more writes are accepted; `none` means all. -/
  left : Option Nat
  /-- The accepted pieces, last one first. -/
  pieces : List Bytes
  /-- The refused pieces, last one first. -/
  refused : List Bytes
  deriving DecidableEq, Repr

namespace Sink

/-- A fresh sink that accepts `limit` writes, or all if there is no limit. -/
def fresh (limit : Option Nat) : Sink := ⟨limit, [], []⟩

def working : Sink := fresh none

def refusal : Bytes := text "sink closed"

/-- Offers one piece; the flag says whether it was accepted. -/
def write (s : Sink) (piece : Bytes) : Sink × Bool :=
  match s.left with
  | none => ({ s with pieces := piece :: s.pieces }, true)
  | some 0 => ({ s with refused := piece :: s.refused }, false)
  | some (n + 1) => ({ s with left := some n, pieces := piece :: s.pieces }, true)

/-- Offers pieces in order and stops at the first refusal. -/
def writeAll (s : Sink) : List Bytes → Sink × Bool
  | [] => (s, true)
  | piece :: others =>
    match s.write piece with
    | (s, true) => s.writeAll others
    | (s, false) => (s, false)

/-- Offers a piece and ignores a refusal. -/
def offer (s : Sink) (piece : Bytes) : Sink := (s.write piece).1

def content (s : Sink) : Bytes := s.pieces.reverse.flatten

end Sink

end Abacus
