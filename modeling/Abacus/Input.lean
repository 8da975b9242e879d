import Abacus.Text.Bytes

/-!
# Standard input

Input is a text that either ends or, after its last byte, fails. It passes through a buffer and
comes out in fragments: a fragment ends with the first line break, or because the buffer is full, or
with the input. Lines are put together from fragments. What follows the last line break is one more
line unless it is empty; if the input fails it is lost. A line that is too long is passed over as a
whole, and the next one is read as usual.
-/
namespace Abacus

structure Input where
  content : Bytes
  /-- The error that reading ends in, if it does not end well. -/
  failure : Option Bytes
  deriving DecidableEq, Repr

inductive InputLine
  | line (content : Bytes)
  | tooLong
  deriving DecidableEq, Repr

/-- Why a fragment goes no further. -/
inductive Ending
  | lineBreak
  | bufferFull
  | inputEnd
  | failure (message : Bytes)
  deriving DecidableEq, Repr

/-- A part of the input, with the line break if it ends in one. -/
structure Fragment where
  content : Bytes
  ending : Ending
  deriving DecidableEq, Repr

inductive LineReading
  | line (content : InputLine)
  | inputEnd
  | failure (message : Bytes)
  deriving DecidableEq, Repr

namespace Input

def readAll (i : Input) : Except Bytes Bytes :=
  match i.failure with
  | some e => .error e
  | none => .ok i.content

/-- The longest line that is read, without its line break. -/
def longestLine : Nat := 1048576

end Input

/-! ## Lines from fragments -/

/-- A line that is being put together. -/
structure OpenLine where
  /-- The bytes that are kept, last one first. -/
  kept : Bytes
  /-- How many bytes there were, kept or not. -/
  size : Nat
  tooLong : Bool
  deriving DecidableEq, Repr

namespace OpenLine

def start : OpenLine := ⟨[], 0, false⟩

/-- Adds the bytes of a fragment. One byte more than the longest line has room, the line break. -/
def add (l : OpenLine) (part : Bytes) : OpenLine :=
  let size := l.size + part.length
  if l.tooLong || Input.longestLine + 1 < size then ⟨[], size, true⟩
  else ⟨part.reverse ++ l.kept, size, false⟩

/-- The line without its line break. -/
def close (l : OpenLine) : InputLine :=
  if l.tooLong then .tooLong
  else
    match l.kept with
    | [] => .line []
    | b :: rest => .line (if b == newline then rest.reverse else (b :: rest).reverse)

/-- The line at the end of the input; there is none if nothing was left. -/
def closeAtEnd (l : OpenLine) : LineReading := if l.size = 0 then .inputEnd else .line l.close

end OpenLine

namespace Input

/-- Goes on with a line, through one fragment after the other, and leaves the fragments behind it.
There is nothing behind the last fragment. -/
def continueLine : OpenLine → List Fragment → LineReading × List Fragment
  | l, [] => (l.closeAtEnd, [])
  | l, f :: rest =>
    let l := l.add f.content
    match f.ending with
    | .lineBreak => (.line l.close, rest)
    | .bufferFull => continueLine l rest
    | .inputEnd => (l.closeAtEnd, rest)
    | .failure e => (.failure e, rest)

def readLine (fragments : List Fragment) : LineReading × List Fragment :=
  continueLine .start fragments

theorem length_continueLine (l : OpenLine) (fragments : List Fragment) :
    (continueLine l fragments).2.length ≤ fragments.length - 1 := by
  induction fragments generalizing l with
  | nil => simp [continueLine]
  | cons f rest ih =>
    simp only [continueLine, List.length_cons]
    split
    · exact Nat.le_refl _
    · exact Nat.le_trans (ih (l.add f.content)) (Nat.sub_le _ _)
    · exact Nat.le_refl _
    · exact Nat.le_refl _

/-- A line takes at least one fragment. -/
theorem length_readLine {fragments rest : List Fragment} {l : InputLine}
    (read : readLine fragments = (.line l, rest)) : rest.length < fragments.length := by
  cases fragments with
  | nil => simp [readLine, continueLine, OpenLine.closeAtEnd, OpenLine.start] at read
  | cons f others =>
    have bound := length_continueLine .start (f :: others)
    rw [← readLine, read] at bound
    simp only [List.length_cons] at bound ⊢
    omega

/-! ## Fragments from a buffer -/

def bufferSize : Nat := 4096

/-- Cuts a text into fragments. The buffer holds some bytes, last one first, and has room for more;
the fragments already cut stand last one first. -/
def cut (size : Nat) (last : Ending) : Bytes → Bytes → Nat → List Fragment → List Fragment
  | [], held, _, fragments => (⟨held.reverse, last⟩ :: fragments).reverse
  | b :: rest, held, room, fragments =>
    if b == newline then
      cut size last rest [] size (⟨(b :: held).reverse, .lineBreak⟩ :: fragments)
    else if room ≤ 1 then
      cut size last rest [] size (⟨(b :: held).reverse, .bufferFull⟩ :: fragments)
    else cut size last rest (b :: held) (room - 1) fragments

def ending (i : Input) : Ending :=
  match i.failure with
  | some e => .failure e
  | none => .inputEnd

/-- The input as it comes out of the buffer. -/
def fragments (i : Input) : List Fragment :=
  cut bufferSize i.ending i.content [] bufferSize []

end Input

end Abacus
