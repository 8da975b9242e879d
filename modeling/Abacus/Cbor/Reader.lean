import Abacus.Cbor.Item

/-!
# Reading data items

A document is exactly one item. Reading checks that it is well formed: a head says what follows
and how long it is, and everything it announces must be there. Nesting is limited, and so is the
size of arrays and maps; tags that follow each other directly count as nested, except the first.

Every head takes a byte, so a document of `n` bytes needs no more than `2 n + 2` nested calls;
that is the fuel the readers are given, and running out of it never happens.
-/
namespace Abacus.Cbor

def maxNesting : Nat := 32

def maxElements : Nat := 131072

/-- The parts of a first byte and the argument that goes with it. -/
structure Head where
  major : Nat
  info : Nat
  argument : Nat
  deriving DecidableEq, Repr

/-- How many bytes of argument follow, by the additional information. -/
def argumentBytes? (info : Nat) : Option Nat :=
  if info < 24 ∨ info = 31 then some 0
  else if info = 24 then some 1
  else if info = 25 then some 2
  else if info = 26 then some 4
  else if info = 27 then some 8
  else none

/-- Splits off the first `n` bytes if there are so many. -/
def split? (n : Nat) (s : Bytes) : Option (Bytes × Bytes) :=
  let parts := s.splitAt n
  if parts.1.length = n then some parts else none

def readHead? : Bytes → Option (Head × Bytes)
  | [] => none
  | b :: rest =>
    let major := b.toNat / 32
    let info := b.toNat % 32
    match argumentBytes? info with
    | none => none
    | some width =>
      match split? width rest with
      | none => none
      | some (argument, rest) =>
        some (⟨major, info, if width = 0 then info else bigEndian argument⟩, rest)

def breakByte : UInt8 := 0xff

/-- Reads the chunks of a string of indefinite length: strings of the same kind and of definite
length, up to the break. -/
def readChunks? (major : Nat) : Nat → Bytes → List Bytes → Option (List Bytes × Bytes)
  | 0, _, _ => none
  | fuel + 1, s, chunks =>
    if s.head? = some breakByte then some (chunks.reverse, s.drop 1)
    else
      match readHead? s with
      | none => none
      | some (head, rest) =>
        if head.major ≠ major ∨ head.info = 31 then none
        else
          match split? head.argument rest with
          | none => none
          | some (chunk, rest) => readChunks? major fuel rest (chunk :: chunks)

/-- Reads the chunks of a string after its head. -/
def readString? (head : Head) (rest : Bytes) : Option (List Bytes × Bytes) :=
  if head.info = 31 then readChunks? head.major (rest.length + 1) rest []
  else (split? head.argument rest).map fun (chunk, rest) => ([chunk], rest)

/-- The item of a head of the last major type, which stands for itself. -/
def simpleItem? (head : Head) : Option Item :=
  if head.info < 24 then some (.simple head.info)
  else if head.info = 24 then if head.argument < 32 then none else some (.simple head.argument)
  else if head.info = 25 then some (.float (SmallFloat.half.widen head.argument))
  else if head.info = 26 then some (.float (SmallFloat.single.widen head.argument))
  else if head.info = 27 then some (.float ⟨UInt64.ofNat head.argument⟩)
  else none

def pairUp : List Item → Option (List (Item × Item))
  | [] => some []
  | [_] => none
  | key :: value :: rest => (pairUp rest).map ((key, value) :: ·)

mutual

/-- Reads one item at a nesting depth. -/
def readItem? : Nat → Nat → Bytes → Option (Item × Bytes)
  | 0, _, _ => none
  | fuel + 1, depth, s =>
    match readHead? s with
    | none => none
    | some (head, rest) =>
      match head.major with
      | 0 => if head.info = 31 then none else some (.unsigned head.argument, rest)
      | 1 => if head.info = 31 then none else some (.negative head.argument, rest)
      | 2 => (readString? head rest).map fun (chunks, rest) => (.bytes chunks, rest)
      | 3 => (readString? head rest).map fun (chunks, rest) => (.text chunks, rest)
      -- The length of an array or a map may be left open: its items then go on up to a break.
      | 4 =>
        if depth + 1 > maxNesting then none
        else if head.info = 31 then
          match readToBreak? fuel (depth + 1) maxElements rest [] with
          | none => none
          | some (items, rest) => some (.array items, rest)
        else if head.argument > maxElements then none
        else
          match readItems? fuel (depth + 1) head.argument rest [] with
          | none => none
          | some (items, rest) => some (.array items, rest)
      | 5 =>
        if depth + 1 > maxNesting then none
        else if head.info = 31 then
          match readToBreak? fuel (depth + 1) (2 * maxElements + 1) rest [] with
          | none => none
          | some (items, rest) => (pairUp items).map fun entries => (.map entries, rest)
        else if head.argument > maxElements then none
        else
          match readItems? fuel (depth + 1) (2 * head.argument) rest [] with
          | none => none
          | some (items, rest) => (pairUp items).map fun entries => (.map entries, rest)
      | 6 =>
        if head.info = 31 then none
        else
          -- A tag counts as a level of nesting only if its content has a tag again.
          let nested := rest.head?.any fun b => b.toNat / 32 == 6
          if nested && depth + 1 > maxNesting then none
          else
            match readItem? fuel (if nested then depth + 1 else depth) rest with
            | none => none
            | some (content, rest) => some (.tagged head.argument content, rest)
      | _ => (simpleItem? head).map (·, rest)

/-- Reads a number of items, after those already read, which stand last first. -/
def readItems? : Nat → Nat → Nat → Bytes → List Item → Option (List Item × Bytes)
  | _, _, 0, s, items => some (items.reverse, s)
  | 0, _, _, _, _ => none
  | fuel + 1, depth, count + 1, s, items =>
    match readItem? fuel depth s with
    | none => none
    | some (item, rest) => readItems? fuel depth count rest (item :: items)

/-- Reads items up to the break, at most `room` of them. -/
def readToBreak? : Nat → Nat → Nat → Bytes → List Item → Option (List Item × Bytes)
  | 0, _, _, _, _ => none
  | fuel + 1, depth, room, s, items =>
    if s.head? = some breakByte then some (items.reverse, s.drop 1)
    else
      match room with
      | 0 => none
      | room + 1 =>
        match readItem? fuel depth s with
        | none => none
        | some (item, rest) => readToBreak? fuel depth room rest (item :: items)

end

def Item.read? (s : Bytes) : Option Item :=
  match readItem? (2 * s.length + 2) 0 s with
  | some (item, []) => some item
  | _ => none

end Abacus.Cbor
