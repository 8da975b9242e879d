import Abacus.Cbor.Item

/-!
# Writing data items

Each writer gives the shortest form: the smallest head that holds a number, and the narrowest
floating-point format that holds a value exactly. All NaNs are written as the same one.
-/
namespace Abacus.Cbor

/-- A head with the argument in the fewest bytes. -/
def head (major argument : Nat) : Bytes :=
  let first (info : Nat) : UInt8 := UInt8.ofNat (major * 32 + info)
  if argument < 24 then [first argument]
  else if argument < 256 then first 24 :: toBigEndian 1 argument
  else if argument < 65536 then first 25 :: toBigEndian 2 argument
  else if argument < 4294967296 then first 26 :: toBigEndian 4 argument
  else first 27 :: toBigEndian 8 argument

def writeInteger (n : Int) : Bytes :=
  if n < 0 then head 1 (n.natAbs - 1) else head 0 n.natAbs

def writeBytes (s : Bytes) : Bytes := head 2 s.length ++ s

def writeText (s : Bytes) : Bytes := head 3 s.length ++ s

def writeFloat (x : Binary64) : Bytes :=
  if x.isNaN then [0xf9, 0x7e, 0x00]
  else
    match SmallFloat.half.narrow? x with
    | some datum => 0xf9 :: toBigEndian 2 datum
    | none =>
      match SmallFloat.single.narrow? x with
      | some datum => 0xfa :: toBigEndian 4 datum
      | none => 0xfb :: toBigEndian 8 x.bits.toNat

/-- An array of items that are already written. -/
def writeArray (items : List Bytes) : Bytes := head 4 items.length ++ items.flatten

/-- A map of entries that are already written, in this order. -/
def writeMap (entries : List (Bytes × Bytes)) : Bytes :=
  head 5 entries.length ++ (entries.map fun entry => entry.1 ++ entry.2).flatten

end Abacus.Cbor
