import Abacus.Number.SmallFloat
import Abacus.Text.Bytes

/-!
# Binary data items

The items of the concise binary object representation. A string keeps the chunks it was written
in, because each chunk of a text must be well formed by itself. Lengths, integers and the widths
of floating-point numbers may be written in more than one way; an item records what was meant.
-/
namespace Abacus.Cbor

inductive Item
  | unsigned (n : Nat)
  /-- Stands for `-1 - n`. -/
  | negative (n : Nat)
  | bytes (chunks : List Bytes)
  | text (chunks : List Bytes)
  | array (items : List Item)
  | map (entries : List (Item × Item))
  | tagged (tag : Nat) (content : Item)
  /-- False, true, null and undefined are the codes 20 to 23. -/
  | simple (code : Nat)
  | float (value : Binary64)

/-- The number that bytes stand for, most significant byte first. -/
def bigEndian (s : Bytes) : Nat := s.foldl (fun n b => n * 256 + b.toNat) 0

/-- A number in exactly `width` bytes, most significant byte first. -/
def toBigEndian : Nat → Nat → Bytes
  | 0, _ => []
  | width + 1, n => UInt8.ofNat (n / Nat.pow 256 width) :: toBigEndian width n

end Abacus.Cbor
