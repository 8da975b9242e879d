import Abacus.Number.Printed

/-!
# Values

A value is a tag and a payload. The only kind of value that programs make is the number, tag zero;
chunks from elsewhere may hold other tags, and every operation has to say what it does with them.
-/
namespace Abacus

structure Value where
  tag : UInt8
  payload : Binary64
  deriving DecidableEq, Repr, Inhabited

namespace Value

def number (x : Binary64) : Value := ⟨0, x⟩

def isNumber (v : Value) : Bool := v.tag == 0

def tagName (tag : UInt8) : Bytes :=
  if tag == 0 then text "number" else text "ValueType(" ++ decimal tag.toNat ++ text ")"

def print (v : Value) : Bytes :=
  if v.isNumber then v.payload.print else text "<" ++ tagName v.tag ++ text ">"

end Value

end Abacus
