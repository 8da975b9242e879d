import Abacus.Number.Decimal
import Abacus.Text.Caseless

/-!
# JSON values

Numbers written as integers are kept as integers; other numbers keep their spelling, because
nothing here computes with them. Members keep the order in which they were written.

The case of a member's name does not matter, so an object can have several members for one place.
They are read into it one after the other; null leaves a place as it is.
-/
namespace Abacus

inductive JsonValue
  | null
  | bool (value : Bool)
  | integer (value : Int)
  | decimal (spelling : Bytes)
  | string (value : Bytes)
  | array (items : List JsonValue)
  | object (members : List (Bytes × JsonValue))
  deriving Inhabited

namespace JsonValue

def isNull : JsonValue → Bool
  | null => true
  | _ => false

def members (name : String) : JsonValue → List JsonValue
  | object members =>
    (members.filter fun m => Text.sameCaseless m.1 (Abacus.text name)).map Prod.snd
  | _ => []

/-- The last member for a name. -/
def member? (v : JsonValue) (name : String) : Option JsonValue := (v.members name).getLast?

/-- The last member with a name, letter for letter. -/
def field? (v : JsonValue) (name : String) : Option JsonValue :=
  match v with
  | object members =>
    ((members.filter fun m => m.1 == Abacus.text name).getLast?).map Prod.snd
  | _ => none

/-- The last member for a name, or null. -/
def get (v : JsonValue) (name : String) : JsonValue := (v.member? name).getD null

/-- What is read into the place at the end of a path of names, or null. -/
def find (v : JsonValue) (path : List String) : JsonValue :=
  let values := path.foldl (fun values name => values.flatMap (members name)) [v]
  ((values.filter fun value => !value.isNull).getLast?).getD null

/-- The bytes of a string; empty for anything else. -/
def asString : JsonValue → Bytes
  | string s => s
  | _ => []

/-- The integer, or zero. -/
def asInteger : JsonValue → Int
  | integer n => n
  | _ => 0

def asArray : JsonValue → List JsonValue
  | array items => items
  | _ => []

/-- The magnitude of a number with a fraction or an exponent. -/
def magnitude (spelling : Bytes) : Decimal :=
  let (mantissa, power) := Bytes.cut (byte 'e') (Bytes.toLower spelling)
  let (whole, fraction) := Bytes.cut (byte '.') mantissa
  let size : Int := Decimal.wholeNumber (power.filter isDigit)
  ⟨Decimal.wholeNumber ((whole ++ fraction).filter isDigit),
    (if power.head? = some (byte '-') then -size else size) - fraction.length⟩

mutual

/-- Every number in the value has a nearest binary64 number that is finite. -/
def isFinite : JsonValue → Bool
  | integer n => Decimal.isFinite ⟨n.natAbs, 0⟩
  | decimal spelling => Decimal.isFinite (magnitude spelling)
  | array items => itemsFinite items
  | object members => membersFinite members
  | _ => true

def itemsFinite : List JsonValue → Bool
  | [] => true
  | item :: rest => isFinite item && itemsFinite rest

def membersFinite : List (Bytes × JsonValue) → Bool
  | [] => true
  | (_, value) :: rest => isFinite value && membersFinite rest

end

def record (members : List (String × JsonValue)) : JsonValue :=
  object (members.map fun m => (Abacus.text m.1, m.2))

def literal (s : String) : JsonValue := string (Abacus.text s)

end JsonValue

end Abacus
