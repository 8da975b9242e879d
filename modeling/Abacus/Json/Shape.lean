import Abacus.Json.Value

/-!
# Shapes of JSON values

A shape tells which values are accepted in a place. It is checked before anything is read out of a
value, so that what is read can rely on it.
-/
namespace Abacus

/-- What a value has to look like to be accepted. Null is accepted everywhere, and so is the
absence of a member: both stand for the empty value. -/
inductive JsonShape
  /-- A value that is not looked at. -/
  | ignored
  /-- Any value that can be computed with: its numbers are not too large. -/
  | anything
  | bool
  | string
  | integer (least greatest : Int)
  | either (first second : JsonShape)
  /-- Of several members for one place only the last one is looked at. -/
  | latest (shape : JsonShape)
  | list (item : JsonShape)
  | record (members : List (String × JsonShape))

namespace JsonShape

/-- Of the members for one place, those that are looked at. -/
def examined (shape : JsonShape) (members : List JsonValue) : List JsonValue :=
  match shape with
  | latest _ => members.getLast?.toList
  | _ => members

mutual

def admits : JsonShape → JsonValue → Bool
  | _, .null => true
  | ignored, _ => true
  | anything, v => v.isFinite
  | bool, .bool _ => true
  | string, .string _ => true
  | integer least greatest, .integer n => least ≤ n && n ≤ greatest
  | either first second, v => admits first v || admits second v
  | latest shape, v => admits shape v
  | list item, .array items => items.all (admits item)
  | record members, .object fields => admitsMembers members (.object fields)
  | _, _ => false

def admitsMembers : List (String × JsonShape) → JsonValue → Bool
  | [], _ => true
  | (name, shape) :: rest, v =>
    (shape.examined (v.members name)).all (admits shape) && admitsMembers rest v

end

def signed32 : JsonShape := integer (-2147483648) 2147483647

def unsigned32 : JsonShape := integer 0 4294967295

def integerOrString : JsonShape := either signed32 string

end JsonShape

end Abacus
