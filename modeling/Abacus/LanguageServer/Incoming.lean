import Abacus.Json.Shape
import Abacus.Number.Word

/-!
# What an editor sends

A message is a call, which has a method, or a reply, which has a result or an error. A call with an
identifier is to be answered. Whoever sends anything else does not speak the protocol.
-/
namespace Abacus

structure Call where
  method : Bytes
  params : Option JsonValue
  /-- The identifier of the answer, if one is wanted. -/
  answerId : Option JsonValue

inductive Incoming
  | call (c : Call)
  /-- A reply. The server asks for none, so its content does not matter. -/
  | reply

namespace Incoming

open JsonShape

/-- The members by which calls and replies are told apart. -/
def envelopeShape : JsonShape :=
  record [("id", anything), ("method", string), ("result", anything), ("error", anything)]

def replyShape : JsonShape :=
  record
    [("id", either (integer 0 (wordCount - 1)) string),
     ("error", record [("code", integer (-signedLimit) (signedLimit - 1)), ("message", string)])]

/-- The identifier of the answer to a call, whose own is a text or a signed word; null is none. The
answer has the word without its sign. -/
def answerId? : JsonValue → Option (Option JsonValue)
  | .null => some none
  | .string s => some (some (.string s))
  | .integer n => if isSignedWord n then some (some (.integer (n % wordCount))) else none
  | _ => none

/-- Reads a call, the names of whose members are exact. -/
def call? (m : JsonValue) : Option Incoming :=
  match m.field? "method" with
  | some (.string method) =>
    (answerId? ((m.field? "id").getD .null)).map fun id => call ⟨method, m.field? "params", id⟩
  | _ => none

def ofMessage? (m : JsonValue) : Option Incoming :=
  let isCall := !(m.get "method").isNull
  let isReply := (m.member? "result").isSome || !(m.get "error").isNull
  if !envelopeShape.admits m then none
  else if isCall then if isReply then none else call? m
  else if isReply && replyShape.admits m then some reply
  else none

end Incoming

end Abacus
