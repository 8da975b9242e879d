import Abacus.Document.Position
import Abacus.Json.Shape
import Abacus.LanguageServer.ClientCapabilities

/-!
# Requests of an editor

A call is a method name and parameters. The methods that are served prescribe the shape of their
parameters, except for the shutdown, which has none; a call of the right shape is a request, in
which everything that was left out is empty or zero.
-/
namespace Abacus

/-- A change of a document: its whole text anew, or a part of it. -/
inductive Change
  | whole (text : Bytes)
  | part
  deriving DecidableEq, Repr

inductive Request
  | handshake
  | handshakeDone
  | shutdown
  | setTrace
  | opened (uri text : Bytes)
  | changed (uri : Bytes) (changes : List Change)
  | closed (uri : Bytes)
  | complete (uri : Bytes) (position : Position)
  | hover (uri : Bytes) (position : Position)
  deriving DecidableEq, Repr

inductive CallError
  | notReady
  | unknownMethod (name : Bytes)
  | wrongParameters
  deriving DecidableEq, Repr

inductive Method
  | handshake | handshakeDone | shutdown | setTrace | opened | changed | closed | complete | hover
  deriving DecidableEq, Repr

namespace Method

def all : List Method :=
  [handshake, handshakeDone, shutdown, setTrace, opened, changed, closed, complete, hover]

def name : Method → Bytes
  | handshake => text "initialize"
  | handshakeDone => text "initialized"
  | shutdown => text "shutdown"
  | setTrace => text "$/setTrace"
  | opened => text "textDocument/didOpen"
  | changed => text "textDocument/didChange"
  | closed => text "textDocument/didClose"
  | complete => text "textDocument/completion"
  | hover => text "textDocument/hover"

def ofName? (s : Bytes) : Option Method := all.find? (·.name == s)

end Method

namespace Request

open JsonShape

def documentShape : JsonShape := record [("uri", string)]

def positionShape : JsonShape := record [("line", unsigned32), ("character", unsigned32)]

def rangeShape : JsonShape := record [("start", positionShape), ("end", positionShape)]

def changeShape : JsonShape :=
  record [("range", rangeShape), ("rangeLength", unsigned32), ("text", string)]

/-- The token that progress is reported under. -/
def progressMembers : List (String × JsonShape) := [("workDoneToken", integerOrString)]

def placeMembers : List (String × JsonShape) :=
  [("textDocument", documentShape), ("position", positionShape)] ++ progressMembers

def handshakeShape : JsonShape :=
  record (progressMembers ++
    [("processId", signed32), ("clientInfo", record [("name", string), ("version", string)]),
     ("locale", string), ("rootPath", string), ("rootUri", string),
     ("initializationOptions", anything), ("capabilities", ClientCapabilities.shape),
     ("trace", string),
     ("workspaceFolders", list (record [("uri", string), ("name", string)]))])

/-- The shape of a method's parameters; those of a shutdown are not looked at. -/
def shape? : Method → Option JsonShape
  | .handshake => handshakeShape
  | .handshakeDone => record []
  | .shutdown => none
  | .setTrace => record [("value", string)]
  | .opened =>
    record [("textDocument",
      record [("uri", string), ("languageId", string), ("version", signed32), ("text", string)])]
  | .changed =>
    record
      [("textDocument", record [("uri", string), ("version", signed32)]),
       ("contentChanges", list ignored), ("contentChanges", latest (list changeShape))]
  | .closed => record [("textDocument", documentShape)]
  | .complete =>
    record (placeMembers ++
      [("partialResultToken", integerOrString),
       ("context", record [("triggerKind", signed32), ("triggerCharacter", string)])])
  | .hover => record placeMembers

def uri (params : JsonValue) : Bytes := (params.find ["textDocument", "uri"]).asString

def position (params : JsonValue) : Position :=
  ⟨(params.find ["position", "line"]).asInteger.toNat,
    (params.find ["position", "character"]).asInteger.toNat⟩

/-- A change with a range is one of a part. -/
def change (v : JsonValue) : Change :=
  if (v.get "range").isNull then .whole (v.find ["text"]).asString else .part

/-- The request that parameters of the right shape make. -/
def ofParameters (m : Method) (params : JsonValue) : Request :=
  match m with
  | .handshake => .handshake
  | .handshakeDone => .handshakeDone
  | .shutdown => .shutdown
  | .setTrace => .setTrace
  | .opened => .opened (uri params) (params.find ["textDocument", "text"]).asString
  | .changed => .changed (uri params) ((params.get "contentChanges").asArray.map change)
  | .closed => .closed (uri params)
  | .complete => .complete (uri params) (position params)
  | .hover => .hover (uri params) (position params)

/-- Reads a call. Parameters that are looked at must be there. -/
def ofCall (method : Bytes) (params : Option JsonValue) : Except CallError Request :=
  match Method.ofName? method with
  | none => .error (.unknownMethod method)
  | some m =>
    match shape? m with
    | none => .ok (ofParameters m .null)
    | some shape =>
      match params with
      | none => .error .wrongParameters
      | some params =>
        if shape.admits params then .ok (ofParameters m params) else .error .wrongParameters

end Request

namespace CallError

def message : CallError → Bytes
  | notReady => text "server not initialized"
  | unknownMethod name => text "method not supported: " ++ name
  | wrongParameters => text "invalid parameters"

/-- The number by which an editor knows the error. -/
def code : CallError → Int
  | notReady => -32600
  | unknownMethod _ => -32601
  | wrongParameters => -32602

end CallError

end Abacus
