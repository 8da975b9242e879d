import Abacus.LanguageServer.Incoming
import Abacus.LanguageServer.Server

/-!
# Messages between editor and server

The JSON form of what the server says, and the exchange of messages: a call with an identifier
gets a reply with the same identifier, one without gets none; publications come before the reply.
The message `exit` ends the exchange, and so does one that is none of the protocol.
-/
namespace Abacus

def Position.toJson (p : Position) : JsonValue :=
  .record [("line", .integer p.line), ("character", .integer p.character)]

def Range.toJson (r : Range) : JsonValue :=
  .record [("start", r.start.toJson), ("end", r.stop.toJson)]

def Diagnostic.severity : Int := 1

def Diagnostic.toJson (d : Diagnostic) : JsonValue :=
  .record [("range", d.range.toJson), ("severity", .integer severity),
    ("source", .string LanguageServer.name), ("message", .string d.message)]

def Keyword.completionKind : Int := 14

def Keyword.completionDetail : Bytes := text "keyword"

def Keyword.toJson (k : Keyword) : JsonValue :=
  .record [("label", .string k.spelling), ("kind", .integer completionKind),
    ("detail", .string completionDetail), ("insertText", .string k.spelling)]

def Hover.format : Bytes := text "markdown"

def Hover.toJson (h : Hover) : JsonValue :=
  .record
    [("contents", .record [("kind", .string format), ("value", .string h.value)]),
     ("range", h.range.toJson)]

def Response.toJson : Response → JsonValue
  | nothing => .null
  | capabilities version =>
    .record
      [("capabilities", .record
        [("textDocumentSync", .record [("openClose", .bool true), ("change", .integer 1)]),
         ("completionProvider", .record []), ("hoverProvider", .bool true)]),
       ("serverInfo", .record
        [("name", .string LanguageServer.name), ("version", .string version)])]
  | words items => .array (items.map Keyword.toJson)
  | hover content => content.toJson

def Publication.method : Bytes := text "textDocument/publishDiagnostics"

def Publication.params (p : Publication) : JsonValue :=
  .record [("uri", .string p.uri), ("diagnostics", .array (p.diagnostics.map Diagnostic.toJson))]

namespace LanguageServer

/-- A message with the mark of the protocol. -/
def message (members : List (String × JsonValue)) : JsonValue :=
  .record (("jsonrpc", .literal "2.0") :: members)

def publicationMessage (p : Publication) : JsonValue :=
  message [("method", .string Publication.method), ("params", p.params)]

def replyMessage (id : JsonValue) (result : JsonValue) : JsonValue :=
  message [("id", id), ("result", result)]

def errorMessage (id : JsonValue) (e : CallError) : JsonValue :=
  message
    [("id", id),
     ("error", .record [("code", .integer e.code), ("message", .string e.message)])]

/-- The method by which an editor leaves. -/
def leaving : Bytes := text "exit"

/-- The server after a call, what it sends, and what it logs; no server after the editor left. -/
def exchangeCall (s : LanguageServer) (c : Call) :
    Option LanguageServer × List JsonValue × List LogEntry :=
  if c.method = leaving then (none, [], [])
  else
    match s.answer c.method c.params with
    | .error e => (some s, c.answerId.toList.map (errorMessage · e), [])
    | .ok served =>
      (some served.server,
        served.published.map publicationMessage
          ++ c.answerId.toList.map (replyMessage · served.response.toJson),
        served.log)

/-- The server after a message, what it sends, and what it logs. -/
def exchange (s : LanguageServer) (m : JsonValue) :
    Option LanguageServer × List JsonValue × List LogEntry :=
  match Incoming.ofMessage? m with
  | some (.call c) => s.exchangeCall c
  | some .reply => (some s, [], [])
  | none => (none, [], [])

/-- The exchange of messages until the editor leaves: what is sent after each message. -/
def conversation : Option LanguageServer → List JsonValue → List (List JsonValue)
  | _, [] => []
  | none, _ :: rest => [] :: conversation none rest
  | some s, m :: rest =>
    let (s, sent, _) := s.exchange m
    sent :: conversation s rest

end LanguageServer

end Abacus
