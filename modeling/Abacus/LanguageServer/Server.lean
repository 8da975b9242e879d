import Abacus.LanguageServer.Hover
import Abacus.LanguageServer.Request

/-!
# The language server

The server remembers the text of every open document. Opening a document or replacing its text
publishes its errors, closing it publishes that there are none; other requests publish nothing.
Requests are served between the handshake and the shutdown only. The shutdown also stops the
worker for good, so a server that is started anew answers everything but values.
-/
namespace Abacus

/-- The texts of the open documents, the latest change first. -/
abbrev DocumentStore := List (Bytes × Bytes)

namespace DocumentStore

def find? (store : DocumentStore) (uri : Bytes) : Option Bytes := store.lookup uri

def erase (store : DocumentStore) (uri : Bytes) : DocumentStore :=
  store.filter fun entry => entry.1 != uri

def insert (store : DocumentStore) (uri content : Bytes) : DocumentStore :=
  (uri, content) :: store.erase uri

end DocumentStore

structure LanguageServer where
  worker : Worker
  /-- Whether hovering shows values. -/
  evaluates : Bool
  version : Bytes
  documents : DocumentStore
  ready : Bool

/-- What the server tells the editor unasked. -/
structure Publication where
  uri : Bytes
  diagnostics : List Diagnostic
  deriving DecidableEq, Repr

inductive Response
  | nothing
  | capabilities (version : Bytes)
  | words (items : List Keyword)
  | hover (content : Hover)
  deriving DecidableEq, Repr

structure Served where
  server : LanguageServer
  response : Response
  published : List Publication
  log : List LogEntry

namespace LanguageServer

def name : Bytes := text "diablo-lsp"

def defaultVersion : Bytes := text "0.1.0"

/-- A server around a machine, which gets the compiler of this language. -/
def start (m : Machine) (evaluates : Bool) (version : Bytes) : LanguageServer where
  worker := .start (m.useFrontEnd (some .standard))
  evaluates := evaluates
  version := if version.isEmpty then defaultVersion else version
  documents := []
  ready := false

def ignore (s : LanguageServer) : Served := ⟨s, .nothing, [], []⟩

/-- Stores a text and publishes its errors. -/
def store (s : LanguageServer) (uri content : Bytes) : Served :=
  let diagnostics := Document.diagnose content
  { server := { s with documents := s.documents.insert uri content }
    response := .nothing
    published := [⟨uri, diagnostics⟩]
    log := Document.diagnosisLog content ++ [⟨.debug, .languageServer,
      uri ++ text ": " ++ decimal diagnostics.length ++ text " diagnostics"⟩] }

/-- Forgets a text and publishes that there are no errors. -/
def forget (s : LanguageServer) (uri : Bytes) : Served :=
  ⟨{ s with documents := s.documents.erase uri }, .nothing, [⟨uri, []⟩], []⟩

def complete (s : LanguageServer) (uri : Bytes) (p : Position) : Response :=
  match s.documents.find? uri with
  | none => .nothing
  | some content =>
    let word := Document.wordBefore content p
    match if word.isEmpty then [] else Document.completions word with
    | [] => .nothing
    | items => .words items

def hover (s : LanguageServer) (uri : Bytes) (p : Position) : Served :=
  match s.documents.find? uri with
  | none => s.ignore
  | some content =>
    let (worker, shown, log) := Hover.compute s.worker s.evaluates content p
    { server := { s with worker := worker }
      response := match shown with | some h => .hover h | none => .nothing
      published := []
      log := log }

def serve (s : LanguageServer) : Request → Served
  | .handshake =>
    ⟨{ s with ready := true }, .capabilities s.version, [],
      [⟨.info, .languageServer, text "diablo LSP initializing"⟩]⟩
  | .handshakeDone | .setTrace => s.ignore
  | .shutdown => ({ s with worker := s.worker.stop, ready := false } : LanguageServer).ignore
  | .opened uri content => s.store uri content
  | .changed uri changes =>
    match changes.getLast? with
    | some (.whole content) => s.store uri content
    | _ => s.ignore
  | .closed uri => s.forget uri
  | .complete uri p => { s.ignore with response := s.complete uri p }
  | .hover uri p => s.hover uri p

/-- Answers a call. Before the handshake and after the shutdown nothing but the handshake is
looked at. -/
def answer (s : LanguageServer) (method : Bytes) (params : Option JsonValue) :
    Except CallError Served :=
  if !s.ready && method != Method.handshake.name then .error .notReady
  else
    match Request.ofCall method params with
    | .ok request => .ok (s.serve request)
    | .error e => .error e

end LanguageServer

end Abacus
