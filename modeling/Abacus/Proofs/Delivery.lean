import Abacus.Proofs.Diagnostics
import Abacus.Proofs.OpenDocuments

/-!
# Publications on their way to the editor

The server serves one call after the other, but it does not wait for what it publishes: each
publication travels on its own, and any of those on their way may be the next to arrive. What
arrives is what was published, each publication once. The order is another matter. An editor that
has received everything shows the errors of a document as it is now, provided that no publication of
the document overtook an older one (`received_current_unless_overtaken`). If one did, the editor may
be left with the errors of a text that is no longer there, even of a closed document
(`closed_document_keeps_errors`).
-/
namespace Abacus

/-- A server and what its editor has got of its publications. -/
structure Traffic where
  server : LanguageServer
  /-- Those on their way, in the order in which they were published. -/
  inFlight : List Publication
  /-- Those that have arrived, in the order of their arrival. -/
  received : List Publication

namespace Traffic

def start (s : LanguageServer) : Traffic := ⟨s, [], []⟩

def call (t : Traffic) (c : Call) : Traffic :=
  { t with server := t.server.afterCall c, inFlight := t.inFlight ++ t.server.published c }

/-- Which publication may arrive next, given the older ones that are still on their way. -/
abbrev Rule := List Publication → Publication → Prop

def anyOrder : Rule := fun _ _ => True

/-- The publications of a document arrive in their order; the others may do as they like. -/
def inOrderFor (uri : Bytes) : Rule := fun older p => p.uri = uri → ∀ q ∈ older, q.uri ≠ uri

/-- What calls and arrivals in between can lead to. -/
inductive Reaches (rule : Rule) (s : LanguageServer) : List Call → Traffic → Prop
  | start : Reaches rule s [] (start s)
  | call {history : List Call} {t : Traffic} (c : Call) (reached : Reaches rule s history t) :
      Reaches rule s (history ++ [c]) (t.call c)
  | arrival {history : List Call} {server : LanguageServer} {received : List Publication}
      (older newer : List Publication) {p : Publication}
      (reached : Reaches rule s history ⟨server, older ++ p :: newer, received⟩)
      (allowed : rule older p) :
      Reaches rule s history ⟨server, older ++ newer, received ++ [p]⟩

variable {rule : Rule} {s : LanguageServer} {history : List Call} {t : Traffic}

namespace Reaches

theorem server_eq (reaches : Reaches rule s history t) : t.server = s.after history := by
  induction reaches with
  | start => rfl
  | call c _ ih =>
    rw [LanguageServer.after_concat, ← ih]
    rfl
  | arrival _ _ _ _ ih => exact ih

/-- Nothing is lost, invented or sent twice. -/
theorem conserves (reaches : Reaches rule s history t) :
    (t.received ++ t.inFlight).Perm (s.publications history) := by
  induction reaches with
  | start => exact .refl _
  | call c reached ih =>
    rw [LanguageServer.publications_concat, ← reached.server_eq, Traffic.call, ← List.append_assoc]
    exact ih.append_right _
  | @arrival _ _ received older newer p _ _ ih =>
    -- An arrival moves one publication past the older ones on their way.
    have moved : (p :: (older ++ newer)).Perm (older ++ p :: newer) := List.perm_middle.symm
    have joined : received ++ [p] ++ (older ++ newer) = received ++ p :: (older ++ newer) := by simp
    rw [joined]
    exact (moved.append_left received).trans ih

/-- Of a document whose publications keep their order, what has arrived and what has not are
together what was published. -/
theorem in_order {uri : Bytes} (reaches : Reaches (inOrderFor uri) s history t) :
    (t.received ++ t.inFlight).filter (·.uri = uri) =
      (s.publications history).filter (·.uri = uri) := by
  induction reaches with
  | start => rfl
  | call c reached ih =>
    rw [LanguageServer.publications_concat, ← reached.server_eq, Traffic.call, ← List.append_assoc,
      List.filter_append, ih, List.filter_append]
  | @arrival _ _ _ older newer p _ allowed ih =>
    rw [← ih]
    by_cases about : p.uri = uri
    · -- The older ones are about other documents, so this one was the first in line.
      have others : older.filter (·.uri = uri) = [] := by
        apply List.filter_eq_nil_iff.mpr
        intro q member
        simpa using allowed about q member
      simp [others, about]
    · simp [about]

end Reaches

/-- Nothing need arrive before all calls are served. -/
theorem reaches_calls (rule : Rule) (s : LanguageServer) (history : List Call) :
    Reaches rule s history ⟨s.after history, s.publications history, []⟩ := by
  induction history using List.reverseRecOn with
  | nil => exact .start
  | append_singleton history c ih =>
    have served := Reaches.call c ih
    rw [LanguageServer.after_concat, LanguageServer.publications_concat]
    exact served

theorem mem_of_lastPublished? {uri : Bytes} {published : List Publication}
    {diagnostics : List Diagnostic}
    (last : LanguageServer.lastPublished? uri published = some diagnostics) :
    ∃ p ∈ published, p.uri = uri ∧ p.diagnostics = diagnostics := by
  obtain ⟨p, found, rfl⟩ := Option.map_eq_some_iff.mp last
  have member := List.mem_of_getLast? found
  rw [List.mem_filter] at member
  exact ⟨p, member.1, by simpa using member.2, rfl⟩

theorem lastPublished?_of_mem {uri : Bytes} {published : List Publication} {p : Publication}
    (member : p ∈ published) (about : p.uri = uri) :
    ∃ diagnostics, LanguageServer.lastPublished? uri published = some diagnostics := by
  have kept : p ∈ published.filter (·.uri = uri) :=
    List.mem_filter.mpr ⟨member, by simpa using about⟩
  have occupied : published.filter (·.uri = uri) ≠ [] := List.ne_nil_of_mem kept
  refine ⟨_, Option.map_eq_some_iff.mpr ⟨_, List.getLast?_eq_some_getLast occupied, rfl⟩⟩

end Traffic

open Traffic LanguageServer in
/-- Calls are served one after the other and publications arrive in between, in any order. Each
publication is on its way or has arrived, once. When nothing is on its way for a document, the last
errors received for it are those of one of its edits, and if none of its publications overtook an
older one they are those of the text that it has now, or none if it is closed. -/
theorem received_current_unless_overtaken (m : Machine) (evaluates : Bool) (version : Bytes)
    (history : List Call) (t : Traffic) (uri : Bytes) (settled : ∀ p ∈ t.inFlight, p.uri ≠ uri) :
    let first := LanguageServer.start m evaluates version
    let requests := Request.accepted history
    (Reaches anyOrder first history t →
      (t.received ++ t.inFlight).Perm (first.publications history) ∧
      ((Request.latestEdit? uri requests).isSome →
        ∃ e ∈ requests.filterMap Request.edit?, e.uri = uri ∧
          lastPublished? uri t.received = some ((e.content.map Document.diagnose).getD []))) ∧
    (Reaches (inOrderFor uri) first history t →
      lastPublished? uri t.received =
        (Request.latestEdit? uri requests).map fun _ =>
          ((t.server.documents.find? uri).map Document.diagnose).getD []) := by
  intro first requests
  have published : first.publications history =
      (requests.filterMap Request.edit?).map Edit.publication :=
    publications_eq m evaluates version history
  constructor
  · intro reaches
    have conserved := reaches.conserves
    refine ⟨conserved, ?_⟩
    intro edited
    obtain ⟨latest, found⟩ := Option.isSome_iff_exists.mp edited
    have among := List.mem_of_getLast? found
    rw [List.mem_filter] at among
    -- The publication of the latest edit has arrived, so something was received.
    have member : latest.publication ∈ t.received ++ t.inFlight := by
      rw [conserved.mem_iff, published]
      exact List.mem_map_of_mem among.1
    have about : latest.publication.uri = uri := by simpa [Edit.publication] using among.2
    have arrived : latest.publication ∈ t.received := by
      rcases List.mem_append.mp member with here | flying
      · exact here
      · exact absurd about (settled _ flying)
    obtain ⟨diagnostics, last⟩ := lastPublished?_of_mem arrived about
    obtain ⟨p, received, same, rfl⟩ := mem_of_lastPublished? last
    have origin : p ∈ first.publications history :=
      conserved.mem_iff.mp (List.mem_append_left _ received)
    rw [published] at origin
    obtain ⟨e, edit, rfl⟩ := List.mem_map.mp origin
    exact ⟨e, edit, same, last⟩
  · intro reaches
    have follows : Follows m evaluates requests (first.after history) :=
      follows_after m evaluates version history
    have none : t.inFlight.filter (·.uri = uri) = [] := by
      apply List.filter_eq_nil_iff.mpr
      intro p flying
      simpa using settled p flying
    have order := reaches.in_order
    rw [List.filter_append, none, List.append_nil] at order
    have last :
        lastPublished? uri t.received = lastPublished? uri (first.publications history) := by
      rw [lastPublished?, order, lastPublished?]
    rw [last, published, lastPublished?_eq, reaches.server_eq, follows.documents]

/-! ## A brief visit -/

namespace Traffic

def visited : Bytes := text "file:///a.dbl"

/-- A document with an error in it is opened and closed again. -/
def visit : List Call :=
  [⟨Method.handshake.name, some (.object []), none⟩,
   ⟨Method.opened.name, some (.object [(text "textDocument", .object
      [(text "uri", .string visited), (text "text", .string (text "@"))])]), none⟩,
   ⟨Method.closed.name, some (.object [(text "textDocument", .object
      [(text "uri", .string visited)])]), none⟩]

def visitedServer : LanguageServer := .start .fresh false []

theorem accepted_visit :
    Request.accepted visit = [.handshake, .opened visited (text "@"), .closed visited] := by
  rfl

theorem reaches_visit (rule : Rule) :
    Reaches rule visitedServer visit
      ⟨visitedServer.after visit,
        [⟨visited, Document.diagnose (text "@")⟩, ⟨visited, []⟩], []⟩ := by
  have published : visitedServer.publications visit =
      [⟨visited, Document.diagnose (text "@")⟩, ⟨visited, []⟩] := by
    rw [visitedServer, LanguageServer.publications_eq, accepted_visit]
    rfl
  have served := reaches_calls rule visitedServer visit
  rw [published] at served
  exact served

end Traffic

open Traffic LanguageServer in
/-- In their order, the two publications leave the editor without errors. -/
theorem received_current_visit :
    let t : Traffic := ⟨visitedServer.after visit, [],
      [⟨visited, Document.diagnose (text "@")⟩, ⟨visited, []⟩]⟩
    (∀ p ∈ t.inFlight, p.uri ≠ visited) ∧ Reaches (inOrderFor visited) visitedServer visit t ∧
      lastPublished? visited t.received =
        (Request.latestEdit? visited (Request.accepted visit)).map fun _ =>
          ((t.server.documents.find? visited).map Document.diagnose).getD [] := by
  intro t
  have settled : ∀ p ∈ t.inFlight, p.uri ≠ visited := by simp [t]
  have reached : Reaches (inOrderFor visited) visitedServer visit t := by
    have first := (reaches_visit (inOrderFor visited)).arrival [] _ (by simp [inOrderFor])
    exact first.arrival [] [] (by simp [inOrderFor])
  have current := received_current_unless_overtaken .fresh false [] visit t visited settled
  exact ⟨settled, reached, current.2 reached⟩

open Traffic LanguageServer in
/-- If the second publication overtakes the first, everything has arrived and the document is
closed, but the editor is left with its errors. -/
theorem closed_document_keeps_errors :
    ∃ t, Reaches anyOrder visitedServer visit t ∧ t.inFlight = [] ∧
      t.server.documents.find? visited = none ∧
      lastPublished? visited t.received = some (Document.diagnose (text "@")) ∧
      Document.diagnose (text "@") ≠ [] := by
  have overtaken :=
    (reaches_visit anyOrder).arrival [⟨visited, Document.diagnose (text "@")⟩] [] trivial
  have reached := overtaken.arrival [] [] trivial
  refine ⟨_, reached, rfl, ?_, ?_, by decide +kernel⟩
  · have follows := follows_after .fresh false [] visit
    rw [accepted_visit] at follows
    exact follows.documents visited
  · simp [lastPublished?]

end Abacus
