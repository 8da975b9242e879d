import Abacus.LanguageServer.Incoming
import Abacus.LanguageServer.Server
import Abacus.Proofs.WorkerJobs
import Mathlib.Data.List.Induction

/-!
# The documents of a language server

The server keeps a store of texts, a worker and a flag. Seen from outside it is one register for
each document, which the accepted requests write to: opening a document or changing its whole text
stores a text, closing it stores that there is none, and nothing else matters. The errors of what is
stored are published with each write and at no other time, so the last ones published for a document
are those of its text (`documents_follow_requests`).

The argument is a refinement. `Follows` relates the server to the requests accepted so far, every
call keeps it (`Follows.call`), and what a server answers can be read off the requests.
-/
namespace Abacus

namespace DocumentStore

theorem find?_erase (store : DocumentStore) (uri other : Bytes) :
    (store.erase uri).find? other = if other = uri then none else store.find? other := by
  unfold find? erase
  induction store with
  | nil => simp
  | cons entry store ih =>
    obtain ⟨key, content⟩ := entry
    by_cases removed : key = uri
    · rw [List.filter_cons_of_neg (by simp [removed]), ih]
      by_cases same : other = uri
      · rw [if_pos same, if_pos same]
      · have different : (other == key) = false := by simp [removed, same]
        rw [if_neg same, if_neg same, List.lookup_cons, different]
    · rw [List.filter_cons_of_pos (by simp [removed]), List.lookup_cons, List.lookup_cons, ih]
      by_cases found : other = key
      · have apart : other ≠ uri := fun same => removed (found.symm.trans same)
        simp [found, removed]
      · have different : (other == key) = false := by simp [found]
        simp only [different]

theorem find?_insert (store : DocumentStore) (uri content other : Bytes) :
    (store.insert uri content).find? other =
      if other = uri then some content else store.find? other := by
  have erased := find?_erase store uri other
  unfold find? at erased ⊢
  unfold insert
  by_cases same : other = uri
  · simp [same]
  · have different : (other == uri) = false := by simp [same]
    rw [if_neg same] at erased ⊢
    rw [List.lookup_cons, different]
    exact erased

end DocumentStore

/-! ## What requests say about documents -/

/-- The text that a document has from now on, or that it has none. -/
structure Edit where
  uri : Bytes
  content : Option Bytes
  deriving DecidableEq, Repr

/-- The errors of the text, or that there are none. -/
def Edit.publication (e : Edit) : Publication :=
  ⟨e.uri, (e.content.map Document.diagnose).getD []⟩

namespace Request

/-- The edit that a request makes. Of several changes the last one counts, if it is a whole text. -/
def edit? : Request → Option Edit
  | .opened uri content => some ⟨uri, some content⟩
  | .changed uri changes =>
    match changes.getLast? with
    | some (.whole content) => some ⟨uri, some content⟩
    | _ => none
  | .closed uri => some ⟨uri, none⟩
  | _ => none

def latestEdit? (uri : Bytes) (requests : List Request) : Option Edit :=
  ((requests.filterMap edit?).filter (·.uri = uri)).getLast?

def storedText (uri : Bytes) (requests : List Request) : Option Bytes :=
  (latestEdit? uri requests).bind Edit.content

/-- The last handshake or shutdown was a handshake. -/
def inService (requests : List Request) : Bool :=
  (requests.filter fun r => r = .handshake ∨ r = .shutdown).getLast? = some .handshake

/-- A request is accepted in service, and a handshake always. -/
def isAccepted (earlier : List Request) (r : Request) : Bool :=
  inService earlier || r = .handshake

/-- The accepted requests after one more call. -/
def accept (earlier : List Request) (c : Call) : List Request :=
  match ofCall c.method c.params with
  | .ok r => if isAccepted earlier r then earlier ++ [r] else earlier
  | .error _ => earlier

/-- The accepted requests of a history of calls. -/
def accepted (history : List Call) : List Request := history.foldl accept []

theorem accepted_concat (history : List Call) (c : Call) :
    accepted (history ++ [c]) = accept (accepted history) c := by
  simp [accepted]

theorem latestEdit?_concat (uri : Bytes) (requests : List Request) (r : Request) :
    latestEdit? uri (requests ++ [r]) =
      match r.edit? with
      | some e => if e.uri = uri then some e else latestEdit? uri requests
      | none => latestEdit? uri requests := by
  unfold latestEdit?
  rw [List.filterMap_append, List.filter_append]
  cases made : r.edit? with
  | none => simp [made]
  | some e =>
    by_cases same : e.uri = uri
    · simp [made, same]
    · simp [made, same]

theorem inService_concat (requests : List Request) (r : Request) :
    inService (requests ++ [r]) =
      if r = .handshake then true else if r = .shutdown then false else inService requests := by
  unfold inService
  rw [List.filter_append]
  by_cases handshake : r = .handshake
  · simp [handshake]
  · by_cases shutdown : r = .shutdown
    · simp [shutdown]
    · simp [handshake, shutdown]

/-- The handshake is known by its name. -/
theorem eq_handshake_iff {method : Bytes} {params : Option JsonValue} {r : Request}
    (read : ofCall method params = .ok r) : r = .handshake ↔ method = Method.handshake.name := by
  unfold ofCall at read
  cases named : Method.ofName? method with
  | none => simp [named] at read
  | some m =>
    have spelled : m.name = method := by simpa using List.find?_some named
    -- The parameters do not decide which request it is.
    have made : ∃ value, ofParameters m value = r := by
      rw [named] at read
      dsimp only at read
      split at read
      · exact ⟨_, Except.ok.inj read⟩
      · split at read
        · cases read
        · split at read
          · exact ⟨_, Except.ok.inj read⟩
          · cases read
    obtain ⟨value, rfl⟩ := made
    rw [← spelled]
    cases m <;> simp [ofParameters] <;> decide

end Request

/-! ## What a hover shows -/

namespace Hover

/-- The printed value of a source, computed on no machine in particular. -/
def valueOf (a : Arithmetic) (source : Bytes) : Option Bytes :=
  match compile source with
  | .error _ => none
  | .ok c =>
    match Run.run a c with
    | .ok v => some v.print
    | .error _ => none

variable {w : Worker} {m : Machine}

/-- The worker's machine finds this value, unless the worker is stopped. -/
theorem evaluate_spec (alike : Machine.Alike w.machine (m.useFrontEnd (some .standard)))
    (source : Bytes) :
    (evaluate w source).1.stopped = w.stopped ∧
      Machine.Alike (evaluate w source).1.machine w.machine ∧
      (evaluate w source).2.1 = if w.stopped then none else valueOf m.arithmetic source := by
  obtain ⟨machine, stopped⟩ := w
  cases stopped with
  | true =>
    unfold evaluate
    rw [Worker.perform_stopped rfl]
    exact ⟨rfl, .refl machine, rfl⟩
  | false =>
    have performed : (Worker.mk machine false).perform (Job.interpret source) =
        (.start (machine.interpret source).machine, .ok (machine.interpret source)) :=
      Worker.perform_running machine (Job.interpret source)
    have kept := machine.alike_interpret source
    have result := machine.interpret_result source
    rw [alike.frontEnd, alike.arithmetic] at result
    simp only [Machine.useFrontEnd, FrontEnd.chunk_standard] at result
    unfold evaluate valueOf
    rw [performed]
    dsimp only
    -- The source is rejected, or its run returns or faults.
    cases compiled : compile source with
    | error e =>
      simp only [compiled, Except.mapError] at result
      rw [result]
      exact ⟨rfl, kept, rfl⟩
    | ok c =>
      simp only [compiled, Except.mapError] at result
      cases ran : Run.run m.arithmetic c with
      | error f =>
        simp only [ran] at result
        rw [result]
        simp only [ran]
        exact ⟨rfl, kept, rfl⟩
      | ok v =>
        simp only [ran] at result
        rw [result]
        simp only [ran]
        exact ⟨rfl, kept, rfl⟩

/-- What is shown at a position of a text, if values are wanted and can be had. -/
def shown (a : Arithmetic) (evaluates stopped : Bool) (content : Bytes) (p : Position) :
    Option Hover :=
  (Document.tokenAt? content p).map fun t =>
    ⟨render t
        (if evaluates && !stopped then valueOf a (Document.lineText content p.line) else none),
      Document.tokenRange content t⟩

theorem compute_spec (alike : Machine.Alike w.machine (m.useFrontEnd (some .standard)))
    (evaluates : Bool) (content : Bytes) (p : Position) :
    (compute w evaluates content p).1.stopped = w.stopped ∧
      Machine.Alike (compute w evaluates content p).1.machine w.machine ∧
      (compute w evaluates content p).2.1 = shown m.arithmetic evaluates w.stopped content p := by
  obtain ⟨kept, same, value⟩ := evaluate_spec alike (Document.lineText content p.line)
  unfold compute shown
  cases Document.tokenAt? content p with
  | none => exact ⟨rfl, .refl _, rfl⟩
  | some t =>
    cases evaluates with
    | false => exact ⟨rfl, .refl _, rfl⟩
    | true =>
      refine ⟨kept, same, ?_⟩
      simp only [if_true, Option.map_some, value, Bool.true_and]
      cases w.stopped <;> rfl

end Hover

namespace LanguageServer

def completionOf (content : Option Bytes) (p : Position) : Response :=
  match content with
  | none => .nothing
  | some content =>
    match if (Document.wordBefore content p).isEmpty then []
      else Document.completions (Document.wordBefore content p) with
    | [] => .nothing
    | items => .words items

/-- What hovering over a position of a document with this text answers. -/
def hoverOf (a : Arithmetic) (evaluates stopped : Bool) (content : Option Bytes) (p : Position) :
    Response :=
  match content.bind fun content => Hover.shown a evaluates stopped content p with
  | some shown => .hover shown
  | none => .nothing

/-! ## Serving one request -/

section Serve

variable (s : LanguageServer) {r : Request}

theorem serve_edit {e : Edit} (made : r.edit? = some e) :
    s.serve r =
      match e.content with
      | some content => s.store e.uri content
      | none => s.forget e.uri := by
  cases r with
  | opened uri content =>
    cases made
    rfl
  | changed uri changes =>
    simp only [Request.edit?] at made
    split at made
    next content last =>
      cases made
      simp only [serve, last]
    next => cases made
  | closed uri =>
    cases made
    rfl
  | _ => cases made

theorem serve_quiet (none : r.edit? = none) :
    (s.serve r).published = [] ∧ (s.serve r).server.documents = s.documents := by
  cases r with
  | opened uri content => cases none
  | changed uri changes =>
    rw [Request.edit?] at none
    rw [serve]
    cases last : changes.getLast? with
    | none => exact ⟨rfl, rfl⟩
    | some change =>
      rw [last] at none
      cases change with
      | whole content => cases none
      | part => exact ⟨rfl, rfl⟩
  | closed uri => cases none
  | hover uri p =>
    simp only [serve, hover]
    split
    · exact ⟨rfl, rfl⟩
    · exact ⟨rfl, rfl⟩
  | _ => exact ⟨rfl, rfl⟩

theorem serve_published : (s.serve r).published = (r.edit?.map Edit.publication).toList := by
  cases made : r.edit? with
  | none => exact (s.serve_quiet made).1
  | some e =>
    obtain ⟨uri, content⟩ := e
    rw [s.serve_edit made]
    cases content <;> rfl

theorem serve_documents (uri : Bytes) :
    (s.serve r).server.documents.find? uri =
      match r.edit? with
      | some e => if e.uri = uri then e.content else s.documents.find? uri
      | none => s.documents.find? uri := by
  cases made : r.edit? with
  | none => rw [(s.serve_quiet made).2]
  | some e =>
    obtain ⟨edited, content⟩ := e
    rw [s.serve_edit made]
    cases content with
    | none =>
      simp only [forget, DocumentStore.find?_erase, eq_comm (a := uri)]
    | some content =>
      simp only [store, DocumentStore.find?_insert, eq_comm (a := uri)]

end Serve

/-! ## Serving a history of calls -/

/-- The server after a call, which stays as it was if the call is refused. -/
def afterCall (s : LanguageServer) (c : Call) : LanguageServer :=
  match s.answer c.method c.params with
  | .ok served => served.server
  | .error _ => s

def published (s : LanguageServer) (c : Call) : List Publication :=
  match s.answer c.method c.params with
  | .ok served => served.published
  | .error _ => []

def after (s : LanguageServer) (history : List Call) : LanguageServer :=
  history.foldl afterCall s

/-- Everything that a history of calls publishes, in order. -/
def publications : LanguageServer → List Call → List Publication
  | _, [] => []
  | s, c :: later => s.published c ++ (s.afterCall c).publications later

theorem after_concat (s : LanguageServer) (history : List Call) (c : Call) :
    s.after (history ++ [c]) = (s.after history).afterCall c := by
  simp [after]

theorem publications_concat (s : LanguageServer) (history : List Call) (c : Call) :
    s.publications (history ++ [c]) = s.publications history ++ (s.after history).published c := by
  induction history generalizing s with
  | nil => simp [publications, after]
  | cons first later ih =>
    rw [List.cons_append, publications, ih, publications, List.append_assoc]
    rfl

/-- The errors that were last published for a document. -/
def lastPublished? (uri : Bytes) (published : List Publication) : Option (List Diagnostic) :=
  ((published.filter (·.uri = uri)).getLast?).map Publication.diagnostics

/-- A server is where the accepted requests have brought it. -/
structure Follows (m : Machine) (evaluates : Bool) (requests : List Request)
    (s : LanguageServer) : Prop where
  documents : ∀ uri, s.documents.find? uri = Request.storedText uri requests
  ready : s.ready = Request.inService requests
  stopped : s.worker.stopped = requests.contains .shutdown
  evaluates : s.evaluates = evaluates
  machine : Machine.Alike s.worker.machine (m.useFrontEnd (some .standard))

theorem follows_start (m : Machine) (evaluates : Bool) (version : Bytes) :
    Follows m evaluates [] (start m evaluates version) where
  documents _ := rfl
  ready := rfl
  stopped := rfl
  evaluates := rfl
  machine := .refl _

namespace Follows

variable {m : Machine} {evaluates : Bool} {requests : List Request} {s : LanguageServer}
  (follows : Follows m evaluates requests s)

include follows

/-- A hover uses the machine and changes nothing else. -/
theorem hover (uri : Bytes) (p : Position) :
    (s.hover uri p).server.ready = s.ready ∧ (s.hover uri p).server.evaluates = s.evaluates ∧
      (s.hover uri p).server.worker.stopped = s.worker.stopped ∧
      Machine.Alike (s.hover uri p).server.worker.machine s.worker.machine ∧
      (s.hover uri p).response =
        hoverOf m.arithmetic evaluates (requests.contains .shutdown)
          (Request.storedText uri requests) p := by
  rw [← follows.documents, ← follows.stopped, ← follows.evaluates]
  unfold LanguageServer.hover hoverOf
  cases s.documents.find? uri with
  | none => exact ⟨rfl, rfl, rfl, .refl _, rfl⟩
  | some content =>
    obtain ⟨stopped, alike, shown⟩ := Hover.compute_spec follows.machine s.evaluates content p
    refine ⟨rfl, rfl, stopped, alike, ?_⟩
    exact congrArg (fun | some shown => Response.hover shown | none => .nothing) shown

/-- Only the handshake and the shutdown matter to what is not a document. -/
theorem serve_frame (r : Request) :
    (s.serve r).server.ready =
        (if r = .handshake then true else if r = .shutdown then false else s.ready) ∧
      (s.serve r).server.worker.stopped = (s.worker.stopped || r = .shutdown) ∧
      (s.serve r).server.evaluates = s.evaluates ∧
      Machine.Alike (s.serve r).server.worker.machine s.worker.machine := by
  cases r with
  | handshake => exact ⟨rfl, (Bool.or_false _).symm, rfl, .refl _⟩
  | shutdown => exact ⟨rfl, (Bool.or_true _).symm, rfl, .refl _⟩
  | changed uri changes =>
    simp only [LanguageServer.serve]
    split
    · exact ⟨rfl, (Bool.or_false _).symm, rfl, .refl _⟩
    · exact ⟨rfl, (Bool.or_false _).symm, rfl, .refl _⟩
  | hover uri p =>
    obtain ⟨ready, evaluates, stopped, alike, -⟩ := follows.hover uri p
    exact ⟨ready, stopped.trans (Bool.or_false _).symm, evaluates, alike⟩
  | _ => exact ⟨rfl, (Bool.or_false _).symm, rfl, .refl _⟩

theorem serve (r : Request) : Follows m evaluates (requests ++ [r]) (s.serve r).server := by
  obtain ⟨ready, stopped, unchanged, alike⟩ := follows.serve_frame r
  constructor
  · intro uri
    rw [serve_documents, Request.storedText, Request.latestEdit?_concat]
    -- Either this request writes to the document, or store and register stay the same.
    cases r.edit? with
    | none => exact follows.documents uri
    | some e =>
      by_cases same : e.uri = uri
      · simp only [if_pos same, Option.bind_some]
      · simp only [if_neg same]
        exact follows.documents uri
  · rw [ready, Request.inService_concat, follows.ready]
  · rw [stopped, follows.stopped]
    simp [eq_comm]
  · exact unchanged.trans follows.evaluates
  · exact alike.trans follows.machine

theorem answer (c : Call) :
    match Request.ofCall c.method c.params with
    | .ok r =>
      s.answer c.method c.params =
        if Request.isAccepted requests r then .ok (s.serve r) else .error .notReady
    | .error _ => ∃ e, s.answer c.method c.params = .error e := by
  cases read : Request.ofCall c.method c.params with
  | error e =>
    simp only [LanguageServer.answer, read]
    split
    · exact ⟨_, rfl⟩
    · exact ⟨_, rfl⟩
  | ok r =>
    have named := Request.eq_handshake_iff read
    simp only [LanguageServer.answer, read, Request.isAccepted, follows.ready]
    by_cases handshake : r = .handshake
    · have name : c.method = Method.handshake.name := named.mp handshake
      simp [handshake, name]
    · have name : c.method ≠ Method.handshake.name := mt named.mpr handshake
      by_cases inService : Request.inService requests = true
      · simp [handshake, inService]
      · simp [handshake, name, inService]

/-- A call is a request that is accepted and served, or nothing happens. -/
theorem call_cases (c : Call) :
    (∃ r, Request.accept requests c = requests ++ [r] ∧
        s.answer c.method c.params = .ok (s.serve r)) ∨
      Request.accept requests c = requests ∧ ∃ e, s.answer c.method c.params = .error e := by
  have answered := follows.answer c
  unfold Request.accept
  cases read : Request.ofCall c.method c.params with
  | error e =>
    rw [read] at answered
    exact .inr ⟨rfl, answered⟩
  | ok r =>
    rw [read] at answered
    dsimp only at answered ⊢
    by_cases isAccepted : Request.isAccepted requests r = true
    · rw [if_pos isAccepted] at answered ⊢
      exact .inl ⟨r, rfl, answered⟩
    · rw [if_neg isAccepted] at answered ⊢
      exact .inr ⟨rfl, _, answered⟩

theorem call (c : Call) : Follows m evaluates (Request.accept requests c) (s.afterCall c) := by
  unfold LanguageServer.afterCall
  rcases follows.call_cases c with ⟨r, accepted, answered⟩ | ⟨refused, e, answered⟩
  · rw [accepted, answered]
    exact follows.serve r
  · rw [refused, answered]
    exact follows

end Follows

theorem follows_after (m : Machine) (evaluates : Bool) (version : Bytes) (history : List Call) :
    Follows m evaluates (Request.accepted history) ((start m evaluates version).after history) := by
  induction history using List.reverseRecOn with
  | nil => exact follows_start m evaluates version
  | append_singleton history c ih =>
    rw [after_concat, Request.accepted_concat]
    exact ih.call c

/-- The publications of a history are those of the edits among its accepted requests. -/
theorem publications_eq (m : Machine) (evaluates : Bool) (version : Bytes) (history : List Call) :
    (start m evaluates version).publications history =
      ((Request.accepted history).filterMap Request.edit?).map Edit.publication := by
  induction history using List.reverseRecOn with
  | nil => rfl
  | append_singleton history c ih =>
    rw [publications_concat, Request.accepted_concat, ih, published]
    rcases (follows_after m evaluates version history).call_cases c with
      ⟨r, accepted, answered⟩ | ⟨refused, e, answered⟩
    · rw [accepted, answered, List.filterMap_append, List.map_append]
      dsimp only
      rw [serve_published]
      cases made : r.edit? <;> simp [made]
    · rw [refused, answered]
      exact List.append_nil _

theorem lastPublished?_eq (uri : Bytes) (requests : List Request) :
    lastPublished? uri ((requests.filterMap Request.edit?).map Edit.publication) =
      (Request.latestEdit? uri requests).map fun _ =>
        ((Request.storedText uri requests).map Document.diagnose).getD [] := by
  have filtered : ((requests.filterMap Request.edit?).map Edit.publication).filter (·.uri = uri) =
      ((requests.filterMap Request.edit?).filter (·.uri = uri)).map Edit.publication := by
    rw [List.filter_map]
    rfl
  rw [lastPublished?, filtered, List.getLast?_map, Request.storedText, Request.latestEdit?]
  cases ((requests.filterMap Request.edit?).filter (·.uri = uri)).getLast? <;> rfl

end LanguageServer

open LanguageServer in
/-- Whatever is called, in any order and for any documents, a server stores for each document the
text of its latest accepted edit, and the last errors it published for the document are those of
that text. An accepted edit publishes once and touches its own document only; every other call
publishes nothing and changes no document. What is offered and shown depends on the text of the
document alone, and values also on whether they are wanted and no shutdown has been. -/
theorem documents_follow_requests (m : Machine) (evaluates : Bool) (version : Bytes)
    (history : List Call) :
    let first := LanguageServer.start m evaluates version
    let s := first.after history
    let requests := Request.accepted history
    (∀ uri, s.documents.find? uri = Request.storedText uri requests) ∧
    (∀ uri, lastPublished? uri (first.publications history) =
      (Request.latestEdit? uri requests).map fun _ =>
        ((s.documents.find? uri).map Document.diagnose).getD []) ∧
    ∀ c : Call,
      match Request.ofCall c.method c.params with
      | .error _ => ∃ e, s.answer c.method c.params = .error e
      | .ok r =>
        if Request.isAccepted requests r then
          ∃ served, s.answer c.method c.params = .ok served ∧
            served.published = (r.edit?.map Edit.publication).toList ∧
            (∀ uri, (∀ e ∈ r.edit?, e.uri ≠ uri) →
              served.server.documents.find? uri = s.documents.find? uri) ∧
            (∀ uri p, r = .complete uri p →
              served.response = completionOf (Request.storedText uri requests) p) ∧
            ∀ uri p, r = .hover uri p →
              served.response = hoverOf m.arithmetic evaluates (requests.contains .shutdown)
                (Request.storedText uri requests) p
        else s.answer c.method c.params = .error .notReady := by
  intro first s requests
  have follows : Follows m evaluates requests s := follows_after m evaluates version history
  refine ⟨follows.documents, ?_, ?_⟩
  · intro uri
    rw [publications_eq, lastPublished?_eq, follows.documents]
  · intro c
    have answered := follows.answer c
    cases read : Request.ofCall c.method c.params with
    | error e =>
      rw [read] at answered
      exact answered
    | ok r =>
      rw [read] at answered
      dsimp only at answered ⊢
      split
      next isAccepted =>
        rw [if_pos isAccepted] at answered
        refine ⟨s.serve r, answered, s.serve_published, ?_, ?_, ?_⟩
        · intro uri other
          rw [serve_documents]
          cases made : r.edit? with
          | none => rfl
          | some e => exact if_neg (other e made)
        · rintro uri p rfl
          rw [← follows.documents]
          rfl
        · rintro uri p rfl
          exact (follows.hover uri p).2.2.2.2
      next refused =>
        rw [if_neg refused] at answered
        exact answered

end Abacus
