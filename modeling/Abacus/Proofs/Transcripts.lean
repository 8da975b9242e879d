import Abacus.Proofs.ArtifactAgreement
import Abacus.Proofs.InputLines

/-!
# A session is its lines one after the other

One machine and one sink serve all lines of a session. Since a machine keeps no memory of earlier
runs, every line adds to the two outputs what it would show alone (`Transcript.alone`), whatever
came before it. So the transcript of a session is that of its lines in a row, with a prompt before
each of them and one more at the end.

`Session.Serving` is what serving a line needs, and `Session.Adds` what it does. Each thing that a
session can do is a step of that kind, and the steps compose.
-/
namespace Abacus

namespace Sink

variable {s : Sink} (unlimited : s.left = none)

include unlimited

theorem left_offer (piece : Bytes) : (s.offer piece).left = none := by
  simp [offer, write, unlimited]

theorem content_offer (piece : Bytes) : (s.offer piece).content = s.content ++ piece :=
  s.offer_content piece (by simp [unlimited])

theorem offers (pieces : List Bytes) :
    (pieces.foldl offer s).left = none ∧
      (pieces.foldl offer s).content = s.content ++ pieces.flatten := by
  induction pieces generalizing s with
  | nil => simp [unlimited]
  | cons piece others ih =>
    obtain ⟨left, content⟩ := ih (left_offer unlimited piece)
    refine ⟨left, ?_⟩
    rw [List.foldl_cons, content, content_offer unlimited, List.flatten_cons, List.append_assoc]

theorem writeAll_eq_offers (pieces : List Bytes) :
    s.writeAll pieces = (pieces.foldl offer s, true) := by
  induction pieces generalizing s with
  | nil => rfl
  | cons piece others ih =>
    have accepted : s.write piece = (s.offer piece, true) := by
      simp [offer, write, unlimited]
    rw [writeAll, accepted]
    exact ih (left_offer unlimited piece)

end Sink

namespace Interpreter

/-- What is written to standard output and reported as errors. -/
structure Transcript where
  output : Bytes
  errors : Bytes
  deriving DecidableEq, Repr

namespace Transcript

def empty : Transcript := ⟨[], []⟩

/-- A report and nothing else. -/
def complaint (message : Bytes) : Transcript := ⟨[], report message⟩

def append (t u : Transcript) : Transcript := ⟨t.output ++ u.output, t.errors ++ u.errors⟩

theorem append_assoc (t u v : Transcript) : (t.append u).append v = t.append (u.append v) := by
  simp [append]

/-- One line on a new machine. -/
def alone (line : InputLine) : Transcript :=
  let s := (Session.start .working).serve line
  ⟨s.output.content, s.errors⟩

/-- What a command shows: the help, the listing of an expression, its tokens, or a complaint. -/
def ofCommand : Command → Transcript
  | .help => ⟨(helpLines.map fun line => report (text line)).flatten, []⟩
  | .disassemble expression =>
    match compile expression with
    | .error e => complaint e.message
    | .ok chunk => ⟨chunk.disassemble (Text.trim expression), []⟩
  | .tokens expression => ⟨((tokenize expression).map Token.listingRow).flatten, []⟩
  | .unknown name =>
    complaint (text "Unknown command: " ++ name ++ text " (type :help for commands)")

/-- What an expression shows: the line of its value on a new machine, or a complaint. -/
def ofExpression (source : Bytes) : Transcript :=
  match ((machine .working).interpret source).result with
  | .error e => complaint e.message
  | .ok v => ⟨v.print ++ [newline], []⟩

def ofLine : InputLine → Transcript
  | .tooLong => complaint (text "line too long (over 1048576 bytes)")
  | .line content =>
    let line := Text.trim content
    if line = [] then empty
    else if line.head? = some (byte ':') then ofCommand (.ofLine line)
    else ofExpression line

end Transcript

open Transcript

/-! ## Commands -/

theorem Command.perform_transcript {out : Sink} (unlimited : out.left = none) (c : Command) :
    (c.perform out).1.left = none ∧
      (c.perform out).1.content = out.content ++ (ofCommand c).output ∧
      (c.perform out).2 = (ofCommand c).errors := by
  cases c with
  | help =>
    obtain ⟨left, content⟩ := Sink.offers unlimited (helpLines.map fun line => report (text line))
    rw [List.foldl_map] at left content
    exact ⟨left, content, rfl⟩
  | disassemble expression =>
    cases compiled : compile expression with
    | error e =>
      simp only [perform, ofCommand, compiled]
      exact ⟨unlimited, (List.append_nil _).symm, rfl⟩
    | ok chunk =>
      obtain ⟨left, content⟩ :=
        Sink.offers unlimited (chunk.titledListing (Text.trim expression))
      simp only [perform, ofCommand, compiled, Chunk.disassembleTo,
        Sink.writeAll_eq_offers unlimited, and_true]
      exact ⟨left, content⟩
  | tokens expression =>
    obtain ⟨left, content⟩ := Sink.offers unlimited ((tokenize expression).map Token.listingRow)
    rw [List.foldl_map] at left content
    exact ⟨left, content, rfl⟩
  | unknown name => exact ⟨unlimited, (List.append_nil _).symm, rfl⟩

/-! ## Steps of a session -/

namespace Session

/-- A machine at rest that compiles this language and writes to a sink that never fails. -/
structure Serving (m : Machine) : Prop where
  resting : Machine.Resting .floatingPoint m
  compiles : m.frontEnd = some .standard
  sink : ∃ out : Sink, m.output = some out ∧ out.left = none

/-- A session has gone on and shown this. -/
structure Adds (s : Session) (t : Transcript) (s' : Session) : Prop where
  serving : Serving s'.machine
  output : s'.output.content = s.output.content ++ t.output
  errors : s'.errors = s.errors ++ t.errors

theorem Adds.trans {s s' s'' : Session} {t u : Transcript} (first : Adds s t s')
    (second : Adds s' u s'') : Adds s (t.append u) s'' where
  serving := second.serving
  output := by rw [second.output, first.output, Transcript.append, List.append_assoc]
  errors := by rw [second.errors, first.errors, Transcript.append, List.append_assoc]

theorem serving_machine {out : Sink} (unlimited : out.left = none) :
    Serving (Interpreter.machine out) where
  resting := resting_machine out
  compiles := rfl
  sink := ⟨out, rfl, unlimited⟩

namespace Serving

section Machine

variable {m : Machine} (serving : Serving m)

include serving

theorem made (source : Bytes) :
    FrontEnd.chunk m.frontEnd source = (compile source).mapError .rejected := by
  rw [serving.compiles, FrontEnd.chunk_standard]

theorem rejected {source : Bytes} {e : SyntaxError} (failed : compile source = .error e) :
    (m.interpret source).result = .error (.compile (.rejected e)) ∧
      (m.interpret source).machine = m := by
  have none := serving.made source
  rw [failed] at none
  obtain ⟨unchanged, result⟩ := Machine.interpret_rejected none
  exact ⟨result, unchanged⟩

theorem returned {source : Bytes} {c : Chunk} {v : Value} (compiled : compile source = .ok c)
    (value : Run.run .floatingPoint c = .ok v) :
    (m.interpret source).result = .ok v ∧
      (m.interpret source).machine =
        { m with chunk := some c, stack := [], status := .halted,
                 output := m.output.map (·.offer (v.print ++ [newline])) } := by
  have chunk := serving.made source
  rw [compiled] at chunk
  obtain ⟨machine, result⟩ := Machine.interpret_compiled chunk
  rw [← serving.resting.arithmetic] at value
  obtain ⟨executed, after⟩ := Machine.execute_of_run m c v value
  exact ⟨result.trans executed, machine.trans after⟩

end Machine

variable {s : Session} (serving : Serving s.machine)

include serving

theorem left_output : s.output.left = none := by
  obtain ⟨out, given, unlimited⟩ := serving.sink
  rw [output, given]
  exact unlimited

theorem withOutput {out : Sink} (unlimited : out.left = none) :
    Serving (s.withOutput out).machine where
  resting := serving.resting.set (.output out)
  compiles := serving.compiles
  sink := ⟨out, rfl, unlimited⟩

theorem idle : Adds s .empty s where
  serving := serving
  output := (List.append_nil _).symm
  errors := (List.append_nil _).symm

theorem say (piece : Bytes) : Adds s ⟨piece, []⟩ (s.say piece) where
  serving := serving.withOutput (Sink.left_offer serving.left_output piece)
  output := Sink.content_offer serving.left_output piece
  errors := (List.append_nil _).symm

theorem complain (message : Bytes) : Adds s (complaint message) (s.complain message) where
  serving := serving
  output := (List.append_nil _).symm
  errors := rfl

theorem interpret (source : Bytes) : Adds s (ofExpression source) (s.interpret source) := by
  have fresh : Serving (Interpreter.machine .working) := serving_machine rfl
  unfold ofExpression Session.interpret
  cases compiled : compile source with
  | error e =>
    obtain ⟨result, unchanged⟩ := serving.rejected compiled
    dsimp only
    rw [(fresh.rejected compiled).1, result, unchanged]
    exact serving.complain e.message
  | ok c =>
    -- The value is that of the chunk, on this machine as on a new one.
    obtain ⟨v, value⟩ := run_of_compile compiled .floatingPoint
    obtain ⟨result, machine⟩ := serving.returned compiled value
    obtain ⟨out, given, unlimited⟩ := serving.sink
    have resting := serving.resting.interpret source
    dsimp only
    rw [(fresh.returned compiled value).1, result]
    refine ⟨⟨resting, ?_, ?_⟩, ?_, (List.append_nil _).symm⟩
    · rw [machine]
      exact serving.compiles
    · refine ⟨out.offer (v.print ++ [newline]), ?_, Sink.left_offer unlimited _⟩
      rw [machine, given]
      rfl
    · have content := Sink.content_offer unlimited (v.print ++ [newline])
      simp only [output, machine, given, Option.map_some, Option.getD_some]
      exact content

theorem serve (line : InputLine) : Adds s (ofLine line) (s.serve line) := by
  cases line with
  | tooLong =>
    have message : tooLongMessage = text "line too long (over 1048576 bytes)" := by decide
    rw [ofLine, ← message]
    exact serving.complain tooLongMessage
  | line content =>
    unfold ofLine Session.serve
    dsimp only
    split
    · exact serving.idle
    · split
      · -- A command goes past the machine, straight to its sink.
        obtain ⟨left, written, reported⟩ :=
          (Command.ofLine (Text.trim content)).perform_transcript serving.left_output
        exact ⟨serving.withOutput left, written, congrArg (s.errors ++ ·) reported⟩
      · exact serving.interpret _

end Serving

/-! ## Whole sessions -/

/-- What a session does after the prompt, by what asking for a line gave. -/
def proceed (s : Session) (rest : List Fragment) : LineReading → Session
  | .line line => (s.serve line).converse rest
  | .inputEnd => s.say [newline]
  | .failure e => (s.complain (text "read error: " ++ e)).say [newline]

theorem converse_eq {fragments rest : List Fragment} {reading : LineReading}
    (read : Input.readLine fragments = (reading, rest)) (s : Session) :
    s.converse fragments = (s.say prompt).proceed rest reading := by
  rw [converse]
  split
  next found =>
    rw [read] at found
    cases found
    rfl
  next found =>
    rw [read] at found
    cases found
    rfl
  next found =>
    rw [read] at found
    cases found
    rfl

/-- The transcript of lines in a row, each after a prompt. -/
def transcriptOf (transcript : InputLine → Transcript) (lines : List InputLine) : Transcript where
  output := lines.flatMap fun line => prompt ++ (transcript line).output
  errors := lines.flatMap fun line => (transcript line).errors

def closing (failure : Option Bytes) : Transcript where
  output := prompt ++ [newline]
  errors :=
    match failure with
    | some e => report (text "read error: " ++ e)
    | none => []

theorem transcriptOf_cons (transcript : InputLine → Transcript) (line : InputLine)
    (lines : List InputLine) :
    transcriptOf transcript (line :: lines) =
      ((Transcript.mk prompt []).append (transcript line)).append
        (transcriptOf transcript lines) := by
  simp [transcriptOf, Transcript.append]

theorem Serving.closes {s : Session} (serving : Serving s.machine) {fragments : List Fragment}
    (i : Input) (read : Input.readLine fragments = (i.lastReading, [])) :
    Adds s (closing i.failure) (s.converse fragments) := by
  have prompted := serving.say prompt
  rw [converse_eq read]
  obtain ⟨content, failure⟩ := i
  cases failure with
  | none => exact prompted.trans (prompted.serving.say [newline])
  | some e =>
    have complained := prompted.serving.complain (text "read error: " ++ e)
    have ended := complained.serving.say [newline]
    have shown : closing (some e) =
        (Transcript.mk prompt []).append
          ((complaint (text "read error: " ++ e)).append ⟨[newline], []⟩) := by
      simp [closing, complaint, Transcript.append]
    rw [shown]
    exact prompted.trans (complained.trans ended)

/-- A session shows what its lines show, one after the other. -/
theorem Serving.converse {s : Session} (serving : Serving s.machine) (i : Input)
    {fragments : List Fragment} {lines : List InputLine}
    (yields : Input.Yields .start fragments lines i.lastReading) :
    Adds s ((transcriptOf ofLine lines).append (closing i.failure)) (s.converse fragments) := by
  generalize start : OpenLine.start = l at yields
  generalize ended : i.lastReading = last at yields
  induction yields generalizing s with
  | stop read none =>
    subst start ended
    exact serving.closes i read
  | @line l fragments rest line lines last read _ ih =>
    subst start ended
    have prompted := serving.say prompt
    have served := prompted.trans (prompted.serving.serve line)
    have later := ih served.serving rfl rfl
    rw [converse_eq read, transcriptOf_cons, Transcript.append_assoc]
    exact served.trans later

end Session

namespace Transcript

theorem alone_eq_ofLine (line : InputLine) : alone line = ofLine line := by
  have serving : Session.Serving (Session.start .working).machine := Session.serving_machine rfl
  have served := serving.serve line
  simp only [alone, served.output, served.errors]
  rfl

/-- Nothing is reported, or there is one report and nothing else. -/
def AtMostOneReport (t : Transcript) : Prop := t.errors = [] ∨ ∃ message, t = complaint message

theorem atMostOneReport_ofCommand (c : Command) : (ofCommand c).AtMostOneReport := by
  cases c with
  | help => exact .inl rfl
  | disassemble expression =>
    simp only [ofCommand]
    split
    · exact .inr ⟨_, rfl⟩
    · exact .inl rfl
  | tokens expression => exact .inl rfl
  | unknown name => exact .inr ⟨_, rfl⟩

theorem atMostOneReport_ofLine (line : InputLine) : (ofLine line).AtMostOneReport := by
  cases line with
  | tooLong => exact .inr ⟨_, rfl⟩
  | line content =>
    unfold ofLine
    dsimp only
    split
    · exact .inl rfl
    · split
      · exact atMostOneReport_ofCommand _
      · unfold ofExpression
        split
        · exact .inr ⟨_, rfl⟩
        · exact .inl rfl

end Transcript

end Interpreter

end Abacus
