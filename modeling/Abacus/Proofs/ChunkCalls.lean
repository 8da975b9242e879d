import Abacus.Bytecode.Chunk

/-!
# Building chunks by calls

A chunk is built by calls on it, in any order and with any arguments. A call that has a constant for
the pool is refused when the pool is full, and then it changes nothing; every other call adds to the
ends of the code and its lines, of the pool, or of all three (`Call.addTo`). So whatever has been
written keeps its index, and what a call has returned stays true whatever calls come later.

The pool never has more constants than an operand byte has values, which is why the number of
constants before a call, taken as a byte, is the index of the constant that the call adds.
-/
namespace Abacus.Chunk

inductive Call
  | write (i : Instruction) (line : Int)
  /-- Writes an opcode, which may be any byte, without an operand. -/
  | writeOp (code : UInt8) (line : Int)
  | writeConstant (v : Value) (line : Int)
  | addConstant (v : Value)
  | makeConstant (v : Value)

inductive Answer
  /-- Where the instruction has been written. -/
  | index (instruction : Nat)
  /-- How many constants there are now. -/
  | size (pool : Nat)
  /-- What refers to the constant. -/
  | operand (constant : UInt8)
  deriving DecidableEq

/-- What a call comes to, and the chunk that it was made on as it is afterwards. -/
abbrev Outcome (α : Type) : Type := Except ChunkError α × Chunk

/-- A refused call leaves the chunk as it was. -/
def settle {α β : Type} (c : Chunk) (answer : α → β) : Except ChunkError (α × Chunk) → Outcome β
  | .ok (a, d) => (.ok (answer a), d)
  | .error e => (.error e, c)

def perform (c : Chunk) : Call → Outcome Answer
  | .write i line => (.ok (.index c.code.size), c.write i line)
  | .writeOp code line => (.ok (.index c.code.size), c.write ⟨code, 0⟩ line)
  | .writeConstant v line => c.settle .index (c.writeConstant v line)
  | .addConstant v => c.settle .size (c.addConstant v)
  | .makeConstant v => c.settle .operand (c.makeConstant v)

def after (c : Chunk) (calls : List Call) : Chunk :=
  calls.foldl (fun c call => (c.perform call).2) c

/-! ## Calls in place

The operations give a new chunk, or an error and no chunk. In place, a call has one chunk to work on
from its first step to its last, and an error does not undo the steps before it.
-/

namespace InPlace

/-- Goes on with what the first part came to, on the chunk that it left. -/
def andThen {α β : Type} (first : Outcome α) (next : α → Chunk → Outcome β) : Outcome β :=
  match first with
  | (.ok a, c) => next a c
  | (.error e, c) => (.error e, c)

def write (i : Instruction) (line : Int) (c : Chunk) : Outcome Nat :=
  let index := c.code.size
  let c := { c with code := c.code.push i }
  let c := { c with lines := c.lines.push line }
  (.ok index, c)

def addConstant (v : Value) (c : Chunk) : Outcome Nat :=
  if c.constants.size ≥ maxConstants then (.error .poolFull, c)
  else
    let c := { c with constants := c.constants.push v }
    (.ok c.constants.size, c)

def makeConstant (v : Value) (c : Chunk) : Outcome UInt8 :=
  andThen (addConstant v c) fun size c => (.ok (UInt8.ofNat (size - 1)), c)

def writeConstant (v : Value) (line : Int) (c : Chunk) : Outcome Nat :=
  andThen (makeConstant v c) fun operand c => write (.constant operand) line c

def returning {α : Type} (answer : α → Answer) (call : Outcome α) : Outcome Answer :=
  andThen call fun a c => (.ok (answer a), c)

def perform (c : Chunk) : Call → Outcome Answer
  | .write i line => returning .index (write i line c)
  | .writeOp code line => returning .index (write ⟨code, 0⟩ line c)
  | .writeConstant v line => returning .index (writeConstant v line c)
  | .addConstant v => returning .size (addConstant v c)
  | .makeConstant v => returning .operand (makeConstant v c)

theorem andThen_settle {α β γ : Type} (c : Chunk) (answer : α → β) (f : β → γ)
    (result : Except ChunkError (α × Chunk)) :
    andThen (c.settle answer result) (fun b d => (.ok (f b), d)) =
      c.settle (f ∘ answer) result := by
  cases result <;> rfl

theorem addConstant_eq (v : Value) (c : Chunk) :
    addConstant v c = c.settle id (c.addConstant v) := by
  unfold addConstant Chunk.addConstant
  split
  · rfl
  · simp [settle]

theorem makeConstant_eq (v : Value) (c : Chunk) :
    makeConstant v c = c.settle id (c.makeConstant v) := by
  rw [makeConstant, addConstant_eq, andThen_settle, Chunk.makeConstant]
  cases c.addConstant v <;> rfl

theorem writeConstant_eq (v : Value) (line : Int) (c : Chunk) :
    writeConstant v line c = c.settle id (c.writeConstant v line) := by
  rw [writeConstant, makeConstant_eq, Chunk.writeConstant]
  cases c.makeConstant v <;> rfl

/-- In place, too, a refused call leaves the chunk as it was. -/
theorem perform_eq (c : Chunk) (call : Call) : perform c call = c.perform call := by
  cases call with
  | write => rfl
  | writeOp => rfl
  | writeConstant => rw [perform, returning, writeConstant_eq, andThen_settle]; rfl
  | addConstant => rw [perform, returning, addConstant_eq, andThen_settle]; rfl
  | makeConstant => rw [perform, returning, makeConstant_eq, andThen_settle]; rfl

end InPlace

/-! ## What a call can do -/

namespace Call

/-- The constant that a call has for the pool. -/
def constant? : Call → Option Value
  | writeConstant v _ | addConstant v | makeConstant v => some v
  | write _ _ | writeOp _ _ => none

/-- The instruction that a call writes, and its line, when there are this many constants. -/
def written? (constants : Nat) : Call → Option (Instruction × Int)
  | write i line => some (i, line)
  | writeOp code line => some (⟨code, 0⟩, line)
  | writeConstant _ line => some (.constant (UInt8.ofNat constants), line)
  | addConstant _ | makeConstant _ => none

/-- The call has a constant for a pool that is full. -/
def Refused (call : Call) (c : Chunk) : Prop :=
  call.constant?.isSome ∧ maxConstants ≤ c.constants.size

def answer (c : Chunk) : Call → Answer
  | write _ _ | writeOp _ _ | writeConstant _ _ => .index c.code.size
  | addConstant _ => .size (c.constants.size + 1)
  | makeConstant _ => .operand (UInt8.ofNat c.constants.size)

/-- The chunk with what the call has for the ends of its code, its pool and its lines. -/
def addTo (call : Call) (c : Chunk) : Chunk where
  code := c.code ++ ((call.written? c.constants.size).map Prod.fst).toArray
  constants := c.constants ++ call.constant?.toArray
  lines := c.lines ++ ((call.written? c.constants.size).map Prod.snd).toArray

end Call

variable {c d : Chunk} {call : Call}

theorem addConstant_of_full (full : maxConstants ≤ c.constants.size) (v : Value) :
    c.addConstant v = .error .poolFull := by
  rw [addConstant, if_pos full]

theorem addConstant_of_room (room : c.constants.size < maxConstants) (v : Value) :
    c.addConstant v = .ok (c.constants.size + 1, { c with constants := c.constants.push v }) := by
  rw [addConstant, if_neg (Nat.not_le.mpr room)]

theorem room_of_accepted {v : Value} (accepted : ¬ call.Refused c)
    (constant : call.constant? = some v) : c.constants.size < maxConstants := by
  simpa [Call.Refused, constant] using accepted

theorem perform_of_refused (refused : call.Refused c) :
    c.perform call = (.error .poolFull, c) := by
  obtain ⟨constant, full⟩ := refused
  have none := addConstant_of_full full
  cases call with
  | write | writeOp => cases constant
  | writeConstant v line => simp [perform, writeConstant, makeConstant, none, settle]
  | addConstant v => simp [perform, none, settle]
  | makeConstant v => simp [perform, makeConstant, none, settle]

theorem perform_of_accepted (accepted : ¬ call.Refused c) :
    c.perform call = (.ok (call.answer c), call.addTo c) := by
  have added (v : Value) (constant : call.constant? = some v) :=
    addConstant_of_room (room_of_accepted accepted constant) v
  cases call with
  | write i line =>
    simp [perform, write, Call.answer, Call.addTo, Call.written?, Call.constant?]
  | writeOp code line =>
    simp [perform, write, Call.answer, Call.addTo, Call.written?, Call.constant?]
  | writeConstant v line =>
    simp [perform, writeConstant, makeConstant, added v rfl, settle, write, Call.answer,
      Call.addTo, Call.written?, Call.constant?]
  | addConstant v =>
    simp [perform, added v rfl, settle, Call.answer, Call.addTo, Call.written?, Call.constant?]
  | makeConstant v =>
    simp [perform, makeConstant, added v rfl, settle, Call.answer, Call.addTo, Call.written?,
      Call.constant?]

/-! ## What all calls preserve -/

/-- Each instruction has its line, and each constant an operand that refers to it. -/
structure Built (c : Chunk) : Prop where
  lockstep : c.lines.size = c.code.size
  fits : c.constants.size ≤ maxConstants

theorem built_empty : empty.Built := ⟨rfl, Nat.zero_le _⟩

theorem Built.perform (built : c.Built) (call : Call) : (c.perform call).2.Built := by
  by_cases refused : call.Refused c
  · rw [perform_of_refused refused]
    exact built
  · rw [perform_of_accepted refused]
    constructor
    · cases written : call.written? c.constants.size <;>
        simp [Call.addTo, written, built.lockstep]
    · cases constant : call.constant? with
      | none => simpa [Call.addTo, constant] using built.fits
      | some v =>
        have room := room_of_accepted refused constant
        simpa [Call.addTo, constant] using Nat.succ_le_of_lt room

theorem Built.after (built : c.Built) (calls : List Call) : (c.after calls).Built := by
  unfold Chunk.after
  induction calls generalizing c with
  | nil => exact built
  | cons call later ih => exact ih (built.perform call)

/-- What is in the first chunk is at the same places in the second. -/
structure Kept (c d : Chunk) : Prop where
  code : c.code.toList <+: d.code.toList
  constants : c.constants.toList <+: d.constants.toList
  lines : c.lines.toList <+: d.lines.toList

theorem Kept.refl (c : Chunk) : c.Kept c :=
  ⟨List.prefix_rfl, List.prefix_rfl, List.prefix_rfl⟩

theorem Kept.trans {e : Chunk} (first : c.Kept d) (second : d.Kept e) : c.Kept e :=
  ⟨first.code.trans second.code, first.constants.trans second.constants,
    first.lines.trans second.lines⟩

theorem kept_perform (c : Chunk) (call : Call) : c.Kept (c.perform call).2 := by
  by_cases refused : call.Refused c
  · rw [perform_of_refused refused]
    exact Kept.refl c
  · rw [perform_of_accepted refused]
    constructor <;> simp [Call.addTo]

theorem kept_after (c : Chunk) (calls : List Call) : c.Kept (c.after calls) := by
  unfold after
  induction calls generalizing c with
  | nil => exact Kept.refl c
  | cons call later ih => exact (kept_perform c call).trans (ih _)

/-! ## Reading what has been written -/

theorem getElem?_extended {α : Type} {items more : Array α} {n : Nat} {a : α}
    (same : items.toList <+: more.toList) (found : items[n]? = some a) : more[n]? = some a := by
  obtain ⟨rest, shape⟩ := same
  rw [← Array.getElem?_toList] at found ⊢
  rw [← shape, List.getElem?_append_left (List.getElem?_eq_some_iff.mp found).1]
  exact found

theorem at?_extended {α : Type} {items more : Array α} {index : Int} {a : α}
    (same : items.toList <+: more.toList) (found : at? items index = some a) :
    at? more index = some a := by
  unfold at? at found ⊢
  split at found
  · cases found
  next inside =>
    rw [if_neg inside]
    exact getElem?_extended same found

@[simp] theorem at?_natCast {α : Type} (items : Array α) (n : Nat) :
    at? items (n : Int) = items[n]? := by
  rw [at?, if_neg (Int.not_lt.mpr (Int.natCast_nonneg n)), Int.toNat_natCast]

theorem read_eq_ok_iff {index : Int} {i : Instruction} :
    c.read index = .ok i ↔ at? c.code index = some i := by
  unfold read
  cases at? c.code index <;> simp

theorem readConstant_eq_ok_iff {operand : UInt8} {v : Value} :
    c.readConstant operand = .ok v ↔ c.constants[operand.toNat]? = some v := by
  unfold readConstant
  cases c.constants[operand.toNat]? <;> simp

theorem Kept.read (kept : c.Kept d) {index : Int} {i : Instruction} (found : c.read index = .ok i) :
    d.read index = .ok i :=
  read_eq_ok_iff.mpr (at?_extended kept.code (read_eq_ok_iff.mp found))

theorem Kept.readConstant (kept : c.Kept d) {operand : UInt8} {v : Value}
    (found : c.readConstant operand = .ok v) : d.readConstant operand = .ok v :=
  readConstant_eq_ok_iff.mpr (getElem?_extended kept.constants (readConstant_eq_ok_iff.mp found))

/-- An instruction that is there has a line, and keeps it. -/
theorem Kept.line (kept : c.Kept d) (built : c.Built) {index : Int} {i : Instruction}
    (found : c.read index = .ok i) : d.line index = c.line index := by
  have code := read_eq_ok_iff.mp found
  unfold at? at code
  split at code
  · cases code
  next inside =>
    have present : index.toNat < c.lines.size := by
      rw [built.lockstep]
      exact (Array.getElem?_eq_some_iff.mp code).1
    have line : at? c.lines index = some c.lines[index.toNat] := by
      rw [at?, if_neg inside, Array.getElem?_eq_getElem present]
    rw [Chunk.line, Chunk.line, at?_extended kept.lines line, line]

/-! ## What a call has promised -/

/-- The instruction stands at the index, and came from the line. -/
def Holds (c : Chunk) (index : Nat) (i : Instruction) (line : Int) : Prop :=
  c.read index = .ok i ∧ c.line index = line

/-- What the answer to a call says about a chunk that has had more calls after it: `before` is the
chunk that the call was made on, and `next` what the call made of it. -/
def Call.Honoured (before next final : Chunk) (answer : Answer) : Call → Prop
  | .write i line =>
    answer = .index before.code.size ∧ final.Holds before.code.size i line
  | .writeOp code line =>
    answer = .index before.code.size ∧ final.Holds before.code.size ⟨code, 0⟩ line
  | .writeConstant v line =>
    answer = .index before.code.size ∧
      ∃ operand, final.Holds before.code.size (.constant operand) line ∧
        operand.toNat = before.constants.size ∧ final.readConstant operand = .ok v
  | .addConstant v =>
    answer = .size next.constants.size ∧ next.constants.size = before.constants.size + 1 ∧
      ∃ operand : UInt8, operand.toNat = before.constants.size ∧
        final.readConstant operand = .ok v
  | .makeConstant v =>
    ∃ operand, answer = .operand operand ∧ operand.toNat = before.constants.size ∧
      final.readConstant operand = .ok v

theorem holds_addTo {i : Instruction} {line : Int} (built : c.Built)
    (written : call.written? c.constants.size = some (i, line)) :
    (call.addTo c).Holds c.code.size i line := by
  constructor
  · simp [read_eq_ok_iff, Call.addTo, written]
  · rw [Chunk.line, at?_natCast, ← built.lockstep]
    simp [Call.addTo, written]

/-- There is an operand for every constant that has found room in the pool. -/
theorem toNat_operand (room : c.constants.size < maxConstants) :
    (UInt8.ofNat c.constants.size).toNat = c.constants.size := by
  rw [UInt8.toNat_ofNat']
  exact Nat.mod_eq_of_lt room

theorem readConstant_addTo {v : Value} (room : c.constants.size < maxConstants)
    (constant : call.constant? = some v) :
    (call.addTo c).readConstant (UInt8.ofNat c.constants.size) = .ok v := by
  rw [readConstant_eq_ok_iff, toNat_operand room]
  simp [Call.addTo, constant]

theorem Holds.later {index : Nat} {i : Instruction} {line : Int} (holds : c.Holds index i line)
    (built : c.Built) (kept : c.Kept d) : d.Holds index i line :=
  ⟨kept.read holds.1, (kept.line built holds.1).trans holds.2⟩

theorem honoured_of_accepted (built : c.Built) (accepted : ¬ call.Refused c) {final : Chunk}
    (kept : (call.addTo c).Kept final) :
    call.Honoured c (call.addTo c) final (call.answer c) := by
  have behind : (call.addTo c).Built := by
    have made := built.perform call
    rwa [perform_of_accepted accepted] at made
  have pooled (v : Value) (constant : call.constant? = some v) :
      (UInt8.ofNat c.constants.size).toNat = c.constants.size ∧
        final.readConstant (UInt8.ofNat c.constants.size) = .ok v := by
    have room := room_of_accepted accepted constant
    exact ⟨toNat_operand room, kept.readConstant (readConstant_addTo room constant)⟩
  cases call with
  | write i line => exact ⟨rfl, (holds_addTo built rfl).later behind kept⟩
  | writeOp code line => exact ⟨rfl, (holds_addTo built rfl).later behind kept⟩
  | writeConstant v line =>
    exact ⟨rfl, _, (holds_addTo built rfl).later behind kept, pooled v rfl⟩
  | addConstant v =>
    have grown : ((Call.addConstant v).addTo c).constants.size = c.constants.size + 1 := by
      simp [Call.addTo, Call.constant?]
    exact ⟨congrArg Answer.size grown.symm, grown, _, pooled v rfl⟩
  | makeConstant v => exact ⟨_, rfl, pooled v rfl⟩

/-- Whatever calls have been made on a new chunk, it has a line for each instruction and at most 256
constants, and what has been written stays at its index whatever calls come later. A call is refused
exactly if it has a constant for a full pool, and then it leaves the chunk as it was, although it is
carried out in place; the answer to any other call stays true of the chunk for good. -/
theorem calls_only_append (earlier later : List Call) (call : Call) :
    let before := empty.after earlier
    let next := empty.after (earlier ++ [call])
    let final := empty.after (earlier ++ call :: later)
    InPlace.perform before call = before.perform call ∧ (before.perform call).2 = next ∧
    before.lines.size = before.code.size ∧ before.constants.size ≤ 256 ∧ before.Kept final ∧
    (∀ index i, before.read index = .ok i →
      final.read index = .ok i ∧ final.line index = before.line index) ∧
    (∀ operand v, before.readConstant operand = .ok v → final.readConstant operand = .ok v) ∧
    match (before.perform call).1 with
    | .ok answer =>
      ¬ (call.constant?.isSome ∧ before.constants.size = 256) ∧
        call.Honoured before next final answer
    | .error e =>
      (call.constant?.isSome ∧ before.constants.size = 256) ∧
        e.cause? = some .constantPoolFull ∧ next = before := by
  intro before next final
  have built : before.Built := built_empty.after earlier
  have made : (before.perform call).2 = next := by
    simp only [before, next, after, List.foldl_append, List.foldl_cons, List.foldl_nil]
  have onward : final = next.after later := by
    simp only [final, next, after, List.foldl_append, List.foldl_cons, List.foldl_nil]
  have kept : before.Kept final := by
    rw [onward, ← made]
    exact (kept_perform before call).trans (kept_after _ later)
  -- The pool never has more than 256 constants, so a full one has exactly as many.
  have full : call.Refused before ↔ call.constant?.isSome ∧ before.constants.size = 256 :=
    and_congr_right fun _ =>
      ⟨fun most => Nat.le_antisymm built.fits most, fun all => Nat.le_of_eq all.symm⟩
  refine ⟨InPlace.perform_eq before call, made, built.lockstep, built.fits, kept,
    fun index i found => ⟨kept.read found, kept.line built found⟩,
    fun operand v found => kept.readConstant found, ?_⟩
  by_cases refused : call.Refused before
  · rw [perform_of_refused refused] at made ⊢
    exact ⟨full.mp refused, rfl, made.symm⟩
  · rw [perform_of_accepted refused] at made ⊢
    refine ⟨mt full.mpr refused, ?_⟩
    rw [← made]
    apply honoured_of_accepted built refused
    rw [onward, ← made]
    exact kept_after _ later

/-- The last constant that finds room has the last operand, and the next one is refused. -/
example :
    let c := empty.after (List.replicate 255 (.addConstant default))
    (c.perform (.makeConstant default)).1.toOption = some (.operand 255) ∧
      ((c.after [.makeConstant default]).perform (.makeConstant default)).1.toOption = none := by
  decide +kernel

end Abacus.Chunk
