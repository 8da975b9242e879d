import Abacus.Bytecode.Opcode
import Abacus.Bytecode.Value
import Abacus.Cause

/-!
# Chunks

A chunk is code, the pool of constants that the code refers to, and the source line of each
instruction. The pool has at most 256 entries, one for each operand byte, and `addConstant` keeps
it so; a chunk that was built by hand or read from a file may break any of these rules, and
`validate` says whether it does.
-/
namespace Abacus

structure Chunk where
  code : Array Instruction
  constants : Array Value
  lines : Array Int
  deriving DecidableEq, Repr, Inhabited

/-- What can be wrong with a chunk, with an index into one, or with its encoded form. -/
inductive ChunkError
  | poolFull
  | readOutOfRange (index : Int) (size : Nat)
  | constantOutOfRange (index : UInt8) (size : Nat)
  | lineCount (lines instructions : Nat)
  | oversizedPool (constants : Nat)
  | unknownOpcode (index : Nat) (code : UInt8)
  | danglingConstant (index : Nat) (operand : UInt8)
  | unencodable (index : Nat) (code : UInt8)
  | unknownByte (code : UInt8) (position : Nat)
  | truncatedCode (op : Opcode) (position : Nat)
  | notANumber (index : Nat) (tag : UInt8)
  | malformed (detail : Bytes)
  | wrongMagic (expected : Bytes) (shown : Bytes)
  | newerVersion (version supported : Nat)
  deriving DecidableEq, Repr

namespace ChunkError

def cause? : ChunkError → Option Cause
  | poolFull | oversizedPool _ => some .constantPoolFull
  | readOutOfRange _ _ => some .codeOutOfRange
  | constantOutOfRange _ _ | danglingConstant _ _ => some .constantOutOfRange
  | _ => none

def message (e : ChunkError) : Bytes :=
  text "bytecode: " ++
  match e with
  | poolFull => text "add constant: " ++ Cause.constantPoolFull.message
  | readOutOfRange index size =>
    text "read " ++ signedDecimal index ++ text " of " ++ decimal size ++ text ": "
      ++ Cause.codeOutOfRange.message
  | constantOutOfRange index size =>
    text "constant " ++ decimal index.toNat ++ text " of " ++ decimal size ++ text ": "
      ++ Cause.constantOutOfRange.message
  | lineCount lines instructions =>
    decimal lines ++ text " lines for " ++ decimal instructions ++ text " instructions"
  | oversizedPool constants =>
    decimal constants ++ text " constants: " ++ Cause.constantPoolFull.message
  | unknownOpcode index code =>
    text "instruction " ++ decimal index ++ text ": unknown opcode 0x" ++ hexByte code
  | danglingConstant index operand =>
    text "instruction " ++ decimal index ++ text ": constant " ++ decimal operand.toNat
      ++ text ": " ++ Cause.constantOutOfRange.message
  | unencodable index code =>
    text "encode instruction " ++ decimal index ++ text ": unknown opcode 0x" ++ hexByte code
  | unknownByte code position =>
    text "unknown opcode 0x" ++ hexByte code ++ text " at byte " ++ decimal position
  | truncatedCode op position =>
    text "unexpected end of code reading " ++ op.name ++ text " operand at byte "
      ++ decimal position
  | notANumber index tag =>
    text "constant " ++ decimal index ++ text ": cannot serialize " ++ Value.tagName tag
  | malformed detail => text "unmarshal chunk: " ++ detail
  | wrongMagic expected shown =>
    text "invalid magic: expected " ++ expected ++ text ", got " ++ shown
  | newerVersion version supported =>
    text "format version " ++ decimal version ++ text " is newer than supported version "
      ++ decimal supported

end ChunkError

namespace Chunk

/-- One constant for each operand byte. -/
def maxConstants : Nat := 256

def empty : Chunk := ⟨#[], #[], #[]⟩

/-- Appends an instruction with the line it came from. Its index is the old size of the code. -/
def write (c : Chunk) (i : Instruction) (line : Int) : Chunk :=
  { c with code := c.code.push i, lines := c.lines.push line }

/-- Appends a constant and gives the new size of the pool. -/
def addConstant (c : Chunk) (v : Value) : Except ChunkError (Nat × Chunk) :=
  if c.constants.size ≥ maxConstants then .error .poolFull
  else .ok (c.constants.size + 1, { c with constants := c.constants.push v })

/-- Appends a constant and gives the operand that refers to it. -/
def makeConstant (c : Chunk) (v : Value) : Except ChunkError (UInt8 × Chunk) :=
  match c.addConstant v with
  | .ok (size, c) => .ok (UInt8.ofNat (size - 1), c)
  | .error e => .error e

/-- Appends a constant and the instruction that pushes it, and gives the instruction's index. -/
def writeConstant (c : Chunk) (v : Value) (line : Int) : Except ChunkError (Nat × Chunk) :=
  match c.makeConstant v with
  | .ok (operand, c) => .ok (c.code.size, c.write (.constant operand) line)
  | .error e => .error e

/-- The element at an index that may be negative. -/
def at? {α : Type} (items : Array α) (index : Int) : Option α :=
  if index < 0 then none else items[index.toNat]?

def read (c : Chunk) (index : Int) : Except ChunkError Instruction :=
  match at? c.code index with
  | some i => .ok i
  | none => .error (.readOutOfRange index c.code.size)

def readConstant (c : Chunk) (index : UInt8) : Except ChunkError Value :=
  match c.constants[index.toNat]? with
  | some v => .ok v
  | none => .error (.constantOutOfRange index c.constants.size)

/-- The source line of an instruction, zero outside the chunk. -/
def line (c : Chunk) (index : Int) : Int := (at? c.lines index).getD 0

/-- What is wrong with an instruction as the one at `index`. -/
def instructionError? (c : Chunk) (index : Nat) (i : Instruction) : Option ChunkError :=
  match i.opcode? with
  | none => some (.unknownOpcode index i.code)
  | some .constant =>
    if i.operand.toNat < c.constants.size then none else some (.danglingConstant index i.operand)
  | some _ => none

/-- What is wrong with the first faulty one of the instructions from `index` on. -/
def codeError? (c : Chunk) : Nat → List Instruction → Option ChunkError
  | _, [] => none
  | index, i :: rest =>
    match c.instructionError? index i with
    | some e => some e
    | none => codeError? c (index + 1) rest

/-- The first rule that a chunk breaks. -/
def defect? (c : Chunk) : Option ChunkError :=
  if c.lines.size ≠ c.code.size then some (.lineCount c.lines.size c.code.size)
  else if c.constants.size > maxConstants then some (.oversizedPool c.constants.size)
  else c.codeError? 0 c.code.toList

def validate (c : Chunk) : Except ChunkError Unit :=
  match c.defect? with
  | some e => .error e
  | none => .ok ()

end Chunk

end Abacus
