import Abacus.Bytecode.Chunk
import Abacus.Sink

/-!
# Listings

A listing shows a chunk one instruction a line: index, source line and the instruction. The source
line is written only where it changes; a bar stands for "same line as above".
-/
namespace Abacus.Chunk

/-- The instruction without its position. -/
def showInstruction (c : Chunk) (i : Instruction) : Bytes :=
  match i.opcode? with
  | none => text "<not found: 0x" ++ hexByte i.code ++ text ">"
  | some .constant =>
    let shown :=
      match c.readConstant i.operand with
      | .ok v => v.print
      | .error _ => text "<invalid constant>"
    Bytes.padRight 16 (byte ' ') Opcode.constant.name ++ text " "
      ++ Bytes.padLeft 4 (byte ' ') (decimal i.operand.toNat) ++ text " ; " ++ shown
  | some op => op.name

/-- The source line of an instruction, or a bar if it is that of the instruction before it. -/
def showLine (c : Chunk) (index : Nat) : Bytes :=
  if 0 < index ∧ c.line index = c.line ((index : Int) - 1) then text "   |"
  else Bytes.padLeft 4 (byte ' ') (signedDecimal (c.line index))

def listingLine (c : Chunk) (index : Nat) (i : Instruction) : Bytes :=
  Bytes.padLeft 4 (byte '0') (decimal index) ++ text " " ++ c.showLine index ++ text " "
    ++ c.showInstruction i

/-- The lines of a listing without its header. -/
def listing (c : Chunk) : List Bytes :=
  c.code.toList.mapIdx fun index i => c.listingLine index i

/-- The listing line at an index that may lie outside the code. -/
def listingAt (c : Chunk) (index : Int) : Bytes :=
  match at? c.code index with
  | some i => c.listingLine index.toNat i
  | none => text "<end of code>"

/-- The lines of a listing with its header, each with its line break. -/
def titledListing (c : Chunk) (title : Bytes) : List Bytes :=
  ((text "== " ++ title ++ text " ==") :: c.listing).map (· ++ [newline])

def disassemble (c : Chunk) (title : Bytes) : Bytes := (c.titledListing title).flatten

/-- Writes a listing line by line and stops when the sink refuses one. -/
def disassembleTo (c : Chunk) (title : Bytes) (sink : Sink) : Sink × Bool :=
  sink.writeAll (c.titledListing title)

end Abacus.Chunk
