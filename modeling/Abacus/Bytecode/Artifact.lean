import Abacus.Bytecode.CodeBytes
import Abacus.Cbor.Reader
import Abacus.Cbor.Writer
import Abacus.Number.Word
import Abacus.Text.Quoted

/-!
# Artifacts

An artifact is a chunk written to a file: a map with the keys 1 to 5 for magic word, format
version, code bytes, constants and source lines. Writing accepts only valid chunks of numbers and
has one result for each. Reading is lenient about how items are written and about entries it does
not know, and strict about the types of the five it does; whatever it returns is a valid chunk.
-/
namespace Abacus.Artifact

open Cbor (Item)

/-- The word that every artifact carries. -/
def formatMagic : Bytes := text "DBBC"

/-- The newest format that is understood, and the one that is written. -/
def formatVersion : Nat := 1

/-- The five entries of an artifact. Entries that are missing are empty or zero. -/
structure Fields where
  magic : Bytes := []
  version : Nat := 0
  code : Bytes := []
  constants : List Binary64 := []
  lines : List Int := []
  deriving DecidableEq, Repr

inductive Key
  | magic | version | code | constants | lines
  deriving DecidableEq, Repr

def Key.ofNumber? (n : Int) : Option Key :=
  if n = 1 then some .magic
  else if n = 2 then some .version
  else if n = 3 then some .code
  else if n = 4 then some .constants
  else if n = 5 then some .lines
  else none

/-- The chunks of a text, each of them well formed, as one. -/
def wellFormedText? (chunks : List Bytes) : Option Bytes :=
  if chunks.all Utf8.isValid then some chunks.flatten else none

/-- The entry that a key names: `none` for a key of a wrong type or below the signed range, `some
none` for an entry that is passed over. The numbers may also be written as text. -/
def readKey? : Item → Option (Option Key)
  | .unsigned n => some (Key.ofNumber? n)
  | .negative n => if n < signedLimit then some none else none
  | .text chunks =>
    match wellFormedText? chunks with
    | none => none
    | some [b] => some (if isDigit b then Key.ofNumber? (b.toNat - 0x30) else none)
    | some _ => some none
  | _ => none

/-- What an item stands for once its tags are read: a large integer keeps its tag, other tags fall
away. Tags with a meaning of their own must have content of the right type. -/
def untag? : Item → Option Item
  | .tagged tag content =>
    if tag = 0 then
      -- A date is written as text
      match content with
      | .text chunks => some (.text chunks)
      | _ => none
    else if tag = 1 then
      -- or as a number of seconds,
      match content with
      | .unsigned n => some (.unsigned n)
      | .negative n => some (.negative n)
      | .float x => some (.float x)
      | _ => none
    else if tag = 2 ∨ tag = 3 then
      -- and a large integer as its bytes.
      match content with
      | .bytes chunks => some (.tagged tag (.bytes chunks))
      | _ => none
    else untag? content
  | item => some item

/-- Null and undefined leave an entry as it is. -/
def isAbsent : Item → Bool
  | .simple code => code == 22 || code == 23
  | _ => false

/-- The integer that an untagged item stands for. -/
def integer? : Item → Option Int
  | .unsigned n => some n
  | .negative n => if n < signedLimit then some (-1 - (n : Int)) else none
  | .simple code => if 20 ≤ code ∧ code ≤ 23 then none else some code
  | .tagged tag (.bytes chunks) =>
    let n := Cbor.bigEndian chunks.flatten
    if tag = 2 then if n < wordCount then some n else none
    else if n < signedLimit then some (-1 - (n : Int)) else none
  | _ => none

/-- An integer between two bounds; zero if it is absent. -/
def integerIn? (least greatest : Int) (item : Item) : Option Int :=
  match untag? item with
  | none => none
  | some item =>
    if isAbsent item then some 0
    else (integer? item).filter fun n => least ≤ n && n ≤ greatest

/-- A number; zero if it is absent. -/
def number? (item : Item) : Option Binary64 :=
  match untag? item with
  | none => none
  | some (.float x) => some x
  | some item => if isAbsent item then some .zero else (integer? item).map Binary64.ofInt

/-- The elements of an array; none if it is absent. -/
def elements? {α : Type} (element? : Item → Option α) (item : Item) : Option (List α) :=
  match untag? item with
  | none => none
  | some (.array items) => items.mapM element?
  | some item => if isAbsent item then some [] else none

def magic? (item : Item) : Option Bytes :=
  match untag? item with
  | none => none
  | some (.text chunks) => wellFormedText? chunks
  | some item => if isAbsent item then some [] else none

/-- Code is a byte string, a large integer's bytes, or an array of small integers. -/
def code? (item : Item) : Option Bytes :=
  match untag? item with
  | none => none
  | some (.bytes chunks) => some chunks.flatten
  | some (.tagged _ (.bytes chunks)) => some chunks.flatten
  | some item =>
    (elements? (integerIn? 0 255) item).map (·.map fun n => UInt8.ofNat n.toNat)

def Fields.set? (f : Fields) (key : Key) (value : Item) : Option Fields :=
  match key with
  | .magic => (magic? value).map fun m => { f with magic := m }
  | .version => (integerIn? 0 65535 value).map fun n => { f with version := n.toNat }
  | .code => (code? value).map fun c => { f with code := c }
  | .constants => (elements? number? value).map fun c => { f with constants := c }
  | .lines =>
    (elements? (integerIn? (-(signedLimit : Int)) (signedLimit - 1)) value).map fun l =>
      { f with lines := l }

/-- Stores entries in order. The first entry for a key counts. -/
def Fields.fill? : List (Item × Item) → List Key → Fields → Option Fields
  | [], _, f => some f
  | (key, value) :: rest, seen, f =>
    match readKey? key with
    | none => none
    | some none => fill? rest seen f
    | some (some key) =>
      if key ∈ seen then fill? rest seen f
      else
        match f.set? key value with
        | none => none
        | some f => fill? rest (key :: seen) f

def Fields.ofItem? (item : Item) : Option Fields :=
  match untag? item with
  | none => none
  | some (.map entries) => fill? entries [] {}
  | some item => if isAbsent item then some {} else none

/-- The entries of a chunk in the order of their keys. -/
def Fields.write (f : Fields) : Bytes :=
  Cbor.writeMap
    [(Cbor.writeInteger 1, Cbor.writeText f.magic),
     (Cbor.writeInteger 2, Cbor.writeInteger f.version),
     (Cbor.writeInteger 3, Cbor.writeBytes f.code),
     (Cbor.writeInteger 4, Cbor.writeArray (f.constants.map Cbor.writeFloat)),
     (Cbor.writeInteger 5, Cbor.writeArray (f.lines.map Cbor.writeInteger))]

/-- The first constant from `index` on that is not a number. -/
def firstNonNumber? : Nat → List Value → Option ChunkError
  | _, [] => none
  | index, v :: rest =>
    if v.isNumber then firstNonNumber? (index + 1) rest else some (.notANumber index v.tag)

def encode (c : Chunk) : Except ChunkError Bytes :=
  match c.validate with
  | .error e => .error e
  | .ok () =>
    match Chunk.encodeCode c.code.toList with
    | .error e => .error e
    | .ok code =>
      match firstNonNumber? 0 c.constants.toList with
      | some e => .error e
      | none =>
        .ok (Fields.write
          { magic := formatMagic, version := formatVersion, code := code,
            constants := c.constants.toList.map Value.payload, lines := c.lines.toList })

/-- What is said about data that is no document with the five entries. -/
def notADocument : ChunkError := .malformed (text "not a chunk document")

/-- The chunk that the entries of a document describe. -/
def Fields.toChunk (f : Fields) : Except ChunkError Chunk :=
  if f.magic ≠ formatMagic then
    .error (.wrongMagic (Text.quote formatMagic) (Text.quote f.magic))
  else if f.version > formatVersion then .error (.newerVersion f.version formatVersion)
  else
    match Chunk.decodeCode f.code with
    | .error e => .error e
    | .ok code =>
      let chunk : Chunk := ⟨code.toArray, (f.constants.map Value.number).toArray, f.lines.toArray⟩
      match chunk.validate with
      | .error e => .error e
      | .ok () => .ok chunk

def decode (data : Bytes) : Except ChunkError Chunk :=
  match Item.read? data with
  | none => .error notADocument
  | some item =>
    match Fields.ofItem? item with
    | none => .error notADocument
    | some fields => fields.toChunk

end Abacus.Artifact
