import Abacus.Proofs.ArtifactRoundTrip
import Abacus.Proofs.CborLimits
import Abacus.Proofs.CodeUnits
import Mathlib.Data.List.Forall2

/-!
# Whatever is accepted has a normal form

Data from anywhere may be read as a chunk. Reading is lenient, so many documents stand for the same
chunk, but it returns nothing that could not be written: the chunk is valid, it holds only numbers,
and it is small enough to be read again, because the reader has counted its lines. Writing what was
read is therefore a normal form of the document.
-/
namespace Abacus

open Cbor (Item)

namespace Artifact

/-! ## Entries -/

def lookup? (key : Key) (entries : List (Item × Item)) : Option Item :=
  (entries.find? fun entry => readKey? entry.1 = some (some key)).map Prod.snd

theorem lookup?_cons_of_eq {key : Key} {name : Item} (value : Item) (rest : List (Item × Item))
    (named : readKey? name = some (some key)) :
    lookup? key ((name, value) :: rest) = some value := by
  simp [lookup?, named]

theorem lookup?_cons_of_ne {key : Key} {name : Item} (value : Item) (rest : List (Item × Item))
    (other : readKey? name ≠ some (some key)) :
    lookup? key ((name, value) :: rest) = lookup? key rest := by
  simp [lookup?, other]

def valueAt? (key : Key) (document : Item) : Option Item :=
  match untag? document with
  | some (.map entries) => lookup? key entries
  | _ => none

/-- Two records agree in one entry. -/
def Fields.SameAt (f g : Fields) : Key → Prop
  | .magic => f.magic = g.magic
  | .version => f.version = g.version
  | .code => f.code = g.code
  | .constants => f.constants = g.constants
  | .lines => f.lines = g.lines

namespace Fields

theorem SameAt.refl (f : Fields) (key : Key) : f.SameAt f key := by
  cases key <;> rfl

theorem SameAt.trans {f g h : Fields} {key : Key} (first : f.SameAt g key)
    (second : g.SameAt h key) : f.SameAt h key := by
  cases key <;> exact Eq.trans first second

theorem set?_sameAt_other {f stored : Fields} {key other : Key} {value : Item}
    (found : f.set? key value = some stored) (different : other ≠ key) :
    stored.SameAt f other := by
  cases key
  all_goals
    obtain ⟨_, -, rfl⟩ := Option.map_eq_some_iff.mp found
    cases other <;> first | rfl | exact absurd rfl different

/-- What is stored depends on the value alone. -/
theorem set?_sameAt {f stored : Fields} {key : Key} {value : Item}
    (found : f.set? key value = some stored) :
    ∃ alone, ({} : Fields).set? key value = some alone ∧ stored.SameAt alone key := by
  cases key
  all_goals
    obtain ⟨_, read, rfl⟩ := Option.map_eq_some_iff.mp found
    exact ⟨_, Option.map_eq_some_iff.mpr ⟨_, read, rfl⟩, rfl⟩

theorem fill?_sameAt_seen {entries : List (Item × Item)} {seen : List Key} {f filled : Fields}
    (found : fill? entries seen f = some filled) {key : Key} (old : key ∈ seen) :
    filled.SameAt f key := by
  fun_induction fill? entries seen f with
  | case1 seen f =>
    cases found
    exact .refl _ key
  | case2 => cases found
  | case3 name value rest seen f _ ih => exact ih found old
  | case4 name value rest seen f other _ _ ih => exact ih found old
  | case5 => cases found
  | case6 name value rest seen f other _ fresh stored set ih =>
    have different : key ≠ other := fun same => fresh (same ▸ old)
    exact (ih found (List.mem_cons_of_mem _ old)).trans (set?_sameAt_other set different)

/-- The entry is what a value is read as, or what it was before if there is no value. -/
def Takes (f before : Fields) (key : Key) : Option Item → Prop
  | none => f.SameAt before key
  | some value => ∃ alone, ({} : Fields).set? key value = some alone ∧ f.SameAt alone key

theorem Takes.of_sameAt {f before earlier : Fields} {key : Key} {value : Option Item}
    (takes : f.Takes before key value) (same : before.SameAt earlier key) :
    f.Takes earlier key value := by
  cases value with
  | none => exact SameAt.trans takes same
  | some value => exact takes

/-- Of the entries for a key that has not been seen, the first is stored. -/
theorem fill?_takes {entries : List (Item × Item)} {seen : List Key} {f filled : Fields}
    (found : fill? entries seen f = some filled) {key : Key} (new : key ∉ seen) :
    filled.Takes f key (lookup? key entries) := by
  fun_induction fill? entries seen f with
  | case1 seen f =>
    cases found
    exact .refl _ key
  | case2 => cases found
  | case3 name value rest seen f passed ih =>
    rw [lookup?_cons_of_ne value rest (by simp [passed])]
    exact ih found new
  | case4 name value rest seen f other named old ih =>
    have different : other ≠ key := fun same => new (same ▸ old)
    rw [lookup?_cons_of_ne value rest (by simpa [named] using different)]
    exact ih found new
  | case5 => cases found
  | case6 name value rest seen f other named fresh stored set ih =>
    by_cases same : other = key
    · -- This is the first entry for the key, and none after it is stored.
      subst same
      rw [lookup?_cons_of_eq value rest named]
      obtain ⟨alone, read, stays⟩ := set?_sameAt set
      exact ⟨alone, read, (fill?_sameAt_seen found List.mem_cons_self).trans stays⟩
    · rw [lookup?_cons_of_ne value rest (by simpa [named] using same)]
      have later : filled.Takes stored key (lookup? key rest) :=
        ih found (by simp [Ne.symm same, new])
      exact later.of_sameAt (set?_sameAt_other set (Ne.symm same))

theorem ofItem?_takes {document : Item} {f : Fields} (found : ofItem? document = some f)
    (key : Key) : f.Takes {} key (valueAt? key document) := by
  unfold ofItem? at found
  unfold valueAt?
  split at found
  · cases found
  next entries map =>
    rw [map]
    exact fill?_takes found List.not_mem_nil
  next item other untagged =>
    split at found
    · -- A document that is absent has no entries.
      cases found
      split
      next entries map => exact absurd (Option.some.inj (untagged.symm.trans map)) (other entries)
      · exact .refl _ key
    · cases found

end Fields

/-! ## What has been read -/

theorem untag?_limited {item untagged : Item} (found : untag? item = some untagged)
    (limited : item.Limited) : untagged.Limited := by
  fun_induction untag? item with
  | case1 | case3 | case4 | case5 =>
    cases found
    exact .flat rfl
  | case2 | case6 | case8 => cases found
  | case7 | case10 =>
    cases found
    exact limited
  | case9 tag content _ _ _ ih =>
    cases limited with
    | flat flat => cases flat
    | tagged _ inner => exact ih found inner

theorem valueAt?_limited {key : Key} {document value : Item} (limited : document.Limited)
    (found : valueAt? key document = some value) : value.Limited := by
  unfold valueAt? at found
  split at found
  next entries map =>
    obtain ⟨entry, first, rfl⟩ := Option.map_eq_some_iff.mp found
    cases untag?_limited map limited with
    | flat flat => cases flat
    | map keys values => exact values entry (List.mem_of_find?_eq_some first)
  · cases found

theorem of_mapM {α β : Type} {f : α → Option β} {xs : List α} {ys : List β}
    (mapped : xs.mapM f = some ys) : ys.length = xs.length ∧ ∀ y ∈ ys, ∃ x, f x = some y := by
  induction xs generalizing ys with
  | nil =>
    cases mapped
    simp
  | cons x rest ih =>
    simp only [List.mapM_cons, Option.bind_eq_bind, Option.bind_eq_some_iff] at mapped
    obtain ⟨y, first, others, later, same⟩ := mapped
    cases same
    obtain ⟨length, each⟩ := ih later
    exact ⟨by simp [length], List.forall_mem_cons.mpr ⟨⟨x, first⟩, each⟩⟩

theorem elements?_bounds {α : Type} {element? : Item → Option α} {value : Item} {xs : List α}
    (found : elements? element? value = some xs) (limited : value.Limited) :
    xs.length ≤ Cbor.maxElements ∧ ∀ x ∈ xs, ∃ item, element? item = some x := by
  unfold elements? at found
  split at found
  · cases found
  next items array =>
    obtain ⟨length, each⟩ := of_mapM found
    cases untag?_limited array limited with
    | flat flat => cases flat
    | array few _ => exact ⟨length ▸ few, each⟩
  · split at found
    · cases found
      simp
    · cases found

theorem integerIn?_bounds {least greatest n : Int} {item : Item}
    (found : integerIn? least greatest item = some n) (zero : least ≤ 0 ∧ 0 ≤ greatest) :
    least ≤ n ∧ n ≤ greatest := by
  unfold integerIn? at found
  split at found
  · cases found
  · split at found
    · cases found
      exact zero
    · simpa using (Option.filter_eq_some_iff.mp found).2

/-- The lines of a document are few enough to be written and read again. -/
theorem Fields.lines_of_ofItem? {document : Item} {f : Fields} (limited : document.Limited)
    (found : ofItem? document = some f) :
    f.lines.length ≤ Cbor.maxElements ∧ ∀ line ∈ f.lines, isSignedWord line = true := by
  have takes := ofItem?_takes found .lines
  cases entry : valueAt? .lines document with
  | none =>
    rw [entry] at takes
    have none : f.lines = [] := takes
    simp [none]
  | some value =>
    rw [entry] at takes
    obtain ⟨alone, stored, same⟩ := takes
    obtain ⟨lines, read, rfl⟩ := Option.map_eq_some_iff.mp stored
    have same : f.lines = lines := same
    obtain ⟨few, each⟩ := elements?_bounds read (valueAt?_limited limited entry)
    rw [same]
    refine ⟨few, fun line member => ?_⟩
    obtain ⟨item, within⟩ := each line member
    have bounds := integerIn?_bounds within (by decide)
    exact (isSignedWord_iff line).mpr ⟨bounds.1, by omega⟩

theorem Fields.toChunk_eq_ok {f : Fields} {c : Chunk} (made : f.toChunk = .ok c) :
    f.magic = formatMagic ∧ f.version ≤ formatVersion ∧
      Chunk.decodeCode f.code = .ok c.code.toList ∧
      c.constants.toList = f.constants.map Value.number ∧ c.lines.toList = f.lines ∧
      c.validate = .ok () := by
  unfold toChunk at made
  split at made
  · cases made
  next magic =>
    split at made
    · cases made
    next version =>
      split at made
      · cases made
      next code decoded =>
        dsimp only at made
        split at made
        · cases made
        next valid =>
          cases made
          exact ⟨Classical.not_not.mp magic, Nat.not_lt.mp version, decoded, rfl, rfl, valid⟩

theorem decode_eq_ok {data : Bytes} {c : Chunk} (read : decode data = .ok c) :
    ∃ document f, Item.read? data = some document ∧ Fields.ofItem? document = some f ∧
      f.toChunk = .ok c := by
  unfold decode at read
  split at read
  · cases read
  next document found =>
    split at read
    · cases read
    next f entries => exact ⟨document, f, found, entries, read⟩

end Artifact

namespace Chunk

/-- Decoded instructions have no operand that is not used. -/
theorem canonical_of_decodeCode {data : Bytes} {code : List Instruction}
    (decoded : decodeCode data = .ok code) : ∀ i ∈ code, i.canonical = i := by
  obtain ⟨bytes, known⟩ := bytes_of_decodeCode decoded
  -- Written and read again, the code is what was decoded and has no such operands.
  have again := decodeCode_known code known
  rw [bytes, decoded] at again
  have clear : code.map id = code.map Instruction.canonical :=
    (List.map_id code).trans (Except.ok.inj again)
  intro i member
  exact (List.map_inj_left.mp clear i member).symm

/-- The chunks differ in nothing but the payloads of NaNs. -/
structure SameButNaNs (c d : Chunk) : Prop where
  code : d.code = c.code
  lines : d.lines = c.lines
  constants : List.Forall₂
    (fun v w => w = v ∨ w.tag = v.tag ∧ v.payload.isNaN = true ∧ w.payload.isNaN = true)
    c.constants.toList d.constants.toList

theorem sameButNaNs_canonical {c : Chunk} (clear : ∀ i ∈ c.code.toList, i.canonical = i) :
    c.SameButNaNs c.canonical where
  code := by
    apply Array.toList_inj.mp
    rw [canonical, Array.toList_map]
    exact (List.map_congr_left clear).trans (List.map_id _)
  lines := rfl
  constants := by
    rw [canonical, Array.toList_map, List.forall₂_map_right_iff, List.forall₂_same]
    intro v _
    cases nan : v.payload.isNaN with
    | true => exact .inr ⟨rfl, rfl, by simp [nan]⟩
    | false => exact .inl (by simp [Binary64.canonical, nan])

end Chunk

/-! ## The normal form -/

theorem Instruction.bytes_canonical (i : Instruction) : i.canonical.bytes = i.bytes := by
  have width : i.canonical.operandBytes = i.operandBytes := by simp [operandBytes]
  unfold bytes
  rw [width, canonical_code]
  by_cases used : i.operandBytes = 1
  · simp [canonical, used]
  · simp [used]

theorem Cbor.writeFloat_canonical (x : Binary64) :
    Cbor.writeFloat x.canonical = Cbor.writeFloat x := by
  cases nan : x.isNaN with
  | true => simp [Cbor.writeFloat, nan]
  | false => simp [Binary64.canonical, nan]

namespace Artifact

theorem write_canonical (c : Chunk) :
    (Fields.ofChunk c.canonical).write = (Fields.ofChunk c).write := by
  have code : Chunk.codeBytes c.canonical.code.toList = Chunk.codeBytes c.code.toList := by
    simp [Chunk.codeBytes, Chunk.canonical, List.flatMap_map, Instruction.bytes_canonical]
  have constants : (c.canonical.constants.toList.map Value.payload).map Cbor.writeFloat =
      (c.constants.toList.map Value.payload).map Cbor.writeFloat := by
    simp [Chunk.canonical, Cbor.writeFloat_canonical]
  have lines : c.canonical.lines = c.lines := rfl
  simp only [Fields.ofChunk, Fields.write, code, constants, lines]

theorem encode_canonical {c : Chunk} {data : Bytes} (written : encode c = .ok data) :
    encode c.canonical = .ok data := by
  obtain ⟨valid, numbers, rfl⟩ := (encode_eq_ok_iff c data).mp written
  refine (encode_eq_ok_iff _ _).mpr ⟨Chunk.validate_canonical valid, ?_, write_canonical c⟩
  simpa [Chunk.canonical, Value.isNumber] using numbers

def normalize (data : Bytes) : Except ChunkError Bytes := (decode data).bind encode

def HasMagic (document : Item) : Prop :=
  ∃ value ∈ valueAt? .magic document, magic? value = some (text "DBBC")

/-- The document has no version, or an old one. -/
def HasKnownVersion (document : Item) : Prop :=
  ∀ value ∈ valueAt? .version document, ∃ n ≤ 1, integerIn? 0 65535 value = some n

theorem hasMagic_of_ofItem? {document : Item} {f : Fields}
    (found : Fields.ofItem? document = some f) (magic : f.magic = formatMagic) :
    HasMagic document := by
  have takes := Fields.ofItem?_takes found .magic
  cases entry : valueAt? .magic document with
  | none =>
    -- Without the entry the magic word is empty.
    rw [entry] at takes
    have empty : f.magic = [] := takes
    exact absurd (empty.symm.trans magic) (by decide)
  | some value =>
    rw [entry] at takes
    obtain ⟨alone, stored, same⟩ := takes
    obtain ⟨word, read, rfl⟩ := Option.map_eq_some_iff.mp stored
    have same : f.magic = word := same
    exact ⟨value, entry, by rw [read, ← same, magic]; rfl⟩

theorem hasKnownVersion_of_ofItem? {document : Item} {f : Fields}
    (found : Fields.ofItem? document = some f) (version : f.version ≤ formatVersion) :
    HasKnownVersion document := by
  intro value entry
  have takes := Fields.ofItem?_takes found .version
  rw [entry] at takes
  obtain ⟨alone, stored, same⟩ := takes
  obtain ⟨n, read, rfl⟩ := Option.map_eq_some_iff.mp stored
  have same : f.version = n.toNat := same
  have bound : f.version ≤ 1 := version
  exact ⟨n, by omega, read⟩

/-- What is read can be written, and what is written then stays the same when it is read and written
again. -/
theorem encode_of_decode {data : Bytes} {c : Chunk} (read : decode data = .ok c) :
    ∃ written, encode c = .ok written ∧ decode written = .ok c.canonical ∧
      encode c.canonical = .ok written := by
  obtain ⟨document, f, found, entries, made⟩ := decode_eq_ok read
  obtain ⟨-, -, -, constants, lines, valid⟩ := Fields.toChunk_eq_ok made
  obtain ⟨few, words⟩ := Fields.lines_of_ofItem? (Item.read?_limited found) entries
  rw [← lines] at few words
  -- Whatever form a constant had, it was read as a number.
  have numbers : ∀ v ∈ c.constants.toList, v.isNumber = true := by
    rw [constants]
    simp [Value.number, Value.isNumber]
  have written : encode c = .ok (Fields.ofChunk c).write :=
    (encode_eq_ok_iff c _).mpr ⟨valid, numbers, rfl⟩
  -- There are as many instructions as lines, and the lines have been counted.
  have small : c.code.size ≤ Cbor.maxElements := by
    rw [← (c.validate_eq_ok_iff.mp valid).1]
    simpa using few
  exact ⟨_, written, decode_of_encode small words written, encode_canonical written⟩

/-- Whatever data is accepted gives a valid chunk of at most 256 constants, all of them numbers, in
which no operand is set that is not used. The chunk can be written, what is written is read as the
same chunk up to the payloads of NaNs, and reading and writing once more changes nothing. A document
is refused unless it has the magic word and no version above the first. -/
theorem decode_normal_form (data : Bytes) :
    (∀ c, decode data = .ok c →
      c.validate = .ok () ∧ c.constants.size ≤ 256 ∧
      (∀ v ∈ c.constants.toList, v.isNumber = true) ∧
      (∀ i ∈ c.code.toList, i.operandBytes = 0 → i.operand = 0) ∧
      c.lines.size = c.code.size ∧
      ∃ written again, encode c = .ok written ∧ decode written = .ok again ∧
        c.SameButNaNs again ∧ normalize data = .ok written ∧ normalize written = .ok written) ∧
    ∀ document, Item.read? data = some document →
      ¬ HasMagic document ∨ ¬ HasKnownVersion document → ∃ e, decode data = .error e := by
  constructor
  · intro c read
    obtain ⟨document, f, -, -, made⟩ := decode_eq_ok read
    obtain ⟨-, -, code, -, -, valid⟩ := Fields.toChunk_eq_ok made
    obtain ⟨written, encoded, again, stable⟩ := encode_of_decode read
    obtain ⟨-, numbers, -⟩ := (encode_eq_ok_iff c written).mp encoded
    obtain ⟨lines, pool, -⟩ := c.validate_eq_ok_iff.mp valid
    have clear := Chunk.canonical_of_decodeCode code
    refine ⟨valid, pool, numbers, ?_, lines, written, c.canonical, encoded, again,
      Chunk.sameButNaNs_canonical clear, ?_, ?_⟩
    · intro i member unused
      have same := congrArg Instruction.operand (clear i member)
      rw [Instruction.canonical, unused, if_neg (by decide)] at same
      exact same.symm
    · rw [normalize, read]
      exact encoded
    · rw [normalize, again]
      exact stable
  · intro document found unsuitable
    cases read : decode data with
    | error e => exact ⟨e, rfl⟩
    | ok c =>
      obtain ⟨_, f, same, entries, made⟩ := decode_eq_ok read
      obtain rfl := Option.some.inj (found.symm.trans same)
      obtain ⟨magic, version, -⟩ := Fields.toChunk_eq_ok made
      rcases unsuitable with unmarked | newer
      · exact absurd (hasMagic_of_ofItem? entries magic) unmarked
      · exact absurd (hasKnownVersion_of_ofItem? entries version) newer

-- A key may be text, code an array, a line null and a version missing; none of that is written.
example :
    normalize [0xbf, 0x61, 0x31, 0x64, 0x44, 0x42, 0x42, 0x43, 0x03, 0x81, 0x06, 0x05, 0x81, 0xf6,
        0xff] =
      .ok [0xa5, 0x01, 0x64, 0x44, 0x42, 0x42, 0x43, 0x02, 0x01, 0x03, 0x41, 0x06, 0x04, 0x80, 0x05,
        0x81, 0x00] := by
  cbv

end Artifact

end Abacus
