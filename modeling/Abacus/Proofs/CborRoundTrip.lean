import Abacus.Cbor.Reader
import Abacus.Cbor.Writer
import Abacus.Number.Word
import Abacus.Proofs.Narrowing

/-!
# Written items are read back

Each writer of data items is met by the reader: whatever follows, reading what was written gives
the item and stops where it ends. The fuel of the reader is counted in bytes, twice the length of
what is read, and its nesting depth by the height of the item.
-/
namespace Abacus

theorem isSignedWord_iff (n : Int) :
    isSignedWord n = true ↔ -(signedLimit : Int) ≤ n ∧ n < (signedLimit : Int) := by
  simp [isSignedWord]

namespace Cbor

/-! ## Numbers in a fixed number of bytes -/

@[simp] theorem toBigEndian_length (width n : Nat) : (toBigEndian width n).length = width := by
  induction width with
  | zero => rfl
  | succ width ih => simp [toBigEndian, ih]

/-- Reading the bytes of a number after a number already read shifts that one to the left. -/
theorem foldl_toBigEndian (width n before : Nat) :
    (toBigEndian width n).foldl (fun m b => m * 256 + b.toNat) before =
      before * Nat.pow 256 width + n % Nat.pow 256 width := by
  induction width generalizing before with
  | zero => simp [toBigEndian, Nat.mod_one]
  | succ width ih =>
    have digits : n % Nat.pow 256 (width + 1) =
        n % Nat.pow 256 width + Nat.pow 256 width * (n / Nat.pow 256 width % 256) :=
      Nat.mod_pow_succ
    have shift : Nat.pow 256 (width + 1) = Nat.pow 256 width * 256 := rfl
    -- The first byte keeps only the lowest eight bits of the quotient.
    have first : (UInt8.ofNat (n / Nat.pow 256 width)).toNat = n / Nat.pow 256 width % 256 :=
      UInt8.toNat_ofNat'
    rw [toBigEndian, List.foldl_cons, ih, first, digits, shift, Nat.add_mul, Nat.mul_assoc,
      Nat.mul_comm 256, Nat.mul_comm (n / Nat.pow 256 width % 256)]
    omega

theorem bigEndian_toBigEndian {width n : Nat} (fits : n < Nat.pow 256 width) :
    bigEndian (toBigEndian width n) = n := by
  rw [bigEndian, foldl_toBigEndian, Nat.mod_eq_of_lt fits, Nat.zero_mul, Nat.zero_add]

/-! ## Heads -/

theorem split?_append (s rest : Bytes) : split? s.length (s ++ rest) = some (s, rest) := by
  simp [split?, List.splitAt_eq]

/-- A first byte gives its parts back. -/
theorem firstByte_parts {major info : Nat} (kind : major < 8) (detail : info < 32) :
    (UInt8.ofNat (major * 32 + info)).toNat / 32 = major ∧
      (UInt8.ofNat (major * 32 + info)).toNat % 32 = info := by
  rw [UInt8.toNat_ofNat']
  omega

theorem readHead?_wide (info width : Nat) {major n : Nat} (kind : major < 8) (detail : info < 32)
    (announced : argumentBytes? info = some width) (present : width ≠ 0)
    (fits : n < Nat.pow 256 width) (rest : Bytes) :
    readHead? (UInt8.ofNat (major * 32 + info) :: (toBigEndian width n ++ rest)) =
      some (⟨major, info, n⟩, rest) := by
  obtain ⟨first, second⟩ := firstByte_parts kind detail
  have parts := split?_append (toBigEndian width n) rest
  rw [toBigEndian_length] at parts
  simp only [readHead?, first, second, announced, parts, present, if_false,
    bigEndian_toBigEndian fits]

theorem readHead?_narrow {major n : Nat} (kind : major < 8) (small : n < 24) (rest : Bytes) :
    readHead? (UInt8.ofNat (major * 32 + n) :: rest) = some (⟨major, n, n⟩, rest) := by
  obtain ⟨first, second⟩ := firstByte_parts kind (Nat.lt_trans small (by decide))
  have announced : argumentBytes? n = some 0 := by simp [argumentBytes?, small]
  have parts := split?_append [] rest
  simp only [List.length_nil, List.nil_append] at parts
  simp only [readHead?, first, second, announced, parts, if_true]

theorem readHead?_head {major n : Nat} (kind : major < 8) (fits : n < wordCount) (rest : Bytes) :
    ∃ info, info ≠ 31 ∧
      readHead? (head major n ++ rest) = some (⟨major, info, n⟩, rest) := by
  -- The bound of each case is the bound on what fits into its width.
  unfold head
  simp only
  split
  · rename_i small
    exact ⟨n, by omega, readHead?_narrow kind small rest⟩
  · split
    · rename_i small
      exact ⟨24, by decide, readHead?_wide 24 1 kind (by decide) rfl (by decide) small rest⟩
    · split
      · rename_i small
        exact ⟨25, by decide, readHead?_wide 25 2 kind (by decide) rfl (by decide) small rest⟩
      · split
        · rename_i small
          exact ⟨26, by decide, readHead?_wide 26 4 kind (by decide) rfl (by decide) small rest⟩
        · exact ⟨27, by decide, readHead?_wide 27 8 kind (by decide) rfl (by decide) fits rest⟩

theorem head_length_pos (major n : Nat) : 0 < (head major n).length := by
  unfold head
  simp only
  repeat' split
  all_goals simp

/-! ## Items -/

/-- Bytes that are read as an item wherever they stand, by a reader that has fuel for them and
may nest so deep. -/
structure Reads (height : Nat) (s : Bytes) (item : Item) : Prop where
  occupied : 0 < s.length
  reads : ∀ fuel depth rest, 2 * s.length ≤ fuel → depth + height ≤ maxNesting →
    readItem? fuel depth (s ++ rest) = some (item, rest)

inductive ReadsAll (height : Nat) : List Bytes → List Item → Prop
  | nil : ReadsAll height [] []
  | cons {s : Bytes} {item : Item} {parts : List Bytes} {items : List Item} :
      Reads height s item → ReadsAll height parts items →
        ReadsAll height (s :: parts) (item :: items)

theorem Reads.mono {lower upper : Nat} {s : Bytes} {item : Item} (read : Reads lower s item)
    (order : lower ≤ upper) : Reads upper s item where
  occupied := read.occupied
  reads fuel depth rest enough shallow := read.reads fuel depth rest enough (by omega)

theorem ReadsAll.length_eq {height : Nat} {parts : List Bytes} {items : List Item}
    (all : ReadsAll height parts items) : parts.length = items.length := by
  induction all with
  | nil => rfl
  | cons _ _ ih => simp [ih]

theorem ReadsAll.map {α : Type} {height : Nat} {write : α → Bytes} {item : α → Item} {xs : List α}
    (each : ∀ x ∈ xs, Reads height (write x) (item x)) :
    ReadsAll height (xs.map write) (xs.map item) := by
  induction xs with
  | nil => exact .nil
  | cons x rest ih =>
    exact .cons (each x List.mem_cons_self)
      (ih fun y member => each y (List.mem_cons_of_mem x member))

theorem ReadsAll.readItems {height : Nat} {parts : List Bytes} {items : List Item}
    (all : ReadsAll height parts items) (fuel depth : Nat) (rest : Bytes) (before : List Item)
    (enough : 2 * parts.flatten.length + 1 ≤ fuel) (shallow : depth + height ≤ maxNesting) :
    readItems? fuel depth items.length (parts.flatten ++ rest) before =
      some (before.reverse ++ items, rest) := by
  -- A part is never empty, so the fuel for its bytes also pays for the step to the next one.
  induction all generalizing fuel before with
  | nil => simp [readItems?]
  | @cons s item parts items first others ih =>
    have occupied := first.occupied
    simp only [List.flatten_cons, List.length_append] at enough
    obtain ⟨left, rfl⟩ : ∃ left, fuel = left + 1 := ⟨fuel - 1, by omega⟩
    have head := first.reads left depth (parts.flatten ++ rest) (by omega) shallow
    simp only [List.length_cons, List.flatten_cons, List.append_assoc, readItems?, head]
    rw [ih left (item :: before) (by omega)]
    simp

theorem ReadsAll.concat {height : Nat} {parts : List Bytes} {items : List Item}
    (all : ReadsAll height parts items) {s : Bytes} {item : Item} (last : Reads height s item) :
    ReadsAll height (parts ++ [s]) (items ++ [item]) := by
  induction all with
  | nil => exact .cons last .nil
  | cons first _ ih => exact .cons first ih

/-- If what follows some items cannot be read, then no row of items that includes it can. -/
theorem ReadsAll.readItems_refused {height : Nat} {parts : List Bytes} {items : List Item}
    (all : ReadsAll height parts items) {s : Bytes} {depth : Nat}
    (refused : ∀ fuel, readItem? fuel depth s = none) (fuel : Nat) (before : List Item)
    (enough : 2 * parts.flatten.length + 1 ≤ fuel) (shallow : depth + height ≤ maxNesting) :
    readItems? fuel depth (items.length + 1) (parts.flatten ++ s) before = none := by
  induction all generalizing fuel before with
  | nil =>
    obtain ⟨left, rfl⟩ : ∃ left, fuel = left + 1 := ⟨fuel - 1, by omega⟩
    simp [readItems?, refused]
  | @cons first item parts items read _ ih =>
    have occupied := read.occupied
    simp only [List.flatten_cons, List.length_append] at enough
    obtain ⟨left, rfl⟩ : ∃ left, fuel = left + 1 := ⟨fuel - 1, by omega⟩
    have head := read.reads left depth (parts.flatten ++ s) (by omega) shallow
    simp only [List.length_cons, List.flatten_cons, List.append_assoc, readItems?, head]
    exact ih left (item :: before) (by omega)

def integerItem (n : Int) : Item :=
  if n < 0 then .negative (n.natAbs - 1) else .unsigned n.natAbs

theorem Reads.of_succ {height : Nat} {s : Bytes} {item : Item} (occupied : 0 < s.length)
    (reads : ∀ fuel depth rest, 2 * s.length ≤ fuel + 1 → depth + height ≤ maxNesting →
      readItem? (fuel + 1) depth (s ++ rest) = some (item, rest)) : Reads height s item where
  occupied := occupied
  reads fuel depth rest enough shallow := by
    obtain ⟨left, rfl⟩ : ∃ left, fuel = left + 1 := ⟨fuel - 1, by omega⟩
    exact reads left depth rest enough shallow

theorem reads_writeInteger {n : Int} (word : isSignedWord n = true) :
    Reads 0 (writeInteger n) (integerItem n) := by
  have magnitude : n.natAbs < wordCount := by
    have bounds := (isSignedWord_iff n).mp word
    simp only [signedLimit, wordCount] at bounds ⊢
    omega
  by_cases sign : n < 0
  · -- Negative numbers are written as their distance from minus one.
    simp only [writeInteger, integerItem, sign, if_true]
    refine .of_succ (head_length_pos 1 _) fun fuel depth rest _ _ => ?_
    obtain ⟨info, definite, first⟩ :=
      readHead?_head (by decide : 1 < 8) (by omega : n.natAbs - 1 < wordCount) rest
    simp only [readItem?, first, definite, if_false]
  · simp only [writeInteger, integerItem, sign, if_false]
    refine .of_succ (head_length_pos 0 _) fun fuel depth rest _ _ => ?_
    obtain ⟨info, definite, first⟩ := readHead?_head (by decide : 0 < 8) magnitude rest
    simp only [readItem?, first, definite, if_false]

theorem readString?_definite {major info : Nat} (definite : info ≠ 31) (s rest : Bytes) :
    readString? ⟨major, info, s.length⟩ (s ++ rest) = some ([s], rest) := by
  simp [readString?, definite, split?_append]

/-- A string is written in one piece, whether its major type is that of bytes or that of text. -/
theorem reads_string {major : Nat} {item : Item} {s : Bytes}
    (kind : major = 2 ∧ item = .bytes [s] ∨ major = 3 ∧ item = .text [s])
    (fits : s.length < wordCount) : Reads 0 (head major s.length ++ s) item := by
  have known : major < 8 := by omega
  have occupied := head_length_pos major s.length
  refine .of_succ (by simp only [List.length_append]; omega) fun fuel depth rest _ _ => ?_
  obtain ⟨info, definite, first⟩ := readHead?_head known fits (s ++ rest)
  rcases kind with ⟨rfl, rfl⟩ | ⟨rfl, rfl⟩ <;>
    simp [readItem?, first, readString?_definite definite]

theorem reads_writeBytes {s : Bytes} (fits : s.length < wordCount) :
    Reads 0 (writeBytes s) (.bytes [s]) := reads_string (.inl ⟨rfl, rfl⟩) fits

theorem reads_writeText {s : Bytes} (fits : s.length < wordCount) :
    Reads 0 (writeText s) (.text [s]) := reads_string (.inr ⟨rfl, rfl⟩) fits

/-- A datum of a floating-point format after its first byte. -/
theorem reads_datum (info width : Nat) {n : Nat} {x : Binary64} (detail : info < 32)
    (announced : argumentBytes? info = some width) (present : width ≠ 0)
    (fits : n < Nat.pow 256 width) (value : simpleItem? ⟨7, info, n⟩ = some (.float x)) :
    Reads 0 (UInt8.ofNat (7 * 32 + info) :: toBigEndian width n) (.float x) := by
  refine .of_succ (by simp) fun fuel depth rest _ _ => ?_
  have first := readHead?_wide info width (by decide : 7 < 8) detail announced present fits rest
  simp only [List.cons_append, readItem?, first, value, Option.map_some]

/-- A number comes back as it is, in whichever format it was written, and a NaN as a NaN. -/
theorem reads_writeFloat (x : Binary64) : Reads 0 (writeFloat x) (.float x.canonical) := by
  unfold writeFloat Binary64.canonical
  cases nan : x.isNaN with
  | true =>
    -- The three bytes that stand for all NaNs are the half-precision one.
    exact reads_datum 25 2 (by decide) rfl (by decide) (by decide : 0x7e00 < Nat.pow 256 2) rfl
  | false =>
    simp only [Bool.false_eq_true, if_false]
    -- Half, single or double precision, the first that holds the number.
    split
    · rename_i datum half
      obtain ⟨same, fits⟩ := SmallFloat.widen_of_narrow half
      exact reads_datum 25 2 (by decide) rfl (by decide) fits (by simp [simpleItem?, same])
    · split
      · rename_i datum single
        obtain ⟨same, fits⟩ := SmallFloat.widen_of_narrow single
        exact reads_datum 26 4 (by decide) rfl (by decide) fits (by simp [simpleItem?, same])
      · exact reads_datum 27 8 (by decide) rfl (by decide) x.bits.toNat_lt (by simp [simpleItem?])

theorem reads_writeArray {height : Nat} {parts : List Bytes} {items : List Item}
    (all : ReadsAll height parts items) (few : items.length ≤ maxElements) :
    Reads (height + 1) (writeArray parts) (.array items) := by
  have occupied := head_length_pos 4 parts.length
  refine .of_succ (by simp only [writeArray, List.length_append]; omega)
    fun fuel depth rest enough shallow => ?_
  simp only [writeArray, all.length_eq, List.length_append] at enough occupied ⊢
  have fits : items.length < wordCount := Nat.lt_of_le_of_lt few (by decide)
  obtain ⟨info, definite, first⟩ :=
    readHead?_head (by decide : 4 < 8) fits (parts.flatten ++ rest)
  have elements := all.readItems fuel (depth + 1) rest [] (by omega) (by omega)
  simp only [List.reverse_nil, List.nil_append] at elements
  simp only [List.append_assoc, readItem?, first, definite, elements, if_false,
    Nat.not_lt.mpr few, gt_iff_lt, Nat.not_lt.mpr (by omega : depth + 1 ≤ maxNesting)]

/-- An array of too many elements is refused at its head. -/
theorem readItem?_oversized {parts : List Bytes} (large : maxElements < parts.length)
    (fits : parts.length < wordCount) (rest : Bytes) (fuel depth : Nat) :
    readItem? fuel depth (writeArray parts ++ rest) = none := by
  cases fuel with
  | zero => simp [readItem?]
  | succ fuel =>
    obtain ⟨info, definite, first⟩ :=
      readHead?_head (by decide : 4 < 8) fits (parts.flatten ++ rest)
    simp only [writeArray, List.append_assoc, readItem?, first, definite, if_false, gt_iff_lt, large,
      if_true, ite_self]

/-- The members of pairs in a row. -/
def interleaved {α : Type} (pairs : List (α × α)) : List α := pairs.flatMap fun p => [p.1, p.2]

theorem interleaved_length {α : Type} (pairs : List (α × α)) :
    (interleaved pairs).length = 2 * pairs.length := by
  induction pairs with
  | nil => rfl
  | cons pair rest ih =>
    simp only [interleaved, List.flatMap_cons, List.length_append, List.length_cons,
      List.length_nil] at ih ⊢
    omega

theorem flatten_interleaved (entries : List (Bytes × Bytes)) :
    (interleaved entries).flatten = (entries.map fun entry => entry.1 ++ entry.2).flatten := by
  induction entries with
  | nil => rfl
  | cons entry rest ih => simpa [interleaved] using ih

theorem pairUp_interleaved (pairs : List (Item × Item)) :
    pairUp (interleaved pairs) = some pairs := by
  induction pairs with
  | nil => rfl
  | cons pair rest ih =>
    simp only [interleaved, List.flatMap_cons, List.cons_append, List.nil_append] at ih ⊢
    simp [pairUp, ih]

theorem reads_writeMap {height : Nat} {entries : List (Bytes × Bytes)} {pairs : List (Item × Item)}
    (all : ReadsAll height (interleaved entries) (interleaved pairs))
    (few : pairs.length ≤ maxElements) :
    Reads (height + 1) (writeMap entries) (.map pairs) := by
  have counts : entries.length = pairs.length := by
    have same := all.length_eq
    simp only [interleaved_length] at same
    omega
  have occupied := head_length_pos 5 pairs.length
  refine .of_succ (by simp only [writeMap, counts, List.length_append]; omega)
    fun fuel depth rest enough shallow => ?_
  simp only [writeMap, counts, ← flatten_interleaved, List.length_append] at enough ⊢
  have fits : pairs.length < wordCount := Nat.lt_of_le_of_lt few (by decide)
  obtain ⟨info, definite, first⟩ :=
    readHead?_head (by decide : 5 < 8) fits ((interleaved entries).flatten ++ rest)
  -- A map of so many entries is read as twice as many items, which are then paired up.
  have elements := all.readItems fuel (depth + 1) rest [] (by omega) (by omega)
  simp only [List.reverse_nil, List.nil_append, interleaved_length] at elements
  simp only [List.append_assoc, readItem?, first, definite, elements, if_false,
    pairUp_interleaved, Option.map_some, Nat.not_lt.mpr few, gt_iff_lt,
    Nat.not_lt.mpr (by omega : depth + 1 ≤ maxNesting)]

/-- A map whose last value cannot be read is no document. -/
theorem read?_writeMap_refused {height : Nat} {entries : List (Bytes × Bytes)}
    {parts : List Bytes} {items : List Item} {s : Bytes}
    (shape : interleaved entries = parts ++ [s]) (all : ReadsAll height parts items)
    (shallow : 1 + height ≤ maxNesting) (few : entries.length ≤ maxElements)
    (refused : ∀ fuel, readItem? fuel 1 s = none) : Item.read? (writeMap entries) = none := by
  have count : 2 * entries.length = items.length + 1 := by
    rw [← interleaved_length, shape, List.length_append, List.length_singleton, all.length_eq]
  have written : writeMap entries = head 5 entries.length ++ (parts.flatten ++ s) := by
    rw [writeMap, ← flatten_interleaved, shape]
    simp
  have fits : entries.length < wordCount := Nat.lt_of_le_of_lt few (by decide)
  obtain ⟨info, definite, first⟩ := readHead?_head (by decide : 5 < 8) fits (parts.flatten ++ s)
  have elements := all.readItems_refused refused (2 * (writeMap entries).length + 1) []
    (by simp only [written, List.length_append]; omega) shallow
  simp only [Item.read?, readItem?, written, first, definite, if_false, count, gt_iff_lt,
    Nat.not_lt.mpr few, Nat.not_lt.mpr (by omega : 0 + 1 ≤ maxNesting)] at elements ⊢
  rw [elements]

/-- A document that is nothing but a written item is read as that item. -/
theorem Reads.document {height : Nat} {s : Bytes} {item : Item} (read : Reads height s item)
    (shallow : height ≤ maxNesting) : Item.read? s = some item := by
  have whole := read.reads (2 * s.length + 2) 0 [] (by omega) (by omega)
  rw [List.append_nil] at whole
  simp [Item.read?, whole]

end Cbor

end Abacus
