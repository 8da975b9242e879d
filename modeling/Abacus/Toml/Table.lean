import Abacus.Toml.Document

/-!
# The meaning of a settings document

Statements are carried out in order on a draft. A key may be defined once, with one exception: a
table that so far exists only because something was put below it may still be defined. Then it
stays as it is, unless an array was last written at its key: that is replaced. Below an array of
tables, keys belong to its last table.

An inline table is put into the draft field by field while it is read, so that its fields obey the
same rules as all others. It counts as not yet defined until it is complete.
-/
namespace Abacus.Toml

inductive Value
  | scalar (s : Scalar)
  | array (items : List Value)
  | table (entries : List (Bytes × Value))
  /-- An array of tables, made by headers. -/
  | tables (elements : List (List (Bytes × Value)))
  deriving Repr

abbrev Entries := List (Bytes × Value)

namespace Entries

/-- Gives a key a value; a new key comes last. -/
def insert (key : Bytes) (value : Value) : Entries → Entries
  | [] => [(key, value)]
  | (k, v) :: rest => if k = key then (k, value) :: rest else (k, v) :: insert key value rest

/-- The table a value stands for when keys are looked up below it. -/
def below? : Value → Option Entries
  | .table entries => some entries
  | .tables elements => elements.getLast?
  | _ => none

/-- A value after the table it stands for was replaced. -/
def replaceBelow (entries : Entries) : Value → Value
  | .tables elements => .tables (elements.dropLast ++ [entries])
  | _ => .table entries

def at? : Entries → Key → Option Entries
  | entries, [] => some entries
  | entries, part :: rest => do at? (← below? (← entries.lookup part)) rest

/-- Changes the table at a key; all tables on the way must exist. -/
def change (f : Entries → Entries) : Key → Entries → Option Entries
  | [], entries => some (f entries)
  | part :: rest, entries => do
    let value ← entries.lookup part
    let inner ← change f rest (← below? value)
    some (insert part (replaceBelow inner value) entries)

end Entries

structure Draft where
  root : Entries
  /-- Tables that exist only because something was put below them. -/
  implied : List Key
  /-- Keys at which an array was written last. -/
  arrays : List Key
  deriving Repr

namespace Draft

def empty : Draft := ⟨[], [], []⟩

def imply (d : Draft) (key : Key) : Draft := { d with implied := key :: d.implied }

def settle (d : Draft) (key : Key) : Draft := { d with implied := d.implied.filter (· ≠ key) }

/-- The key whose kind is noted for a part of a table. A part without letters is noted under its
table. -/
def notedKey (table : Key) (part : Bytes) : Key :=
  if part ≠ [] then table ++ [part] else if table = [] then [part] else table

/-- Notes whether the value at a key is an array. -/
def note (d : Draft) (table : Key) (part : Bytes) (isArray : Bool) : Draft :=
  let key := notedKey table part
  let others := d.arrays.filter (· ≠ key)
  { d with arrays := if isArray then key :: others else others }

/-- Gives a part of an existing table a value, within the limits on second definitions. -/
def define? (d : Draft) (table : Key) (part : Bytes) (value : Value) : Option Draft := do
  let entries ← d.root.at? table
  let key := table ++ [part]
  let written : Option Draft :=
    (Entries.change (Entries.insert part value) table d.root).map fun root => { d with root }
  if (entries.lookup part).isNone then written
  else if key ∉ d.implied then none
  else if key ∈ d.arrays then written.map (·.settle key)
  else some (d.settle key)

/-- Makes sure that a chain of tables exists, from the table at `table` down. -/
def descend? (d : Draft) (table : Key) : Key → Option Draft
  | [] => some d
  | part :: rest => do
    let entries ← d.root.at? table
    let key := table ++ [part]
    match entries.lookup part with
    | some value => (Entries.below? value).bind fun _ => descend? d key rest
    | none =>
      let root ← Entries.change (Entries.insert part (.table [])) table d.root
      descend? ({ d with root }.imply key) key rest

def openTable? (d : Draft) (key : Key) : Option Draft := do
  let d ← d.descend? [] key.dropLast
  d.define? key.dropLast (key.getLastD []) (.table [])

/-- Opens one more table of an array of tables. -/
def openElement? (d : Draft) (key : Key) : Option Draft := do
  let d ← d.descend? [] key.dropLast
  let part := key.getLastD []
  let entries ← d.root.at? key.dropLast
  let elements ←
    match entries.lookup part with
    | none => some []
    | some (.tables elements) => some elements
    | some _ => none
  let root ← Entries.change (Entries.insert part (.tables (elements ++ [[]]))) key.dropLast d.root
  some { d with root }

/-- Opens the tables that the leading parts of a dotted key name, below a table. Each may be there
already. -/
def openParents? (d : Draft) (table : Key) : Key → Option Draft
  | [] => some d
  | part :: rest => do
    let key := table ++ [part]
    openParents? (← (d.imply key).openTable? key) key rest

end Draft

/-- The entries of an inline table after one more field. -/
def addField? (value : Value) : Key → Entries → Option Entries
  | [], entries => some entries
  | [part], entries => some (Entries.insert part value entries)
  | part :: rest, entries => do
    let inner ←
      match entries.lookup part with
      | none => some []
      | some (.table inner) => some inner
      | some _ => none
    some (Entries.insert part (.table (← addField? value rest inner)) entries)

def Value.isArray : Value → Bool
  | .array _ => true
  | _ => false

mutual
/-- The value of what is written for the part of a table. -/
def evaluate? (d : Draft) (table : Key) (part : Bytes) (inArray : Bool) :
    Written → Option (Draft × Value)
  | .scalar s => some (d, .scalar s)
  | .array items =>
    (evaluateItems? (d.note table part true) table part items).map fun (d, values) =>
      (d, .array values)
  | .table fields => do
    let key := table ++ [part]
    let d := d.imply key
    let d ← if inArray then d.openElement? key else d.openTable? key
    (evaluateFields? d key [] fields).map fun (d, entries) => (d, .table entries)

def evaluateItems? (d : Draft) (table : Key) (part : Bytes) :
    List Written → Option (Draft × List Value)
  | [] => some (d, [])
  | item :: rest => do
    let (d, value) ← evaluate? d table part true item
    let (d, values) ← evaluateItems? d table part rest
    some (d, value :: values)

/-- Adds fields to those that an inline table has so far. -/
def evaluateFields? (d : Draft) (table : Key) (entries : Entries) :
    List (Key × Written) → Option (Draft × Entries)
  | [] => some (d, entries)
  | (key, written) :: rest => do
    let parents := table ++ key.dropLast
    let part := key.getLastD []
    let d ← d.openParents? table key.dropLast
    let (d, value) ← evaluate? d parents part false written
    let d ← d.define? parents part value
    let d := d.note parents part value.isArray
    evaluateFields? d table (← addField? value key entries) rest
end

/-- Carries out one statement in the table that the last header opened. -/
def Draft.carryOut? (d : Draft) (table : Key) : Statement → Option (Draft × Key)
  | .table key => do
    let d ← d.openTable? key
    some (d.note key [] false, key)
  | .element key => do
    let d ← d.openElement? key
    some (d.note key [] false, key)
  | .assignment key written => do
    let parents := table ++ key.dropLast
    let part := key.getLastD []
    let d ← d.openParents? table key.dropLast
    let (d, value) ← evaluate? d parents part false written
    let d ← d.define? parents part value
    some (d.note parents part value.isArray, table)

/-- The table that statements make, if every one of them is allowed. -/
def build? (statements : List Statement) : Option Entries :=
  let step (state : Draft × Key) (s : Statement) : Option (Draft × Key) :=
    state.1.carryOut? state.2 s
  (statements.foldlM step (Draft.empty, [])).map fun state => state.1.root

inductive Error
  | malformed
  | redefined
  deriving DecidableEq, Repr

def Error.message : Error → Bytes
  | malformed => text "not a well-formed document"
  | redefined => text "a key is defined twice"

def read (s : Bytes) : Except Error Entries :=
  match document? s with
  | none => .error .malformed
  | some statements =>
    match build? statements with
    | none => .error .redefined
    | some entries => .ok entries

end Abacus.Toml
