import Abacus.Config
import Abacus.Proofs.PathNames

/-!
# What a configuration file sets

A document gives a setting a value if a table with the name of its group has an entry with its name.
Reading the document goes through its entries one by one; what one entry does to a configuration is
to give settings values (`Config.Takes`), and giving some values and then others is giving them all.
So every setting has the last value that it was given, or its default, whatever else the document
holds (`Config.ofDocument_eq_ok_iff`). A document that does not fit gives no configuration at all.
-/
namespace Abacus

namespace Config

/-! ## What a document gives -/

/-- The value that a configuration has for a setting. -/
def value (c : Config) : Setting → Toml.Value
  | .stackCapacity => .scalar (.integer c.stackCapacity)
  | .trace => .scalar (.boolean c.trace)
  | .verbosity => .scalar (.integer c.verbosity)
  | .logFile => .scalar (.text c.logFile)
  | .hoverEvaluate => .scalar (.boolean c.hoverEvaluate)

/-- The value has the type of the setting. -/
def Setting.Admits (s : Setting) (v : Toml.Value) : Prop := ∃ c : Config, c.value s = v

def Setting.group : Setting → Group
  | stackCapacity | trace => .machine
  | verbosity | logFile => .log
  | hoverEvaluate => .languageServer

def Group.IsNamed (g : Group) (key : Bytes) : Prop := Text.sameCaseless (text g.name) key = true

def Setting.IsNamed (s : Setting) (key : Bytes) : Prop := Text.sameCaseless (text s.name) key = true

instance (g : Group) (key : Bytes) : Decidable (g.IsNamed key) :=
  inferInstanceAs (Decidable (_ = true))

instance (s : Setting) (key : Bytes) : Decidable (s.IsNamed key) :=
  inferInstanceAs (Decidable (_ = true))

/-- The values that the entries of a group's table give a setting of the group, in order. -/
def Setting.givenIn (s : Setting) (inner : Toml.Entries) : List Toml.Value :=
  (inner.filter fun entry => s.IsNamed entry.1).map (·.2)

/-- The values that a document gives a setting, in order. -/
def Setting.given (s : Setting) (entries : Toml.Entries) : List Toml.Value :=
  entries.flatMap fun entry =>
    match entry.2 with
    | .table inner => if s.group.IsNamed entry.1 then s.givenIn inner else []
    | _ => []

/-- The groups of a document are tables, and what they give has the right type. -/
structure Fits (entries : Toml.Entries) : Prop where
  tables : ∀ entry ∈ entries, ∀ g : Group, g.IsNamed entry.1 → ∃ inner, entry.2 = .table inner
  typed : ∀ s : Setting, ∀ v ∈ s.given entries, s.Admits v

/-! ## Names -/

theorem find?_eq_some_iff_of_unique {α : Type} {l : List α} {p : α → Bool}
    (unique : ∀ a ∈ l, ∀ b ∈ l, p a = true → p b = true → a = b) {a : α} :
    l.find? p = some a ↔ a ∈ l ∧ p a = true := by
  constructor
  · intro found
    exact ⟨List.mem_of_find?_eq_some found, List.find?_some found⟩
  · rintro ⟨member, holds⟩
    obtain ⟨b, found⟩ := Option.isSome_iff_exists.mp (List.find?_isSome.mpr ⟨a, member, holds⟩)
    rw [found, unique a member b (List.mem_of_find?_eq_some found) holds (List.find?_some found)]

theorem sameCaseless_trans {s t key : Bytes} (first : Text.sameCaseless s key = true)
    (second : Text.sameCaseless t key = true) : Text.foldCase s = Text.foldCase t := by
  rw [Text.sameCaseless, beq_iff_eq] at first second
  rw [first, second]

theorem Setting.mem_settings_iff (s : Setting) (g : Group) : s ∈ g.settings ↔ s.group = g := by
  cases s <;> cases g <;> decide

/-- There is one group at most of a name. -/
theorem group?_eq_some_iff {key : Bytes} {g : Group} :
    (Group.all.find? fun g => Text.sameCaseless (text g.name) key) = some g ↔ g.IsNamed key := by
  have apart : ∀ g ∈ Group.all, ∀ h ∈ Group.all,
      Text.foldCase (text g.name) = Text.foldCase (text h.name) → g = h := by decide
  -- No two groups have the same name up to case, so the order of the search does not matter.
  rw [find?_eq_some_iff_of_unique fun a first b second named named' =>
    apart a first b second (sameCaseless_trans named named')]
  have member : g ∈ Group.all := by cases g <;> decide
  exact ⟨And.right, fun named => ⟨member, named⟩⟩

/-- In a group there is one setting at most of a name. -/
theorem setting?_eq_some_iff {key : Bytes} {g : Group} {s : Setting} :
    (g.settings.find? fun s => Text.sameCaseless (text s.name) key) = some s ↔
      s.group = g ∧ s.IsNamed key := by
  have apart : ∀ g ∈ Group.all, ∀ s ∈ g.settings, ∀ t ∈ g.settings,
      Text.foldCase (text s.name) = Text.foldCase (text t.name) → s = t := by decide
  have member : g ∈ Group.all := by cases g <;> decide
  rw [find?_eq_some_iff_of_unique fun a first b second named named' =>
    apart g member a first b second (sameCaseless_trans named named'), Setting.mem_settings_iff]
  rfl

/-! ## Giving values -/

/-- The configuration changes by giving settings values, of which the last one counts. -/
structure Takes (c d : Config) (values : Setting → List Toml.Value) : Prop where
  admitted : ∀ s, ∀ v ∈ values s, s.Admits v
  value_eq : ∀ s, d.value s = (values s).getLast?.getD (c.value s)
  path_eq : d.path = c.path

namespace Takes

variable {c d e : Config} {values others : Setting → List Toml.Value}

theorem refl (c : Config) : Takes c c fun _ => [] where
  admitted := by simp
  value_eq _ := rfl
  path_eq := rfl

theorem congr (takes : Takes c d values) (same : ∀ s, others s = values s) : Takes c d others := by
  obtain rfl : others = values := funext same
  exact takes

theorem trans (first : Takes c d values) (second : Takes d e others) :
    Takes c e fun s => values s ++ others s where
  admitted s := List.forall_mem_append.mpr ⟨first.admitted s, second.admitted s⟩
  value_eq s := by
    rw [second.value_eq, first.value_eq, List.getLast?_append]
    cases (others s).getLast? <;> rfl
  path_eq := second.path_eq.trans first.path_eq

/-- What is given determines the configuration. -/
theorem unique (first : Takes c d values) (second : Takes c e values) : e = d := by
  have same (s : Setting) : e.value s = d.value s := by rw [first.value_eq, second.value_eq]
  have path := second.path_eq.trans first.path_eq.symm
  obtain ⟨capacity, trace, verbosity, file, hover, origin⟩ := d
  obtain ⟨capacity', trace', verbosity', file', hover', origin'⟩ := e
  -- The five settings and the path are all that a configuration consists of.
  have fields := And.intro (same .stackCapacity) (And.intro (same .trace)
    (And.intro (same .verbosity) (And.intro (same .logFile) (same .hoverEvaluate))))
  simp only [value, Toml.Value.scalar.injEq, Toml.Scalar.integer.injEq, Toml.Scalar.boolean.injEq,
    Toml.Scalar.text.injEq] at fields path
  obtain ⟨rfl, rfl, rfl, rfl, rfl⟩ := fields
  rw [path]

end Takes

theorem Takes.single {c d : Config} {s : Setting} {v : Toml.Value} (new : d.value s = v)
    (kept : ∀ other, s ≠ other → d.value other = c.value other) (path : d.path = c.path) :
    Takes c d fun other => if s = other then [v] else [] where
  admitted other w member := by
    split at member
    next same =>
      rw [List.mem_singleton.mp member, ← same]
      exact ⟨d, new⟩
    · cases member
  value_eq other := by
    split
    next same => rw [← same, new]; rfl
    next different => rw [kept other different]; rfl
  path_eq := path

/-- A setting is given a value exactly if it has the right type. -/
theorem set?_takes {c d : Config} {s : Setting} {v : Toml.Value} (set : c.set? s v = some d) :
    Takes c d fun other => if s = other then [v] else [] := by
  unfold set? at set
  split at set
  -- A value of another type is refused, and one of the right type goes into a field of its own.
  case h_6 => cases set
  all_goals
    cases set
    refine .single rfl ?_ rfl
    intro other different
    cases other <;> first | rfl | exact absurd rfl different

theorem set?_of_admits (c : Config) {s : Setting} {v : Toml.Value} (admits : s.Admits v) :
    ∃ d, c.set? s v = some d := by
  obtain ⟨e, rfl⟩ := admits
  cases s <;> exact ⟨_, rfl⟩

/-! ## Reading a document -/

section Group

variable {g : Group} {c d : Config} {entry : Bytes × Toml.Value}

theorem takeSetting_takes (taken : takeSetting g c entry = .ok d) :
    Takes c d fun s => if s.group = g ∧ s.IsNamed entry.1 then [entry.2] else [] := by
  simp only [← setting?_eq_some_iff]
  unfold takeSetting at taken
  split at taken
  next none =>
    cases taken
    simp only [none, reduceCtorEq, if_false]
    exact .refl c
  next s found =>
    split at taken
    next set =>
      cases taken
      simp only [found, Option.some.injEq]
      exact set?_takes set
    · cases taken

theorem takeSetting_of_admits (c : Config)
    (admits : ∀ s : Setting, s.group = g → s.IsNamed entry.1 → s.Admits entry.2) :
    ∃ d, takeSetting g c entry = .ok d := by
  unfold takeSetting
  split
  · exact ⟨c, rfl⟩
  next s found =>
    obtain ⟨inGroup, named⟩ := setting?_eq_some_iff.mp found
    obtain ⟨d, set⟩ := set?_of_admits c (admits s inGroup named)
    exact ⟨d, by rw [set]⟩

theorem givenIn_cons (s : Setting) (entry : Bytes × Toml.Value) (inner : Toml.Entries) :
    s.givenIn (entry :: inner) =
      (if s.IsNamed entry.1 then [entry.2] else []) ++ s.givenIn inner := by
  unfold Setting.givenIn
  by_cases named : s.IsNamed entry.1 <;> simp [named]

/-- A table of a group gives the settings of the group their values, and no others. -/
theorem takeTable_takes {inner : Toml.Entries} (taken : inner.foldlM (takeSetting g) c = .ok d) :
    Takes c d fun s => if s.group = g then s.givenIn inner else [] := by
  induction inner generalizing c with
  | nil =>
    cases taken
    simpa [Setting.givenIn] using Takes.refl _
  | cons entry inner ih =>
    rw [List.foldlM_cons] at taken
    cases first : takeSetting g c entry with
    | error problem =>
      rw [first] at taken
      cases taken
    | ok e =>
      rw [first] at taken
      -- What the first entry gives stands in front of what the others give.
      have both := (takeSetting_takes first).trans (ih taken)
      refine both.congr fun s => ?_
      by_cases inGroup : s.group = g
      · simp [inGroup, givenIn_cons]
      · simp [inGroup]

theorem takeTable_of_admits {inner : Toml.Entries}
    (admits : ∀ s : Setting, s.group = g → ∀ v ∈ s.givenIn inner, s.Admits v) (old : Config) :
    ∃ d, inner.foldlM (takeSetting g) old = .ok d := by
  induction inner generalizing old with
  | nil => exact ⟨old, rfl⟩
  | cons entry inner ih =>
    simp only [givenIn_cons, List.forall_mem_append] at admits
    obtain ⟨e, first⟩ := takeSetting_of_admits old fun s inGroup named =>
      (admits s inGroup).1 entry.2 (by simp [named])
    obtain ⟨d, others⟩ := ih (fun s inGroup => (admits s inGroup).2) e
    exact ⟨d, by rw [List.foldlM_cons, first]; exact others⟩

end Group

theorem given_cons (s : Setting) (entry : Bytes × Toml.Value) (entries : Toml.Entries) :
    s.given (entry :: entries) = s.given [entry] ++ s.given entries := by
  simp [Setting.given]

theorem given_table {s : Setting} {entry : Bytes × Toml.Value} {inner : Toml.Entries}
    (table : entry.2 = .table inner) :
    s.given [entry] = if s.group.IsNamed entry.1 then s.givenIn inner else [] := by
  simp [Setting.given, table]

theorem fits_cons {entry : Bytes × Toml.Value} {entries : Toml.Entries} :
    Fits (entry :: entries) ↔ Fits [entry] ∧ Fits entries := by
  constructor
  · rintro ⟨tables, typed⟩
    rw [List.forall_mem_cons] at tables
    have parts (s : Setting) : (∀ v ∈ s.given [entry], s.Admits v) ∧
        ∀ v ∈ s.given entries, s.Admits v := by
      rw [← List.forall_mem_append, ← given_cons]
      exact typed s
    exact ⟨⟨List.forall_mem_singleton.mpr tables.1, fun s => (parts s).1⟩,
      ⟨tables.2, fun s => (parts s).2⟩⟩
  · rintro ⟨first, others⟩
    refine ⟨List.forall_mem_cons.mpr ⟨first.tables entry (by simp), others.tables⟩, fun s => ?_⟩
    rw [given_cons]
    exact List.forall_mem_append.mpr ⟨first.typed s, others.typed s⟩

section Entry

variable {c d : Config} {entry : Bytes × Toml.Value}

/-- An entry that names no group is passed over. -/
theorem given_unnamed {s : Setting} (unnamed : ∀ g : Group, ¬ g.IsNamed entry.1) :
    s.given [entry] = [] := by
  simp only [Setting.given, List.flatMap_cons, List.flatMap_nil, List.append_nil]
  split
  · exact if_neg (unnamed _)
  · rfl

theorem takeGroup_takes (taken : takeGroup c entry = .ok d) :
    Fits [entry] ∧ Takes c d fun s => s.given [entry] := by
  unfold takeGroup at taken
  split at taken
  next none =>
    cases taken
    have unnamed (g : Group) : ¬ g.IsNamed entry.1 := by
      rw [← group?_eq_some_iff, none]
      simp
    refine ⟨⟨?_, fun s => ?_⟩, (Takes.refl c).congr fun s => given_unnamed unnamed⟩
    · intro other member g named
      rw [List.mem_singleton.mp member] at named
      exact absurd named (unnamed g)
    · rw [given_unnamed unnamed]
      simp
  next g found =>
    have named := group?_eq_some_iff.mp found
    split at taken
    next inner table =>
      have takes := takeTable_takes taken
      -- The entry names the group of a setting exactly if that group is the one that was found.
      have same (s : Setting) : s.given [entry] = if s.group = g then s.givenIn inner else [] := by
        rw [given_table table]
        simp only [← group?_eq_some_iff, found, Option.some.injEq, eq_comm]
      have whole := takes.congr same
      refine ⟨⟨?_, whole.admitted⟩, whole⟩
      intro other member _ _
      rw [List.mem_singleton.mp member]
      exact ⟨inner, table⟩
    · cases taken

theorem takeGroup_of_fits (fits : Fits [entry]) (old : Config) :
    ∃ d, takeGroup old entry = .ok d := by
  unfold takeGroup
  split
  · exact ⟨old, rfl⟩
  next g found =>
    have named := group?_eq_some_iff.mp found
    obtain ⟨inner, table⟩ := fits.tables entry (by simp) g named
    have admits (s : Setting) (inGroup : s.group = g) : ∀ v ∈ s.givenIn inner, s.Admits v := by
      have typed := fits.typed s
      rw [given_table table, inGroup, if_pos named] at typed
      exact typed
    rw [table]
    exact takeTable_of_admits admits old

end Entry

/-- Reading a document gives each setting the values that the document gives it. -/
theorem foldlM_takeGroup_takes {entries : Toml.Entries} {c d : Config}
    (taken : entries.foldlM takeGroup c = .ok d) :
    Fits entries ∧ Takes c d fun s => s.given entries := by
  induction entries generalizing c with
  | nil =>
    cases taken
    exact ⟨⟨by simp, by simp [Setting.given]⟩, .refl _⟩
  | cons entry entries ih =>
    rw [List.foldlM_cons] at taken
    cases first : takeGroup c entry with
    | error problem =>
      rw [first] at taken
      cases taken
    | ok e =>
      rw [first] at taken
      obtain ⟨fits, takes⟩ := takeGroup_takes first
      obtain ⟨others, later⟩ := ih taken
      exact ⟨fits_cons.mpr ⟨fits, others⟩, (takes.trans later).congr fun s => given_cons s _ _⟩

theorem foldlM_takeGroup_of_fits {entries : Toml.Entries} (fits : Fits entries) (old : Config) :
    ∃ d, entries.foldlM takeGroup old = .ok d := by
  induction entries generalizing old with
  | nil => exact ⟨old, rfl⟩
  | cons entry entries ih =>
    obtain ⟨first, others⟩ := fits_cons.mp fits
    obtain ⟨e, taken⟩ := takeGroup_of_fits first old
    obtain ⟨d, later⟩ := ih others e
    exact ⟨d, by rw [List.foldlM_cons, taken]; exact later⟩

/-- A document makes a configuration exactly if it fits, and the configuration is the one in which
every setting has the last value given or its default. -/
theorem ofDocument_eq_ok_iff {entries : Toml.Entries} {c : Config} :
    ofDocument entries = .ok c ↔ Fits entries ∧ Takes default c fun s => s.given entries := by
  constructor
  · exact foldlM_takeGroup_takes
  · rintro ⟨fits, takes⟩
    obtain ⟨d, taken⟩ := foldlM_takeGroup_of_fits fits default
    rw [ofDocument, taken, (foldlM_takeGroup_takes taken).2.unique takes]

/-! ## Loading a file -/

/-- The values that settings may have. -/
structure InRange (c : Config) : Prop where
  capacity : 0 ≤ c.stackCapacity
  leastVerbosity : -4 ≤ c.verbosity
  mostVerbosity : c.verbosity ≤ 2

theorem invalid?_eq_none_iff (c : Config) : c.invalid? = none ↔ c.InRange := by
  unfold invalid?
  split
  next negative =>
    refine ⟨fun none => ?_, fun range => ?_⟩
    · cases none
    · exact absurd range.capacity (Int.not_le.mpr negative)
  next positive =>
    split
    next outside =>
      refine ⟨fun none => ?_, fun range => ?_⟩
      · cases none
      · have least := range.leastVerbosity
        have most := range.mostVerbosity
        omega
    next inside => exact ⟨fun _ => ⟨by omega, by omega, by omega⟩, fun _ => rfl⟩

theorem parse_eq_ok_iff {content : Bytes} {c : Config} :
    parse content = .ok c ↔
      ∃ entries, Toml.read content = .ok entries ∧ ofDocument entries = .ok c := by
  unfold parse
  cases Toml.read content <;> simp

theorem value_path (c : Config) (path : Bytes) (s : Setting) :
    ({ c with path := path } : Config).value s = c.value s := by
  cases s <;> rfl

/-- A file makes a configuration exactly if it can be read, is well-formed, fits and gives no value
out of range. -/
theorem loadFile_eq_ok_iff {fs : FileSystem} {p : Bytes} {c : Config} :
    loadFile fs p = .ok c ↔
      ∃ content entries, fs.read p = .ok content ∧ Toml.read content = .ok entries ∧
        Fits entries ∧ (∀ s, c.value s = (s.given entries).getLast?.getD (default.value s)) ∧
        c.InRange ∧ c.path = Path.absolute fs.workingDirectory p := by
  constructor
  · intro loaded
    unfold loadFile at loaded
    split at loaded
    · cases loaded
    next content readable =>
      split at loaded
      · cases loaded
      next settings parsed =>
        split at loaded
        · cases loaded
        next valid =>
          cases loaded
          obtain ⟨entries, document, made⟩ := parse_eq_ok_iff.mp parsed
          obtain ⟨fits, takes⟩ := ofDocument_eq_ok_iff.mp made
          obtain ⟨capacity, least, most⟩ := (invalid?_eq_none_iff settings).mp valid
          refine ⟨content, entries, readable, document, fits, ?_, ⟨capacity, least, most⟩, rfl⟩
          intro s
          rw [value_path, takes.value_eq]
  · rintro ⟨content, entries, readable, document, fits, values, range, path⟩
    -- Before its path is noted, the configuration is the one that the document makes.
    have made : ofDocument entries = .ok { c with path := [] } := by
      refine ofDocument_eq_ok_iff.mpr ⟨fits, fits.typed, fun s => ?_, rfl⟩
      rw [value_path, values]
    have valid : ({ c with path := [] } : Config).invalid? = none :=
      (invalid?_eq_none_iff _).mpr ⟨range.capacity, range.leastVerbosity, range.mostVerbosity⟩
    have parsed := parse_eq_ok_iff.mpr ⟨entries, document, made⟩
    simp only [loadFile, Disk.read_working, readable, parsed, valid, ← path]

end Config

end Abacus
