import Abacus.Cbor.Reader

/-!
# What is read has bounded arrays

The reader counts the elements of an array whether or not their number is announced, so no array in
a document, however deep, has more than `maxElements` of them.
-/
namespace Abacus.Cbor

def Item.isFlat : Item → Bool
  | .array _ | .map _ | .tagged _ _ => false
  | _ => true

/-- No array in the item is longer than the reader allows. -/
inductive Item.Limited : Item → Prop
  | flat {item : Item} : item.isFlat = true → Limited item
  | array {items : List Item} :
      items.length ≤ maxElements → (∀ item ∈ items, Limited item) → Limited (.array items)
  | map {entries : List (Item × Item)} :
      (∀ entry ∈ entries, Limited entry.1) → (∀ entry ∈ entries, Limited entry.2) →
        Limited (.map entries)
  | tagged (tag : Nat) {content : Item} : Limited content → Limited (.tagged tag content)

theorem simpleItem?_isFlat {head : Head} {item : Item} (found : simpleItem? head = some item) :
    item.isFlat = true := by
  unfold simpleItem? at found
  repeat' split at found
  all_goals cases found
  all_goals rfl

theorem mem_of_pairUp {items : List Item} {entries : List (Item × Item)}
    (paired : pairUp items = some entries) :
    ∀ entry ∈ entries, entry.1 ∈ items ∧ entry.2 ∈ items := by
  fun_induction pairUp items generalizing entries with
  | case1 =>
    cases paired
    simp
  | case2 => cases paired
  | case3 key value rest ih =>
    obtain ⟨others, found, rfl⟩ := Option.map_eq_some_iff.mp paired
    intro entry member
    rcases List.mem_cons.mp member with rfl | later
    · simp
    · obtain ⟨first, second⟩ := ih found entry later
      exact ⟨by simp [first], by simp [second]⟩

/-- Items in a row, up to a break or as many as were announced, at most `most` of them. -/
def ReadsRow (fuel depth most : Nat) (s : Bytes) (items : List Item) (rest : Bytes) : Prop :=
  readToBreak? fuel depth most s [] = some (items, rest) ∨
    ∃ count ≤ most, readItems? fuel depth count s [] = some (items, rest)

theorem readItem?_cases {fuel depth : Nat} {s rest : Bytes} {item : Item}
    (found : readItem? (fuel + 1) depth s = some (item, rest)) :
    item.isFlat = true ∨
    (∃ items later, item = .array items ∧
      ReadsRow fuel (depth + 1) maxElements later items rest) ∨
    (∃ items entries most later, item = .map entries ∧ pairUp items = some entries ∧
      ReadsRow fuel (depth + 1) most later items rest) ∨
    (∃ tag content inner later, item = .tagged tag content ∧
      readItem? fuel inner later = some (content, rest)) := by
  simp only [readItem?] at found
  split at found
  · cases found
  next head later _ =>
    -- The major types from zero on: integers, strings, arrays, maps, tags and the rest.
    split at found
    · split at found <;> cases found
      exact .inl rfl
    · split at found <;> cases found
      exact .inl rfl
    · obtain ⟨_, -, same⟩ := Option.map_eq_some_iff.mp found
      cases same
      exact .inl rfl
    · obtain ⟨_, -, same⟩ := Option.map_eq_some_iff.mp found
      cases same
      exact .inl rfl
    · refine .inr (.inl ?_)
      split at found
      · cases found
      · split at found
        · split at found
          · cases found
          next row =>
            cases found
            exact ⟨_, _, rfl, .inl row⟩
        · split at found
          · cases found
          next few =>
            split at found
            · cases found
            next row =>
              cases found
              exact ⟨_, _, rfl, .inr ⟨_, Nat.not_lt.mp few, row⟩⟩
    · refine .inr (.inr (.inl ?_))
      split at found
      · cases found
      · split at found
        · split at found
          · cases found
          next row =>
            obtain ⟨entries, paired, same⟩ := Option.map_eq_some_iff.mp found
            cases same
            exact ⟨_, _, _, _, rfl, paired, .inl row⟩
        · split at found
          · cases found
          · split at found
            · cases found
            next row =>
              obtain ⟨entries, paired, same⟩ := Option.map_eq_some_iff.mp found
              cases same
              exact ⟨_, _, _, _, rfl, paired, .inr ⟨_, Nat.le_refl _, row⟩⟩
    · refine .inr (.inr (.inr ?_))
      split at found
      · cases found
      · split at found
        · cases found
        · split at found
          · cases found
          next read =>
            cases found
            exact ⟨_, _, _, _, rfl, read⟩
    · obtain ⟨_, value, same⟩ := Option.map_eq_some_iff.mp found
      cases same
      exact .inl (simpleItem?_isFlat value)

/-- The three readers of items return nothing but limited ones, and no more than they may. -/
structure LimitedReading (fuel : Nat) : Prop where
  one : ∀ depth s item rest, readItem? fuel depth s = some (item, rest) → item.Limited
  counted : ∀ depth count s before items rest, (∀ item ∈ before, item.Limited) →
    readItems? fuel depth count s before = some (items, rest) →
      items.length ≤ before.length + count ∧ ∀ item ∈ items, item.Limited
  toBreak : ∀ depth room s before items rest, (∀ item ∈ before, item.Limited) →
    readToBreak? fuel depth room s before = some (items, rest) →
      items.length ≤ before.length + room ∧ ∀ item ∈ items, item.Limited

theorem LimitedReading.row {fuel depth most : Nat} {s rest : Bytes} {items : List Item}
    (reading : LimitedReading fuel) (row : ReadsRow fuel depth most s items rest) :
    items.length ≤ most ∧ ∀ item ∈ items, item.Limited := by
  rcases row with row | ⟨count, few, row⟩
  · simpa using reading.toBreak _ _ _ _ _ _ (by simp) row
  · have bounds := reading.counted _ _ _ _ _ _ (by simp) row
    exact ⟨Nat.le_trans (by simpa using bounds.1) few, bounds.2⟩

theorem limitedReading (fuel : Nat) : LimitedReading fuel := by
  -- Each reader calls the others with less fuel.
  induction fuel with
  | zero =>
    refine ⟨?_, ?_, ?_⟩
    · intro depth s item rest found
      simp [readItem?] at found
    · intro depth count s before items rest limited found
      cases count with
      | zero =>
        simp only [readItems?] at found
        cases found
        simpa using limited
      | succ count => simp [readItems?] at found
    · intro depth room s before items rest limited found
      simp [readToBreak?] at found
  | succ fuel reading =>
    refine ⟨?_, ?_, ?_⟩
    · intro depth s item rest found
      rcases readItem?_cases found with flat | ⟨items, later, rfl, row⟩ |
        ⟨items, entries, most, later, rfl, paired, row⟩ | ⟨tag, content, inner, later, rfl, read⟩
      · exact .flat flat
      · exact .array (reading.row row).1 (reading.row row).2
      · have all := (reading.row row).2
        exact .map (fun entry member => all _ (mem_of_pairUp paired entry member).1)
          fun entry member => all _ (mem_of_pairUp paired entry member).2
      · exact .tagged tag (reading.one _ _ _ _ read)
    · intro depth count s before items rest limited found
      cases count with
      | zero =>
        simp only [readItems?] at found
        cases found
        simpa using limited
      | succ count =>
        simp only [readItems?] at found
        split at found
        · cases found
        next first later read =>
          have extended := List.forall_mem_cons.mpr ⟨reading.one _ _ _ _ read, limited⟩
          have result := reading.counted _ _ _ _ _ _ extended found
          simp only [List.length_cons] at result
          exact ⟨by omega, result.2⟩
    · intro depth room s before items rest limited found
      unfold readToBreak? at found
      split at found
      · obtain ⟨rfl, -⟩ : before.reverse = items ∧ _ = rest := by simpa using found
        exact ⟨by simp, by simpa using limited⟩
      · cases room with
        | zero => cases found
        | succ room =>
          dsimp only at found
          split at found
          · cases found
          next first later read =>
            have extended := List.forall_mem_cons.mpr ⟨reading.one _ _ _ _ read, limited⟩
            have result := reading.toBreak _ _ _ _ _ _ extended found
            simp only [List.length_cons] at result
            exact ⟨by omega, result.2⟩

theorem Item.read?_limited {s : Bytes} {item : Item} (found : Item.read? s = some item) :
    item.Limited := by
  unfold Item.read? at found
  split at found
  next read =>
    cases found
    exact (limitedReading _).one _ _ _ _ read
  · cases found

end Abacus.Cbor
