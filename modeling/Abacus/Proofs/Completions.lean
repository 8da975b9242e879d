import Abacus.LanguageServer.Server
import Abacus.Proofs.HoverRanges

/-!
# Completions continue words

The word before a position is found by walking back from it, byte by byte, while the scanner reads
the text from the front. The word is the longest run of word characters that ends there, and as a
line break is no word character, the run is no longer in the whole text than on its line
(`Document.longestRun_text`). A word that a reserved word continues consists of letters. The only
tokens with a letter in them are strings and words, and a word that began earlier would have made
the run longer. So the token is a word that begins where the run does (`Document.word_begins`).
-/
namespace Abacus

namespace Document

variable {s front word : Bytes}

/-! ## Runs of word characters -/

/-- The longest row of word characters that some bytes end with. -/
structure LongestRun (front word : Bytes) : Prop where
  ends : word <:+ front
  characters : ∀ b ∈ word, isWordCharacter b = true
  longest : ∀ w, w <:+ front → (∀ b ∈ w, isWordCharacter b = true) → w.length ≤ word.length

theorem longestRun_takeWhile (front : Bytes) :
    LongestRun front (front.reverse.takeWhile isWordCharacter).reverse where
  ends := by
    rw [← List.reverse_prefix, List.reverse_reverse]
    exact List.takeWhile_prefix _
  characters b member := List.mem_takeWhile_imp (List.mem_reverse.mp member)
  longest w suffix all := by
    have reversed : ∀ b ∈ w.reverse, isWordCharacter b = true :=
      fun b member => all b (List.mem_reverse.mp member)
    have shorter := length_le_takeWhile reversed (List.reverse_prefix.mpr suffix)
    simpa using shorter

/-- A run does not go on behind a line break. -/
theorem LongestRun.behind_newline (run : LongestRun front word) (before : Bytes) :
    LongestRun (before ++ newline :: front) word where
  ends := run.ends.trans ((List.suffix_cons ..).trans (List.suffix_append ..))
  characters := run.characters
  longest w suffix all := by
    have visible : newline ∉ w := fun member => absurd (all newline member) (by decide)
    rcases List.suffix_or_suffix_of_suffix suffix (List.suffix_append before _) with inside | around
    · rcases List.suffix_cons_iff.mp inside with rfl | inside
      · exact absurd List.mem_cons_self visible
      · exact run.longest w inside all
    · exact absurd (around.subset List.mem_cons_self) visible

/-- The byte in front of a longest run is no word character. -/
theorem LongestRun.not_before (run : LongestRun front word) {before : Bytes} {b : UInt8}
    (shape : before ++ b :: word = front) : isWordCharacter b = false := by
  by_contra more
  have all : ∀ x ∈ b :: word, isWordCharacter x = true :=
    List.forall_mem_cons.mpr ⟨by simpa using more, run.characters⟩
  have longer := run.longest (b :: word) ⟨before, shape⟩ all
  rw [List.length_cons] at longer
  omega

theorem lines_flatMap (s : Bytes) :
    (Bytes.lines s).flatMap (· ++ [newline]) = s ++ [newline] := by
  obtain ⟨terminated, rest, splits⟩ := splits_exist s
  rw [splits.lines_eq, List.flatMap_append, List.flatMap_singleton, ← List.append_assoc,
    ← splits.text_eq]

/-- Before a column of a line there are the lines before it and the bytes of the line before it. -/
theorem take_of_line {line : Bytes} {n column : Nat} (found : (Bytes.lines s)[n]? = some line)
    (fits : column ≤ line.length) :
    s.take (linesLength ((Bytes.lines s).take n) + column) =
      ((Bytes.lines s).take n).flatMap (· ++ [newline]) ++ line.take column := by
  have inside := (line_inside found).2
  obtain ⟨present, rfl⟩ := List.getElem?_eq_some_iff.mp found
  have whole := lines_flatMap s
  rw [← List.take_append_drop n (Bytes.lines s), List.drop_eq_getElem_cons present,
    List.flatMap_append, List.flatMap_cons, List.append_assoc] at whole
  have bound : linesLength ((Bytes.lines s).take n) + column ≤ s.length :=
    Nat.le_trans (Nat.add_le_add_left fits _) inside
  have early : (s ++ [newline]).take (linesLength ((Bytes.lines s).take n) + column) =
      s.take (linesLength ((Bytes.lines s).take n) + column) :=
    List.take_append_of_le_length bound
  rw [← early, ← whole, linesLength_eq_length, List.take_length_add_append,
    List.take_append_of_le_length fits]

theorem offsetAt?_le {p : Position} {offset : Nat} (here : offsetAt? s p = some offset) :
    offset ≤ s.length := by
  simp only [offsetAt?, Option.map_eq_some_iff] at here
  obtain ⟨line, found, rfl⟩ := here
  exact Nat.le_trans (Nat.add_le_add_left (Nat.min_le_right ..) _) (line_inside found).2

theorem longestRun_line {p : Position} {line : Bytes}
    (found : (Bytes.lines s)[p.line]? = some line) :
    LongestRun (line.take p.character) (wordBefore s p) := by
  rw [wordBefore, found]
  exact longestRun_takeWhile _

/-- The word before a position is the longest run that ends there, on its line and in the text. -/
theorem longestRun_text {p : Position} {offset : Nat} (here : offsetAt? s p = some offset) :
    LongestRun (s.take offset) (wordBefore s p) := by
  simp only [offsetAt?, Option.map_eq_some_iff] at here
  obtain ⟨line, found, rfl⟩ := here
  have run := longestRun_line found
  rw [List.take_eq_take_min] at run
  rw [take_of_line found (Nat.min_le_right ..)]
  -- If there are lines before, a line break stands in front of this one.
  rcases List.eq_nil_or_concat ((Bytes.lines s).take p.line) with none | ⟨others, last, some⟩
  · rw [none]
    exact run
  · rw [some, List.concat_eq_append, List.flatMap_append, List.flatMap_singleton, List.append_assoc,
      List.append_assoc, List.singleton_append, ← List.append_assoc]
    exact run.behind_newline _

theorem wordBefore_of_no_line {p : Position} (none : (Bytes.lines s)[p.line]? = none) :
    wordBefore s p = [] := by
  simp only [wordBefore, none]

/-- If it is not empty, the word before a position stands in the text and ends at the position. -/
theorem wordBefore_in_text {p : Position} (occupied : wordBefore s p ≠ []) :
    ∃ before after, s = before ++ wordBefore s p ++ after ∧
      offsetAt? s p = some (before.length + (wordBefore s p).length) ∧
      LongestRun (before ++ wordBefore s p) (wordBefore s p) := by
  cases here : offsetAt? s p with
  | none =>
    rw [offsetAt?, Option.map_eq_none_iff] at here
    exact absurd (wordBefore_of_no_line here) occupied
  | some offset =>
    have run := longestRun_text here
    obtain ⟨before, ends⟩ := run.ends
    have lengths := congrArg List.length ends
    rw [List.length_append, List.length_take_of_le (offsetAt?_le here)] at lengths
    refine ⟨before, s.drop offset, ?_, by rw [lengths], ends.symm ▸ run⟩
    rw [ends, List.take_append_drop]

/-! ## Reserved words -/

theorem mem_completions_iff (word : Bytes) (k : Keyword) :
    k ∈ completions word ↔ word <+: k.spelling ∧ word ≠ k.spelling := by
  simp [completions, Keyword.mem_all, ne_comm]

theorem completions_sorted (word : Bytes) :
    ((completions word).map Keyword.spelling).Pairwise (· < ·) := by
  have all : (Keyword.all.map Keyword.spelling).Pairwise (· < ·) := by decide
  exact all.sublist (List.filter_sublist.map _)

end Document

theorem Keyword.isLetter_of_mem_spelling {k : Keyword} {b : UInt8} (member : b ∈ k.spelling) :
    isLetter b = true := by
  have letters : k.spelling.all isLetter = true := by cases k <;> decide
  exact List.all_eq_true.mp letters b member

/-! ## Tokens with letters -/

namespace Pattern

variable {p : Pattern} {w : Bytes}

/-- A letter stands in words and strings only. -/
theorem Matches.eq_word {b : UInt8} (matched : p.Matches w) (member : b ∈ w)
    (letter : isLetter b = true) (plain : p ≠ .string) : p = .word := by
  have noDigit : isDigit b = true → False := by
    intro digit
    rw [isLetter_of_isDigit digit] at letter
    cases letter
  cases matched with
  | whole digits => exact (noDigit (digits.2 b member)).elim
  | fraction digits places =>
    rcases List.mem_append.mp member with before | behind
    · exact (noDigit (digits.2 b before)).elim
    · rcases List.mem_cons.mp behind with rfl | behind
      · cases letter
      · exact (noDigit (places.2 b behind)).elim
  | word => rfl
  | string => exact absurd rfl plain
  | punctuator p =>
    have free : p.spelling.all (!isLetter ·) = true := by cases p <;> decide
    have other := List.all_eq_true.mp free b member
    rw [letter] at other
    cases other

theorem Matches.isWordCharacter (matched : Pattern.word.Matches w) :
    ∀ b ∈ w, Document.isWordCharacter b = true := by
  cases matched with
  | word letter others =>
    intro b member
    rcases List.mem_cons.mp member with rfl | member
    · simp [Document.isWordCharacter, letter]
    · rcases others b member with letter | digit
      · simp [Document.isWordCharacter, letter]
      · simp [Document.isWordCharacter, digit]

end Pattern

namespace Document

variable {s word : Bytes}

/-- A token other than a string at the start of a run of letters is a word and starts there. -/
theorem word_begins {before after : Bytes} {t : Token} (run : LongestRun (before ++ word) word)
    (shape : s = before ++ word ++ after) (letters : ∀ b ∈ word, isLetter b = true)
    (occupied : word ≠ []) (member : t ∈ tokenize s) (plain : t.kind ≠ .string)
    (includes : t.Includes before.length) :
    (t.kind = .identifier ∨ t.kind.isKeyword = true) ∧ t.offset = before.length ∧
      word <+: t.lexeme := by
  obtain ⟨more, sound, early, late⟩ := includes
  obtain ⟨p, longest, names⟩ := Token.longest_of_mem member sound more
  have noString : p ≠ .string := by
    rintro rfl
    exact plain names
  obtain ⟨first, rest, rfl⟩ := List.exists_cons_of_ne_nil occupied
  -- The token reaches from `front`, a part of what is before the run, into the run.
  let front := before.drop t.offset
  have text : s.drop t.offset = front ++ first :: (rest ++ after) := by
    rw [shape, List.append_assoc, List.drop_append_of_le_length early]
    rfl
  have frontLength : front.length = before.length - t.offset := List.length_drop
  have here : front ++ [first] <+: s.drop t.offset := by
    rw [text]
    exact ⟨rest ++ after, by simp⟩
  have reaches : front ++ [first] <+: t.lexeme := by
    apply List.prefix_of_prefix_length_le here longest.here
    rw [List.length_append, List.length_singleton]
    omega
  have letter : isLetter first = true := letters first List.mem_cons_self
  obtain rfl := longest.matched.eq_word (reaches.subset (by simp)) letter noString
  have nothing : front = [] := by
    rcases List.eq_nil_or_concat front with none | ⟨others, b, some⟩
    · exact none
    · -- A word that begins earlier makes the run longer.
      have within : b ∈ t.lexeme := reaches.subset (by simp [some])
      have parts : before = before.take t.offset ++ others ++ [b] := by
        rw [List.append_assoc, ← List.concat_eq_append, ← some, List.take_append_drop]
      rw [parts, List.append_assoc, List.singleton_append] at run
      have other := run.not_before rfl
      rw [longest.matched.isWordCharacter b within] at other
      cases other
  have start : t.offset = before.length := by
    rw [nothing, List.length_nil] at frontLength
    omega
  refine ⟨?_, start, ?_⟩
  · rw [Kind.isKeyword_iff]
    exact names.word_cases
  · -- The run is a lexeme itself, so the longest one is not shorter.
    have isWord : Pattern.word.Matches (first :: rest) :=
      .word letter fun b inside => .inl (letters b (List.mem_cons_of_mem _ inside))
    have here : first :: rest <+: s.drop t.offset := by
      rw [text, nothing]
      exact ⟨after, rfl⟩
    exact List.prefix_of_prefix_length_le here longest.here (longest.longest _ _ isWord here)

end Document

/-! ## Requests for completions -/

/-- The reserved words that a response offers. -/
def Response.offered : Response → List Keyword
  | words items => items
  | _ => []

namespace LanguageServer

theorem complete_stored {s : LanguageServer} {uri content : Bytes}
    (stored : s.documents.find? uri = some content) (p : Position) :
    let offered := if (Document.wordBefore content p).isEmpty then []
      else Document.completions (Document.wordBefore content p)
    let response := (s.serve (.complete uri p)).response
    response.offered = offered ∧ (offered = [] → response = .nothing) := by
  intro offered response
  simp only [response, serve, complete, stored]
  split
  next empty => exact ⟨empty.symm, fun _ => rfl⟩
  next some => exact ⟨rfl, fun empty => absurd empty some⟩

open Document

/-- In a stored text the word before a position is the longest run of word characters on its line
that ends there, and none if there is no such line. The reserved words that properly continue it are
offered, in alphabetical order. If there are any, a token that includes the first byte of the word
and is no string is a word, begins with that byte and goes on with the word before the position. -/
theorem completions_continue_word {s : LanguageServer} {uri content : Bytes}
    (stored : s.documents.find? uri = some content) (p : Position) :
    let word := wordBefore content p
    let response := (s.serve (.complete uri p)).response
    (∀ line, (Bytes.lines content)[p.line]? = some line →
      LongestRun (line.take p.character) word) ∧
    ((Bytes.lines content)[p.line]? = none → word = []) ∧
    (∀ k, k ∈ response.offered ↔ word ≠ [] ∧ word <+: k.spelling ∧ word ≠ k.spelling) ∧
    (response.offered.map Keyword.spelling).Pairwise (· < ·) ∧
    (response.offered = [] → response = .nothing) ∧
    (response.offered ≠ [] →
      ∃ start, offsetAt? content p = some (start + word.length) ∧
        (content.drop start).take word.length = word ∧
        ∀ t ∈ tokenize content, t.kind ≠ .string → t.Includes start →
          (t.kind = .identifier ∨ t.kind.isKeyword = true) ∧ t.offset = start ∧
            word <+: t.lexeme) := by
  intro word response
  obtain ⟨offered, nothing⟩ := complete_stored stored p
  have members (k : Keyword) :
      k ∈ response.offered ↔ word ≠ [] ∧ word <+: k.spelling ∧ word ≠ k.spelling := by
    rw [offered]
    split
    next empty => simpa using fun some => absurd (List.isEmpty_iff.mp empty) some
    next some =>
      rw [mem_completions_iff]
      exact ⟨fun continued => ⟨by simpa using some, continued⟩, And.right⟩
  refine ⟨fun line found => longestRun_line found, wordBefore_of_no_line, members, ?_, ?_, ?_⟩
  · rw [offered]
    split
    · exact .nil
    · exact completions_sorted _
  · intro none
    exact nothing (offered.symm.trans none)
  · intro some
    obtain ⟨k, member⟩ := List.exists_mem_of_ne_nil _ some
    obtain ⟨occupied, continued, -⟩ := (members k).mp member
    have letters : ∀ b ∈ word, isLetter b = true :=
      fun b inside => Keyword.isLetter_of_mem_spelling (continued.subset inside)
    obtain ⟨before, after, shape, here, run⟩ := wordBefore_in_text occupied
    refine ⟨before.length, here, ?_, ?_⟩
    · rw [shape, List.append_assoc, List.drop_left, List.take_left]
    · intro t among plain includes
      exact word_begins run shape letters occupied among plain includes

/-- In the identifier `whiz` the first three letters are continued by `while`. -/
theorem completions_continue_word_identifier :
    let content := text "2*3\n1+whiz"
    let s := ((start Machine.fresh true []).serve (.opened (text "a") content)).server
    let response := (s.serve (.complete (text "a") ⟨1, 5⟩)).response
    s.documents.find? (text "a") = some content ∧ wordBefore content ⟨1, 5⟩ = text "whi" ∧
      response.offered = [.whileWord] ∧
      ∀ t ∈ tokenize content, t.kind ≠ .string → t.Includes 6 →
        (t.kind = .identifier ∨ t.kind.isKeyword = true) ∧ t.offset = 6 ∧
          text "whi" <+: t.lexeme := by
  intro content s response
  have stored : s.documents.find? (text "a") = some content := by decide
  have word : wordBefore content ⟨1, 5⟩ = text "whi" := by decide
  have offered : response.offered = [.whileWord] := by decide
  obtain ⟨-, -, -, -, -, tokens⟩ := completions_continue_word stored ⟨1, 5⟩
  obtain ⟨start, here, -, begins⟩ := tokens (offered ▸ List.cons_ne_nil _ _)
  have there : offsetAt? content ⟨1, 5⟩ = some 9 := by decide
  have length : (text "whi").length = 3 := by decide
  rw [word] at begins here
  obtain rfl : start = 6 := by
    have same := Option.some.inj (here.symm.trans there)
    omega
  exact ⟨stored, word, offered, begins⟩

end LanguageServer

end Abacus
