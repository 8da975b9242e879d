import Abacus.Proofs.LexicalGrammar

/-!
# Blanks end tokens

What the scanner takes at a place is determined by the grammar: there is one longest lexeme at most,
of one pattern and with one kind. A blank or a line break belongs to no lexeme but a string, and a
string ends at its closing quote whatever follows. So the longest lexeme of some bytes is the longest
one still if a blank and any other bytes come behind them (`LongestMatch.append_space`).
-/
namespace Abacus

theorem isSpace_of_visible {b : UInt8} (visible : isLetter b = true ∨ isDigit b = true) :
    isSpace b = false := by
  apply Bool.eq_false_iff.mpr
  intro space
  simp only [isSpace, Bool.or_eq_true, beq_iff_eq] at space
  rcases space with ((rfl | rfl) | rfl) | rfl <;> revert visible <;> decide

namespace Punctuator

theorem eq_of_spelling {p q : Punctuator} (same : q.spelling = p.spelling) : q = p := by
  obtain ⟨b, short, found, ⟨rfl, one⟩ | ⟨longer, two⟩⟩ := p.spelling_shape <;>
    obtain ⟨b', short', found', ⟨rfl, one'⟩ | ⟨longer', two'⟩⟩ := q.spelling_shape
  · obtain rfl : b' = b := by simpa [one, one'] using same
    exact Option.some.inj (found'.symm.trans found)
  · simp [one, two'] at same
  · simp [two, one'] at same
  · obtain rfl : b' = b := by simpa [two, two'] using same
    obtain rfl : short' = short := Option.some.inj (found'.symm.trans found)
    exact Option.some.inj (longer'.symm.trans longer)

theorem free_of_spaces (p : Punctuator) : ∀ b ∈ p.spelling, isSpace b = false := by
  have free : p.spelling.all (!isSpace ·) = true := by cases p <;> decide
  simpa using free

end Punctuator

namespace Pattern

variable {p q : Pattern} {w : Bytes}

theorem Matches.eq_spelling {p : Punctuator} (matched : (Pattern.punctuator p).Matches w) :
    w = p.spelling := by
  cases matched
  rfl

theorem Matches.unique (first : p.Matches w) (second : q.Matches w) : q = p := by
  obtain ⟨b, s, rfl, opens⟩ := first.cons
  have opens' : q.Opens b := second.opens (List.prefix_refl _)
  -- The first byte tells all patterns apart but the punctuators.
  cases p with
  | number => exact eq_number_of_opens opens opens'
  | word => exact eq_word_of_opens opens opens'
  | string =>
    obtain rfl : b = 0x22 := opens
    exact eq_string_of_opens opens'
  | punctuator p =>
    obtain ⟨digit, letter, quote⟩ := p.spelling_head opens
    cases q with
    | number => rw [show isDigit b = true from opens'] at digit; cases digit
    | word => rw [show isLetter b = true from opens'] at letter; cases letter
    | string => exact absurd opens' quote
    | punctuator q =>
      rw [Punctuator.eq_of_spelling (second.eq_spelling.symm.trans first.eq_spelling)]

theorem Names.unique {kind other : Kind} (first : p.Names w kind) (second : p.Names w other) :
    other = kind := by
  cases p with
  | number | string | punctuator p => exact second.trans first.symm
  | word =>
    rcases first.word_cases with rfl | ⟨k, rfl⟩
    · exact second.2.mpr (first.2.mp rfl)
    · exact (second.1 _ rfl).mpr ((first.1 _ rfl).mp rfl)

theorem Matches.free_of_spaces (matched : p.Matches w) (plain : p ≠ .string) :
    ∀ b ∈ w, isSpace b = false := by
  intro b member
  cases matched with
  | whole digits => exact isSpace_of_visible (.inr (digits.2 b member))
  | @fraction digits places whole fraction =>
    rcases List.mem_append.mp member with before | behind
    · exact isSpace_of_visible (.inr (whole.2 b before))
    · rcases List.mem_cons.mp behind with rfl | behind
      · rfl
      · exact isSpace_of_visible (.inr (fraction.2 b behind))
  | word letter others =>
    rcases List.mem_cons.mp member with rfl | member
    · exact isSpace_of_visible (.inl letter)
    · exact isSpace_of_visible (others b member)
  | string _ => exact absurd rfl plain
  | punctuator p => exact p.free_of_spaces b member

end Pattern

namespace LongestMatch

variable {p q : Pattern} {w v s : Bytes}

theorem unique (first : LongestMatch p w s) (second : LongestMatch q v s) : v = w ∧ q = p := by
  have length := Nat.le_antisymm (first.longest _ _ second.matched second.here)
    (second.longest _ _ first.matched first.here)
  have same : v = w :=
    List.IsPrefix.eq_of_length_le (List.prefix_of_prefix_length_le second.here first.here
      (Nat.le_of_eq length)) (Nat.le_of_eq length.symm)
  subst same
  exact ⟨rfl, first.matched.unique second.matched⟩

theorem of_matches (matched : p.Matches w) : LongestMatch p w w :=
  ⟨matched, List.prefix_refl w, fun _ _ _ here => here.length_le⟩

/-- The lexeme does not go on behind a blank. -/
theorem append_space {b : UInt8} (longest : LongestMatch p w s) (space : isSpace b = true)
    (t : Bytes) : LongestMatch p w (s ++ b :: t) := by
  have here : w <+: s ++ b :: t := longest.here.trans (List.prefix_append ..)
  by_cases quoted : p = .string
  · -- A string ends at its second quote.
    subst quoted
    obtain ⟨after, same⟩ := here
    cases longest.matched with
    | @string body closed =>
      have ended : LongestMatch .string _ (0x22 :: (body ++ 0x22 :: after)) :=
        longest_string closed
      rw [← same]
      simpa using ended
  · refine ⟨longest.matched, here, fun other v matched there => ?_⟩
    have plain : other ≠ .string := by
      rintro rfl
      -- The two lexemes start with the same byte.
      obtain ⟨first, rest, rfl, opens⟩ := longest.matched.cons
      obtain ⟨after, same⟩ := here
      rw [← same] at there
      obtain rfl : first = 0x22 := matched.opens there
      exact quoted (Pattern.eq_string_of_opens opens)
    apply longest.longest other v matched
    rcases Nat.lt_or_ge s.length v.length with long | short
    · -- A longer lexeme would hold the blank.
      have reaches : s ++ [b] <+: v := by
        apply List.prefix_of_prefix_length_le _ there
        · rw [List.length_append]
          exact long
        · exact ⟨t, by simp⟩
      have blank := matched.free_of_spaces plain b (reaches.subset (by simp))
      rw [space] at blank
      cases blank
    · exact List.prefix_of_prefix_length_le there (List.prefix_append ..) short

end LongestMatch

namespace Cursor

theorem take_of_longest {c : Cursor} {p : Pattern} {w : Bytes} {kind : Kind}
    (longest : LongestMatch p w c.rest) (names : p.Names w kind) :
    c.take = (⟨kind, w, (c.advance w.length).line, c.offset⟩, c.advance w.length) := by
  cases shape : c.rest with
  | nil =>
    obtain ⟨b, s, rfl, -⟩ := longest.matched.cons
    simpa [shape] using longest.here
  | cons first rest =>
    rw [shape] at longest
    have missing (none : ∀ (q : Pattern) (v : Bytes), q.Matches v → ¬ v <+: first :: rest) :
        False := none p w longest.matched longest.here
    rcases c.take_cases shape with ⟨q, v, other, found, called, taken⟩ | ⟨agrees, -⟩ | ⟨agrees, -⟩
    · rw [shape] at found
      obtain ⟨rfl, rfl⟩ := longest.unique found
      obtain rfl := names.unique called
      exact taken
    · exact (missing (agrees.no_match (by simp))).elim
    · exact (missing (agrees.no_match (by simp))).elim

/-- A byte that starts no lexeme is an error by itself. -/
theorem take_of_unexpected {c : Cursor} {first : UInt8} {rest : Bytes}
    (shape : c.rest = first :: rest) (agrees : Lexed.unexpected.Agrees first rest) :
    c.take = (⟨.error, Lexed.unexpectedMessage, c.line, c.offset⟩, c.advance 1) := by
  rcases c.take_cases shape with ⟨p, w, kind, longest, -⟩ | ⟨-, taken⟩ | ⟨open_, -⟩
  · have here := longest.here
    rw [shape] at here
    exact absurd here (agrees.no_match (by simp) p w longest.matched)
  · exact taken
  · obtain ⟨rfl, -⟩ := open_
    exact absurd (.string (by simp : (0x22 : UInt8) ∉ [])) (agrees .string _)

end Cursor

end Abacus
