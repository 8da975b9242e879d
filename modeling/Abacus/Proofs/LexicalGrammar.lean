import Abacus.Number.Decimal
import Abacus.Proofs.Layout
import Abacus.Proofs.TextLines

/-!
# The lexical grammar

Lexemes are given by patterns:

    number     [0-9]+(\.[0-9]+)?
    word       [A-Za-z_][A-Za-z0-9_]*
    string     "[^"]*"
    punctuator its spelling

Where a token starts the scanner takes the longest lexeme of any pattern. The first byte settles
which pattern that is, since no two patterns have lexemes that start alike; only punctuators differ
in their second byte. A word is reserved exactly if it is the name of a reserved kind.
-/
namespace Abacus

def Digits (s : Bytes) : Prop := s ≠ [] ∧ ∀ b ∈ s, isDigit b = true

inductive Pattern
  | number | word | string
  | punctuator (p : Punctuator)
  deriving DecidableEq, Repr

inductive Pattern.Matches : Pattern → Bytes → Prop
  | whole {digits : Bytes} : Digits digits → Matches .number digits
  | fraction {digits places : Bytes} :
      Digits digits → Digits places → Matches .number (digits ++ 0x2e :: places)
  | word {b : UInt8} {s : Bytes} :
      isLetter b = true → (∀ x ∈ s, isLetter x = true ∨ isDigit x = true) → Matches .word (b :: s)
  | string {body : Bytes} : 0x22 ∉ body → Matches .string (0x22 :: (body ++ [0x22]))
  | punctuator (p : Punctuator) : Matches (.punctuator p) p.spelling

/-- Of all lexemes at the start of the bytes, this is the longest. -/
structure LongestMatch (pattern : Pattern) (lexeme s : Bytes) : Prop where
  matched : pattern.Matches lexeme
  here : lexeme <+: s
  longest : ∀ (other : Pattern) (w : Bytes), other.Matches w → w <+: s →
    w.length ≤ lexeme.length

/-- The kind is the one of a lexeme of the pattern. A word has a reserved kind if it is the name of
that kind, and is an identifier if it is the name of none. -/
def Pattern.Names (lexeme : Bytes) (kind : Kind) : Pattern → Prop
  | number => kind = .number
  | string => kind = .string
  | punctuator p => kind = .punctuator p
  | word =>
    (∀ k : Kind, k.isKeyword = true → (kind = k ↔ lexeme = k.name)) ∧
      (kind = .identifier ↔ ∀ k : Kind, k.isKeyword = true → lexeme ≠ k.name)

/-! ## First bytes -/

/-- The bytes that lexemes of a pattern start with. -/
def Pattern.Opens (b : UInt8) : Pattern → Prop
  | number => isDigit b = true
  | word => isLetter b = true
  | string => b = 0x22
  | punctuator p => p.spelling.head? = some b

theorem Pattern.Matches.cons {pattern : Pattern} {w : Bytes} (matched : pattern.Matches w) :
    ∃ b s, w = b :: s ∧ pattern.Opens b := by
  have first {s : Bytes} (t : Bytes) (digits : Digits s) :
      ∃ b u, s ++ t = b :: u ∧ isDigit b = true := by
    obtain ⟨occupied, all⟩ := digits
    obtain ⟨b, u, rfl⟩ := List.exists_cons_of_ne_nil occupied
    exact ⟨b, u ++ t, rfl, all b List.mem_cons_self⟩
  cases matched with
  | whole digits => simpa [Pattern.Opens] using first [] digits
  | fraction digits _ => exact first _ digits
  | word letter _ => exact ⟨_, _, rfl, letter⟩
  | string _ => exact ⟨_, _, rfl, rfl⟩
  | punctuator p => cases p <;> exact ⟨_, _, rfl, rfl⟩

theorem isLetter_of_isDigit {b : UInt8} (digit : isDigit b = true) : isLetter b = false := by
  simp only [isDigit, Bool.and_eq_true, decide_eq_true_eq, UInt8.le_iff_toNat_le] at digit
  simp only [isLetter, Bool.or_eq_false_iff, Bool.and_eq_false_iff, decide_eq_false_iff_not,
    UInt8.le_iff_toNat_le, beq_eq_false_iff_ne, ne_eq, ← UInt8.toNat_inj]
  simp at digit ⊢
  omega

/-- Punctuators start with neither digits nor letters nor quotes. -/
theorem Punctuator.spelling_head (p : Punctuator) {b : UInt8}
    (opens : p.spelling.head? = some b) :
    isDigit b = false ∧ isLetter b = false ∧ b ≠ 0x22 := by
  cases p <;> (obtain rfl := Option.some.inj opens; decide)

namespace Pattern

theorem eq_string_of_opens {pattern : Pattern} (opens : pattern.Opens 0x22) :
    pattern = .string := by
  cases pattern with
  | number => simp [Opens, isDigit] at opens
  | word => simp [Opens, isLetter] at opens
  | string => rfl
  | punctuator p => exact absurd rfl (p.spelling_head opens).2.2

theorem eq_number_of_opens {pattern : Pattern} {b : UInt8} (digit : isDigit b = true)
    (opens : pattern.Opens b) : pattern = .number := by
  cases pattern with
  | number => rfl
  | word => simp [Opens, isLetter_of_isDigit digit] at opens
  | string =>
    obtain rfl : b = 0x22 := opens
    simp [isDigit] at digit
  | punctuator p => simp [(p.spelling_head opens).1] at digit

theorem eq_word_of_opens {pattern : Pattern} {b : UInt8} (letter : isLetter b = true)
    (opens : pattern.Opens b) : pattern = .word := by
  cases pattern with
  | number => simp [isLetter_of_isDigit opens] at letter
  | word => rfl
  | string =>
    obtain rfl : b = 0x22 := opens
    simp [isLetter] at letter
  | punctuator p => simp [(p.spelling_head opens).2.1] at letter

end Pattern

/-- A lexeme at the start of bytes starts with their first byte. -/
theorem Pattern.Matches.opens {pattern : Pattern} {w s : Bytes} {b : UInt8}
    (matched : pattern.Matches w) (here : w <+: b :: s) : pattern.Opens b := by
  obtain ⟨b', t, rfl, opens⟩ := matched.cons
  obtain ⟨rfl, -⟩ := List.cons_prefix_cons.mp here
  exact opens

/-! ## Strings -/

theorem lex_closed {body after : Bytes} (closed : 0x22 ∉ body) :
    lex 0x22 (body ++ 0x22 :: after) = .token .string (body.length + 2) := by
  have shorter : body.length < (body ++ 0x22 :: after).length := by simp
  simp [lex, Bytes.takeWhile_append_separator closed]

theorem lex_unclosed {rest : Bytes} (open_ : 0x22 ∉ rest) : lex 0x22 rest = .unterminated := by
  simp [lex, Bytes.takeWhile_of_notMem open_]

/-- A string ends at the first quote after the one that opens it. -/
theorem longest_string {body after : Bytes} (closed : 0x22 ∉ body) :
    LongestMatch .string (0x22 :: (body ++ [0x22])) (0x22 :: (body ++ 0x22 :: after)) where
  matched := .string closed
  here := ⟨after, by simp⟩
  longest other w matched here := by
    obtain rfl := Pattern.eq_string_of_opens (matched.opens here)
    cases matched with
    | @string body' closed' =>
      obtain ⟨after', same⟩ := here
      -- Both bodies are what stands before the first quote.
      have bodies := congrArg (List.takeWhile (· != 0x22)) (List.cons.inj same).2
      have first : (body' ++ [0x22] ++ after').takeWhile (· != 0x22) = body' := by
        rw [List.append_assoc, List.singleton_append, Bytes.takeWhile_append_separator closed']
      rw [Bytes.takeWhile_append_separator closed] at bodies
      simp [← first.symm.trans bodies]

theorem no_match_unclosed {rest : Bytes} (open_ : 0x22 ∉ rest) (pattern : Pattern) (w : Bytes)
    (matched : pattern.Matches w) : ¬ w <+: 0x22 :: rest := by
  intro here
  obtain rfl := Pattern.eq_string_of_opens (matched.opens here)
  cases matched with
  | string closed =>
    obtain ⟨after, same⟩ := here
    apply open_
    rw [← (List.cons.inj same).2]
    simp

/-! ## Numbers -/

theorem length_le_takeWhile {p : UInt8 → Bool} {w s : Bytes} (all : ∀ b ∈ w, p b = true)
    (here : w <+: s) : w.length ≤ (s.takeWhile p).length := by
  obtain ⟨after, rfl⟩ := here
  rw [List.takeWhile_append_of_pos all, List.length_append]
  exact Nat.le_add_right ..

theorem digits_takeWhile {first : UInt8} (rest : Bytes) (digit : isDigit first = true) :
    Digits ((first :: rest).takeWhile isDigit) := by
  refine ⟨by simp [digit], ?_⟩
  intro b member
  exact List.mem_takeWhile_imp member

/-- The digits before a point end at the point. -/
theorem takeWhile_dropWhile_point {digits : Bytes} (after : Bytes) (whole : Digits digits) :
    (digits ++ 0x2e :: after).takeWhile isDigit = digits ∧
      (digits ++ 0x2e :: after).dropWhile isDigit = 0x2e :: after := by
  have stop : isDigit 0x2e = false := rfl
  constructor
  · rw [List.takeWhile_append_of_pos whole.2]
    simp [stop]
  · rw [List.dropWhile_append_of_pos whole.2]
    simp [stop]

/-- A point belongs to the number before it if a digit follows. -/
theorem numberLength_fraction {digits places : Bytes} (after : Bytes) (whole : Digits digits)
    (fraction : Digits places) :
    digits.length + 1 + places.length ≤ numberLength (digits ++ 0x2e :: (places ++ after)) := by
  obtain ⟨taken, dropped⟩ := takeWhile_dropWhile_point (places ++ after) whole
  have longer := length_le_takeWhile fraction.2 (List.prefix_append places after)
  have occupied := List.length_pos_iff.mpr fraction.1
  simp only [numberLength, taken, dropped]
  rw [if_neg (by omega)]
  omega

theorem whole_le_numberLength (s : Bytes) : (s.takeWhile isDigit).length ≤ numberLength s := by
  unfold numberLength
  dsimp only
  split
  · split <;> omega
  · exact Nat.le_refl _

/-- The bytes that a number is made of are a number. -/
theorem matches_numberLength {s : Bytes} (whole : Digits (s.takeWhile isDigit)) :
    Pattern.number.Matches (s.take (numberLength s)) ∧ numberLength s ≤ s.length := by
  have ofStart {lexeme : Bytes} (matched : Pattern.number.Matches lexeme) (here : lexeme <+: s) :
      Pattern.number.Matches (s.take lexeme.length) ∧ lexeme.length ≤ s.length := by
    rw [← List.prefix_iff_eq_take.mp here]
    exact ⟨matched, here.length_le⟩
  have onlyDigits := ofStart (.whole whole) (List.takeWhile_prefix isDigit)
  unfold numberLength
  dsimp only
  split
  next rest point =>
    split
    · exact onlyDigits
    next occupied =>
      have places : Digits (rest.takeWhile isDigit) :=
        ⟨fun empty => occupied (by simp [empty]), fun b member => List.mem_takeWhile_imp member⟩
      have here : s.takeWhile isDigit ++ 0x2e :: rest.takeWhile isDigit <+: s := by
        refine ⟨rest.dropWhile isDigit, ?_⟩
        rw [List.append_assoc, List.cons_append, List.takeWhile_append_dropWhile, ← point,
          List.takeWhile_append_dropWhile]
      have fraction := ofStart (.fraction whole places) here
      rw [List.length_append, List.length_cons, ← Nat.add_assoc, Nat.add_right_comm] at fraction
      exact fraction
  · exact onlyDigits

theorem Pattern.Matches.isNumeral {s : Bytes} (matched : Pattern.number.Matches s) :
    Decimal.isNumeral s = true := by
  cases matched with
  | whole digits =>
    have taken : s.takeWhile isDigit = s := List.takeWhile_eq_self_iff.mpr digits.2
    have nothing : s.dropWhile isDigit = [] := List.dropWhile_eq_nil_iff.mpr digits.2
    simp [Decimal.isNumeral, taken, nothing, digits.1]
  | @fraction digits places whole fraction =>
    obtain ⟨taken, dropped⟩ := takeWhile_dropWhile_point places whole
    simpa [Decimal.isNumeral, taken, dropped, whole.1, fraction.1] using fraction.2

/-- A number ends where its digits end, behind its fraction if it has one. -/
theorem longest_number {first : UInt8} (rest : Bytes) (digit : isDigit first = true) :
    LongestMatch .number ((first :: rest).take (numberLength (first :: rest))) (first :: rest) := by
  obtain ⟨matched, inside⟩ := matches_numberLength (digits_takeWhile rest digit)
  refine ⟨matched, List.take_prefix .., ?_⟩
  intro other w found here
  rw [List.length_take, Nat.min_eq_left inside]
  obtain rfl := Pattern.eq_number_of_opens digit (found.opens here)
  cases found with
  | whole digits => exact Nat.le_trans (length_le_takeWhile digits.2 here) (whole_le_numberLength _)
  | @fraction digits places whole fraction =>
    obtain ⟨after, same⟩ := here
    rw [← same, List.append_assoc, List.cons_append, List.length_append, List.length_cons]
    have longer := numberLength_fraction after whole fraction
    omega

/-! ## Words -/

/-- A word goes on as long as letters and digits follow. -/
theorem longest_word {first : UInt8} {rest : Bytes} (letter : isLetter first = true) :
    LongestMatch .word (first :: rest.takeWhile isWordByte) (first :: rest) where
  matched := by
    refine .word letter fun b member => ?_
    have inside := List.mem_takeWhile_imp member
    simpa [isWordByte] using inside
  here := List.cons_prefix_cons.mpr ⟨rfl, List.takeWhile_prefix _⟩
  longest other w found here := by
    obtain rfl := Pattern.eq_word_of_opens letter (found.opens here)
    cases found with
    | word _ all =>
      obtain ⟨rfl, tail⟩ := List.cons_prefix_cons.mp here
      have shorter := @length_le_takeWhile isWordByte _ _
        (fun b member => by simpa [isWordByte] using all b member) tail
      simpa using shorter

namespace Keyword

/-- Telling words by their first letters finds exactly the reserved words. -/
theorem recognize?_eq_some_iff (word : Bytes) (k : Keyword) :
    recognize? word = some k ↔ word = k.spelling := by
  constructor
  · intro found
    unfold recognize? at found
    -- In each branch the letters told apart so far and the rest compared are those of one word.
    split at found
    all_goals
      simp only [completed, Option.ite_none_right_eq_some, Option.some.injEq, reduceCtorEq] at found
    all_goals
      obtain ⟨rfl, rfl⟩ := found
      rfl
  · rintro rfl
    cases k <;> decide

theorem mem_all (k : Keyword) : k ∈ all := by
  cases k <;> decide

end Keyword

namespace Kind

theorem ofWord_eq_keyword_iff (word : Bytes) (k : Keyword) :
    ofWord word = .keyword k ↔ word = k.spelling := by
  rw [← Keyword.recognize?_eq_some_iff]
  unfold ofWord
  split <;> simp_all

theorem ofWord_cases (word : Bytes) :
    ofWord word = .identifier ∨ ∃ k, ofWord word = .keyword k := by
  unfold ofWord
  split <;> simp

theorem isKeyword_iff (kind : Kind) : kind.isKeyword = true ↔ ∃ k, kind = .keyword k := by
  cases kind <;> simp [isKeyword]

/-- The reserved kinds are those whose names are listed as reserved words. -/
theorem isKeyword_iff_name (kind : Kind) :
    kind.isKeyword = true ↔ kind.name ∈ Keyword.all.map Keyword.spelling := by
  constructor
  · intro reserved
    obtain ⟨k, rfl⟩ := (isKeyword_iff kind).mp reserved
    exact List.mem_map_of_mem k.mem_all
  · cases kind with
    | keyword k => intro _; rfl
    | punctuator p => cases p <;> decide
    | _ => decide

theorem names_ofWord (word : Bytes) : Pattern.word.Names word (ofWord word) := by
  have reserved (k : Kind) (isReserved : k.isKeyword = true) :
      ofWord word = k ↔ word = k.name := by
    obtain ⟨k, rfl⟩ := (isKeyword_iff k).mp isReserved
    exact ofWord_eq_keyword_iff word k
  refine ⟨reserved, ?_⟩
  constructor
  · intro identifier k isReserved same
    rw [(reserved k isReserved).mpr same] at identifier
    simp [identifier, isKeyword] at isReserved
  · intro none
    rcases ofWord_cases word with identifier | ⟨k, keyword⟩
    · exact identifier
    · exact absurd ((ofWord_eq_keyword_iff word k).mp keyword) (none (.keyword k) rfl)

end Kind

/-! ## Punctuators -/

namespace Punctuator

/-- A punctuator is a single byte, or such a byte with an equals sign behind it. -/
theorem spelling_shape (p : Punctuator) :
    ∃ b short, ofByte? b = some short ∧
      (p = short ∧ p.spelling = [b] ∨ short.withEqual? = some p ∧ p.spelling = [b, 0x3d]) := by
  cases p with
  | bangEqual => exact ⟨0x21, .bang, by decide⟩
  | equalEqual => exact ⟨0x3d, .equal, by decide⟩
  | greaterEqual => exact ⟨0x3e, .greater, by decide⟩
  | lessEqual => exact ⟨0x3c, .less, by decide⟩
  | leftParen => exact ⟨0x28, .leftParen, by decide⟩
  | rightParen => exact ⟨0x29, .rightParen, by decide⟩
  | leftBrace => exact ⟨0x7b, .leftBrace, by decide⟩
  | rightBrace => exact ⟨0x7d, .rightBrace, by decide⟩
  | comma => exact ⟨0x2c, .comma, by decide⟩
  | dot => exact ⟨0x2e, .dot, by decide⟩
  | minus => exact ⟨0x2d, .minus, by decide⟩
  | plus => exact ⟨0x2b, .plus, by decide⟩
  | semicolon => exact ⟨0x3b, .semicolon, by decide⟩
  | slash => exact ⟨0x2f, .slash, by decide⟩
  | star => exact ⟨0x2a, .star, by decide⟩
  | bang => exact ⟨0x21, .bang, by decide⟩
  | equal => exact ⟨0x3d, .equal, by decide⟩
  | greater => exact ⟨0x3e, .greater, by decide⟩
  | less => exact ⟨0x3c, .less, by decide⟩

theorem spelling_of_ofByte? {b : UInt8} {p : Punctuator} (found : ofByte? b = some p) :
    p.spelling = [b] := by
  have matched := List.find?_some found
  simpa using matched

theorem spelling_of_withEqual? {b : UInt8} {p longer : Punctuator} (found : ofByte? b = some p)
    (grows : p.withEqual? = some longer) : longer.spelling = [b, 0x3d] := by
  have short := spelling_of_ofByte? found
  cases p <;> cases grows <;> (obtain rfl := (List.cons.inj short).1; decide)

/-- Only single bytes and the equals sign behind them can be lexemes. -/
theorem lexeme_cases {first : UInt8} {rest : Bytes} {p other : Punctuator}
    (found : ofByte? first = some p) (here : other.spelling <+: first :: rest) :
    other.spelling.length = 1 ∨
      p.withEqual? = some other ∧ other.spelling.length = 2 ∧ ∃ after, rest = 0x3d :: after := by
  obtain ⟨b, short, shortest, ⟨-, shape⟩ | ⟨grows, shape⟩⟩ := other.spelling_shape
  · exact .inl (by simp [shape])
  · rw [shape] at here
    obtain ⟨rfl, tail⟩ := List.cons_prefix_cons.mp here
    obtain ⟨after, rfl⟩ := tail
    obtain rfl := Option.some.inj (found.symm.trans shortest)
    exact .inr ⟨grows, by simp [shape], after, rfl⟩

/-- A byte that is no punctuator by itself starts none. -/
theorem not_opens_of_ofByte? {b : UInt8} (missing : ofByte? b = none) (p : Punctuator) :
    p.spelling.head? ≠ some b := by
  intro opens
  obtain ⟨b', short, shortest, ⟨-, shape⟩ | ⟨-, shape⟩⟩ := p.spelling_shape <;>
    · rw [shape] at opens
      obtain rfl := Option.some.inj opens
      rw [missing] at shortest
      cases shortest

end Punctuator

theorem Pattern.eq_punctuator_of_opens {pattern : Pattern} {b : UInt8} {p : Punctuator}
    (found : Punctuator.ofByte? b = some p) (opens : pattern.Opens b) :
    ∃ other, pattern = .punctuator other := by
  have head : p.spelling.head? = some b := by rw [Punctuator.spelling_of_ofByte? found]; rfl
  obtain ⟨digit, letter, quote⟩ := p.spelling_head head
  cases pattern with
  | number => rw [show isDigit b = true from opens] at digit; cases digit
  | word => rw [show isLetter b = true from opens] at letter; cases letter
  | string => exact absurd opens quote
  | punctuator other => exact ⟨other, rfl⟩

theorem longest_pair {first : UInt8} {after : Bytes} {p longer : Punctuator}
    (found : Punctuator.ofByte? first = some p) (grows : p.withEqual? = some longer) :
    LongestMatch (.punctuator longer) [first, 0x3d] (first :: 0x3d :: after) where
  matched := Punctuator.spelling_of_withEqual? found grows ▸ .punctuator longer
  here := ⟨after, rfl⟩
  longest other w matched here := by
    obtain ⟨q, rfl⟩ := Pattern.eq_punctuator_of_opens found (matched.opens here)
    cases matched
    rcases Punctuator.lexeme_cases found here with one | ⟨-, two, -⟩
    · simp [one]
    · simp [two]

theorem longest_single {first : UInt8} {rest : Bytes} {p : Punctuator}
    (found : Punctuator.ofByte? first = some p)
    (alone : ∀ longer after, p.withEqual? = some longer → rest ≠ 0x3d :: after) :
    LongestMatch (.punctuator p) [first] (first :: rest) where
  matched := Punctuator.spelling_of_ofByte? found ▸ .punctuator p
  here := ⟨rest, rfl⟩
  longest other w matched here := by
    obtain ⟨q, rfl⟩ := Pattern.eq_punctuator_of_opens found (matched.opens here)
    cases matched
    rcases Punctuator.lexeme_cases found here with one | ⟨grows, -, after, same⟩
    · simp [one]
    · exact absurd same (alone q after grows)

/-! ## Tokens -/

/-- What is found where a token starts is what the grammar says is there. -/
def Lexed.Agrees (first : UInt8) (rest : Bytes) : Lexed → Prop
  | token kind length =>
    ∃ pattern lexeme, LongestMatch pattern lexeme (first :: rest) ∧ pattern.Names lexeme kind ∧
      length = lexeme.length
  | unexpected => ∀ (pattern : Pattern) (w : Bytes), ¬ pattern.Matches (first :: w)
  | unterminated => first = 0x22 ∧ 0x22 ∉ rest

theorem lex_agrees (first : UInt8) (rest : Bytes) : (lex first rest).Agrees first rest := by
  by_cases quote : first = 0x22
  · subst quote
    by_cases closed : 0x22 ∈ rest
    · obtain ⟨body, after, rfl, inside⟩ := List.eq_append_cons_of_mem closed
      rw [lex_closed inside]
      exact ⟨.string, _, longest_string inside, rfl, by simp⟩
    · rw [lex_unclosed closed]
      exact ⟨rfl, closed⟩
  · unfold lex
    rw [if_neg (by simpa using quote)]
    split
    next digit =>
      have longest := longest_number rest digit
      obtain ⟨-, inside⟩ := matches_numberLength (digits_takeWhile rest digit)
      exact ⟨.number, _, longest, rfl, by rw [List.length_take, Nat.min_eq_left inside]⟩
    next noDigit =>
      split
      next letter => exact ⟨.word, _, longest_word letter, Kind.names_ofWord _, rfl⟩
      next noLetter =>
        split
        next missing =>
          intro pattern w matched
          -- No pattern is left that could start here.
          have opens := matched.opens (List.prefix_refl _)
          cases pattern with
          | number => exact noDigit opens
          | word => exact noLetter opens
          | string => exact quote opens
          | punctuator p => exact Punctuator.not_opens_of_ofByte? missing p opens
        next p found =>
          split
          next longer after grows =>
            exact ⟨.punctuator longer, _, longest_pair found grows, rfl, rfl⟩
          next alone =>
            exact ⟨.punctuator p, _, longest_single found (fun longer after => alone longer after),
              rfl, rfl⟩

/-- No lexeme starts where an error is found. -/
theorem Lexed.Agrees.no_match {first : UInt8} {rest : Bytes} {found : Lexed}
    (agrees : found.Agrees first rest) (error : ∀ kind length, found ≠ .token kind length)
    (pattern : Pattern) (w : Bytes) (matched : pattern.Matches w) : ¬ w <+: first :: rest := by
  cases found with
  | token kind length => exact absurd rfl (error kind length)
  | unterminated =>
    obtain ⟨rfl, open_⟩ := agrees
    exact no_match_unclosed open_ pattern w matched
  | unexpected =>
    intro here
    obtain ⟨b, s, rfl, -⟩ := matched.cons
    obtain ⟨rfl, -⟩ := List.cons_prefix_cons.mp here
    exact agrees pattern s matched

theorem Pattern.Names.word_cases {lexeme : Bytes} {kind : Kind}
    (names : Pattern.word.Names lexeme kind) : kind = .identifier ∨ ∃ k, kind = .keyword k := by
  by_cases none : ∀ k : Kind, k.isKeyword = true → lexeme ≠ k.name
  · exact .inl (names.2.mpr none)
  · obtain ⟨k, isReserved, same⟩ : ∃ k : Kind, k.isKeyword = true ∧ lexeme = k.name := by
      simpa using none
    obtain rfl := (names.1 k isReserved).mpr same
    exact .inr ((Kind.isKeyword_iff kind).mp isReserved)

/-- Errors and the end of the input are not lexemes. -/
theorem Pattern.Names.ne_marker {pattern : Pattern} {lexeme : Bytes} {kind : Kind}
    (names : pattern.Names lexeme kind) : kind ≠ .error ∧ kind ≠ .endOfInput := by
  cases pattern with
  | number | string | punctuator p =>
    obtain rfl := names
    simp
  | word => rcases names.word_cases with rfl | ⟨k, rfl⟩ <;> simp

theorem Pattern.Names.eq_number {pattern : Pattern} {lexeme : Bytes} {kind : Kind}
    (names : pattern.Names lexeme kind) (number : kind = .number) : pattern = .number := by
  subst number
  cases pattern with
  | number => rfl
  | string | punctuator p => cases names
  | word => rcases names.word_cases with other | ⟨k, other⟩ <;> cases other

/-- The three things that can stand where a token starts, and what is made of each. -/
theorem Cursor.take_cases (c : Cursor) {first : UInt8} {rest : Bytes}
    (shape : c.rest = first :: rest) :
    (∃ pattern lexeme kind, LongestMatch pattern lexeme c.rest ∧ pattern.Names lexeme kind ∧
      c.take = (⟨kind, lexeme, (c.advance lexeme.length).line, c.offset⟩,
        c.advance lexeme.length)) ∨
    (Lexed.unexpected.Agrees first rest ∧
      c.take = (⟨.error, Lexed.unexpectedMessage, c.line, c.offset⟩, c.advance 1)) ∨
    (Lexed.unterminated.Agrees first rest ∧
      c.take = (⟨.error, Lexed.unterminatedMessage, c.line, c.offset⟩,
        c.advance c.rest.length)) := by
  obtain ⟨bytes, offset, line⟩ := c
  obtain rfl : bytes = first :: rest := shape
  have agrees := lex_agrees first rest
  unfold take
  cases found : lex first rest with
  | token kind length =>
    rw [found] at agrees
    obtain ⟨pattern, lexeme, longest, names, rfl⟩ := agrees
    refine .inl ⟨pattern, lexeme, kind, longest, names, ?_⟩
    simp only [found, ← List.prefix_iff_eq_take.mp longest.here]
  | unexpected => exact .inr (.inl ⟨found ▸ agrees, by simp only [found]⟩)
  | unterminated => exact .inr (.inr ⟨found ▸ agrees, by simp only [found]⟩)

/-- A token that is neither an error nor the end is the longest lexeme where it starts. -/
theorem Cursor.next_lexeme {c : Cursor} (sound : c.next.1.kind ≠ .error)
    (more : c.next.1.kind ≠ .endOfInput) :
    ∃ pattern, LongestMatch pattern c.next.1.lexeme c.settle.rest ∧
      pattern.Names c.next.1.lexeme c.next.1.kind := by
  rw [next] at sound more ⊢
  generalize c.settle = d at sound more ⊢
  cases shape : d.rest with
  | nil => simp [take, shape] at more
  | cons first rest =>
    rcases d.take_cases shape with
      ⟨pattern, w, kind, longest, names, taken⟩ | ⟨-, taken⟩ | ⟨-, taken⟩
    · rw [taken]
      exact ⟨pattern, shape ▸ longest, names⟩
    · rw [taken] at sound
      exact absurd rfl sound
    · rw [taken] at sound
      exact absurd rfl sound

/-- Where a token starts, with layout passed over, the next token is the longest lexeme of the
grammar. It is an error exactly if there is no lexeme: the rest of the source is a string that is
not closed, or the byte starts no lexeme at all. The reserved kinds are those whose names are
reserved words. -/
theorem next_longest_match (c : Cursor) :
    let s := c.settle.rest
    let t := c.next.1
    (∃ gap, c.rest = gap ++ s ∧ Layout s gap) ∧ ¬ StartsLayout s ∧ t.offset = c.settle.offset ∧
    (match s with
      | [] => t.kind = .endOfInput
      | first :: rest =>
        (t.kind ≠ .error →
          ∃ pattern : Pattern, LongestMatch pattern t.lexeme s ∧ pattern.Names t.lexeme t.kind) ∧
        (t.kind = .error ↔ ∀ (pattern : Pattern) (w : Bytes), pattern.Matches w → ¬ w <+: s) ∧
        (t.kind = .error →
          t.lexeme = text "Unterminated string" ∨ t.lexeme = text "Unexpected character") ∧
        (t.kind = .error ∧ t.lexeme = text "Unterminated string" ↔
          first = 0x22 ∧ 0x22 ∉ rest) ∧
        (t.kind = .error ∧ t.lexeme = text "Unexpected character" ↔
          ∀ (pattern : Pattern) (w : Bytes), ¬ pattern.Matches (first :: w))) ∧
    Keyword.all.length = 16 ∧
    ∀ kind : Kind, kind.isKeyword = true ↔ kind.name ∈ Keyword.all.map Keyword.spelling := by
  dsimp only
  obtain ⟨gap, split, -, layout, stopped⟩ := c.settle_layout
  have apart : text "Unterminated string" ≠ text "Unexpected character" := by decide
  have quoted : Pattern.string.Matches (0x22 :: ([] ++ [0x22])) := .string (by simp)
  rw [Cursor.next]
  generalize c.settle = d at split layout stopped
  refine ⟨⟨gap, split, layout⟩, stopped, ?_, ?_, rfl, Kind.isKeyword_iff_name⟩
  · cases shape : d.rest with
    | nil => simp [Cursor.take, shape]
    | cons first rest =>
      rcases d.take_cases shape with ⟨_, _, _, -, -, taken⟩ | ⟨-, taken⟩ | ⟨-, taken⟩ <;> rw [taken]
  cases shape : d.rest with
  | nil => simp [Cursor.take, shape]
  | cons first rest =>
    dsimp only
    rcases d.take_cases shape with ⟨pattern, lexeme, kind, longest, names, taken⟩ |
      ⟨agrees, taken⟩ | ⟨agrees, taken⟩
    · -- There is a lexeme.
      rw [shape] at longest
      have noError := names.ne_marker.1
      rw [taken]
      refine ⟨fun _ => ⟨pattern, longest, names⟩, ?_, fun error => absurd error noError, ?_, ?_⟩
      · refine ⟨fun error => absurd error noError, fun none => ?_⟩
        exact absurd longest.here (none pattern lexeme longest.matched)
      · refine ⟨fun error => absurd error.1 noError, ?_⟩
        rintro ⟨rfl, open_⟩
        exact absurd longest.here (no_match_unclosed open_ pattern lexeme longest.matched)
      · refine ⟨fun error => absurd error.1 noError, fun none => ?_⟩
        obtain ⟨b, w, rfl, -⟩ := longest.matched.cons
        obtain ⟨rfl, -⟩ := List.cons_prefix_cons.mp longest.here
        exact absurd longest.matched (none pattern w)
    · -- The byte starts no lexeme.
      rw [taken]
      have none := agrees.no_match (by simp)
      refine ⟨fun noError => absurd rfl noError, ⟨fun _ => none, fun _ => rfl⟩,
        fun _ => .inr rfl, ⟨fun error => absurd error.2.symm apart, ?_⟩,
        ⟨fun _ => agrees, fun _ => ⟨rfl, rfl⟩⟩⟩
      rintro ⟨rfl, -⟩
      exact absurd quoted (agrees .string _)
    · -- The string is not closed.
      rw [taken]
      have none := agrees.no_match (by simp)
      obtain ⟨rfl, open_⟩ := agrees
      refine ⟨fun noError => absurd rfl noError, ⟨fun _ => none, fun _ => rfl⟩,
        fun _ => .inl rfl, ⟨fun _ => ⟨rfl, open_⟩, fun _ => ⟨rfl, rfl⟩⟩,
        ⟨fun error => absurd error.2 apart, fun never => ?_⟩⟩
      exact absurd quoted (never .string _)

end Abacus
