import Abacus.Input
import Abacus.Proofs.TextLines

/-!
# Lines do not depend on the buffer

A text can leave its buffer in many ways (`Input.CutInto`). Whichever it is, the lines put together
from the fragments are the lines of the text: each of them if it is not too long, and what follows
the last line break if that is not empty.

The state of an open line is a function of the bytes that it has seen (`OpenLine.ofBytes`), and
every fragment takes the state of the bytes before it to that of the bytes with it. So one induction
over the fragments gives all lines at once (`Input.CutInto.yields`).
-/
namespace Abacus

namespace Input

def bounded (limit : Nat) (line : Bytes) : InputLine :=
  if limit < line.length then .tooLong else .line line

/-- What follows the last line break. It has no line break to leave room for, so it may be one byte
longer than other lines. -/
def lastLine (rest : Bytes) : List InputLine :=
  if rest = [] then [] else [bounded (longestLine + 1) rest]

/-- The fragments in which an input may come out of a buffer: one after the other, each of them up
to the first line break, to a full buffer or to the end. -/
inductive CutInto : Input → List Fragment → Prop
  | lineBreak {part rest : Bytes} {failure : Option Bytes} {fragments : List Fragment} :
      newline ∉ part → CutInto ⟨rest, failure⟩ fragments →
      CutInto ⟨part ++ newline :: rest, failure⟩ (⟨part ++ [newline], .lineBreak⟩ :: fragments)
  | bufferFull {part rest : Bytes} {failure : Option Bytes} {fragments : List Fragment} :
      newline ∉ part → CutInto ⟨rest, failure⟩ fragments →
      CutInto ⟨part ++ rest, failure⟩ (⟨part, .bufferFull⟩ :: fragments)
  | last {part : Bytes} {failure : Option Bytes} :
      newline ∉ part → CutInto ⟨part, failure⟩ [⟨part, ending ⟨part, failure⟩⟩]

theorem cut_append (size : Nat) (failure : Option Bytes) (s held : Bytes) (room : Nat)
    (before : List Fragment) (free : newline ∉ held) :
    ∃ fragments, cut size (ending ⟨s, failure⟩) s held room before = before.reverse ++ fragments ∧
      CutInto ⟨held.reverse ++ s, failure⟩ fragments := by
  -- The buffer holds what has come since the last fragment, without a line break.
  induction s generalizing held room before with
  | nil =>
    have whole : newline ∉ held.reverse := by simpa using free
    refine ⟨[⟨held.reverse, ending ⟨[], failure⟩⟩], by simp [cut], ?_⟩
    rw [List.append_nil]
    exact .last whole
  | cons b rest ih =>
    have parts : held.reverse ++ b :: rest = (b :: held).reverse ++ rest := by simp
    rw [cut]
    by_cases lineBreak : b = newline
    · subst lineBreak
      obtain ⟨fragments, cuts, later⟩ :=
        ih [] size (⟨(newline :: held).reverse, .lineBreak⟩ :: before) List.not_mem_nil
      refine ⟨⟨held.reverse ++ [newline], .lineBreak⟩ :: fragments, ?_, ?_⟩
      · simp only [beq_self_eq_true, if_true]
        exact cuts.trans (by simp)
      · exact .lineBreak (by simpa using free) later
    · have more : newline ∉ b :: held :=
        List.not_mem_cons_of_ne_of_not_mem (Ne.symm lineBreak) free
      rw [if_neg (by simpa using lineBreak), parts]
      split
      · obtain ⟨fragments, cuts, later⟩ :=
          ih [] size (⟨(b :: held).reverse, .bufferFull⟩ :: before) List.not_mem_nil
        refine ⟨⟨(b :: held).reverse, .bufferFull⟩ :: fragments, cuts.trans (by simp), ?_⟩
        exact .bufferFull (fun member => more (List.mem_reverse.mp member)) later
      · exact ih (b :: held) (room - 1) before more

/-- A buffer of any size cuts the input in one of these ways. -/
theorem cutInto_cut (size : Nat) (i : Input) :
    i.CutInto (cut size i.ending i.content [] size []) := by
  obtain ⟨fragments, cuts, parts⟩ :=
    cut_append size i.failure i.content [] size [] List.not_mem_nil
  change cut size i.ending i.content [] size [] = _ at cuts
  rw [cuts]
  exact parts

theorem cutInto_fragments (i : Input) : i.CutInto i.fragments := cutInto_cut bufferSize i

end Input

/-! ## Open lines -/

namespace OpenLine

def ofBytes (s : Bytes) : OpenLine :=
  if Input.longestLine + 1 < s.length then ⟨[], s.length, true⟩ else ⟨s.reverse, s.length, false⟩

theorem add_ofBytes (s part : Bytes) : (ofBytes s).add part = ofBytes (s ++ part) := by
  by_cases before : Input.longestLine + 1 < s.length
  · -- What is too long stays so.
    have after : Input.longestLine + 1 < s.length + part.length := by omega
    simp [ofBytes, add, before, after]
  · by_cases after : Input.longestLine + 1 < s.length + part.length
    · simp [ofBytes, add, before, after]
    · simp [ofBytes, add, before, after]

theorem close_lineBreak (line : Bytes) :
    (ofBytes (line ++ [newline])).close = Input.bounded Input.longestLine line := by
  by_cases long : Input.longestLine < line.length
  · have longer : Input.longestLine + 1 < (line ++ [newline]).length := by simpa using long
    rw [ofBytes, if_pos longer, close, Input.bounded, if_pos long]
    rfl
  · have fits : ¬ Input.longestLine + 1 < (line ++ [newline]).length := by simpa using long
    rw [ofBytes, if_neg fits, close, Input.bounded, if_neg long]
    simp

theorem close_open {line : Bytes} (free : newline ∉ line) :
    (ofBytes line).close = Input.bounded (Input.longestLine + 1) line := by
  by_cases long : Input.longestLine + 1 < line.length
  · rw [ofBytes, if_pos long, close, Input.bounded, if_pos long]
    rfl
  · rw [ofBytes, if_neg long, close, Input.bounded, if_neg long]
    -- The last byte is no line break, so nothing is removed.
    rcases List.eq_nil_or_concat line with rfl | ⟨others, b, rfl⟩
    · rfl
    · have other : b ≠ newline := by
        rintro rfl
        exact free (by simp)
      simp [other]

theorem closeAtEnd_empty : (ofBytes []).closeAtEnd = .inputEnd := rfl

theorem closeAtEnd_open {line : Bytes} (free : newline ∉ line) (occupied : line ≠ []) :
    (ofBytes line).closeAtEnd = .line (Input.bounded (Input.longestLine + 1) line) := by
  have size : (ofBytes line).size = line.length := by
    unfold ofBytes
    split <;> rfl
  rw [closeAtEnd, if_neg (by simpa [size] using occupied), close_open free]

end OpenLine

/-! ## Reading line after line -/

namespace Input

/-- Going on with a line and then reading more gives these lines, and then no line any more. -/
inductive Yields : OpenLine → List Fragment → List InputLine → LineReading → Prop
  | stop {l : OpenLine} {fragments : List Fragment} {last : LineReading} :
      continueLine l fragments = (last, []) → (∀ line, last ≠ .line line) →
      Yields l fragments [] last
  | line {l : OpenLine} {fragments rest : List Fragment} {line : InputLine}
      {lines : List InputLine} {last : LineReading} :
      continueLine l fragments = (.line line, rest) → Yields .start rest lines last →
      Yields l fragments (line :: lines) last

/-- What comes after the lines of an input. -/
def lastReading (i : Input) : LineReading :=
  match i.failure with
  | some e => .failure e
  | none => .inputEnd

/-- The lines that can be read from an input that splits so. -/
def linesOf (failure : Option Bytes) (terminated : List Bytes) (rest : Bytes) : List InputLine :=
  terminated.map (bounded longestLine) ++ if failure.isSome then [] else lastLine rest

theorem yields_nothing : Yields .start [] [] .inputEnd :=
  .stop rfl (by simp)

theorem Yields.bufferFull {l : OpenLine} {part : Bytes} {fragments : List Fragment}
    {lines : List InputLine} {last : LineReading} (yields : Yields (l.add part) fragments lines last) :
    Yields l (⟨part, .bufferFull⟩ :: fragments) lines last := by
  cases yields with
  | stop read none => exact .stop read none
  | line read later => exact .line read later

theorem yields_last {part : Bytes} (failure : Option Bytes) (before : Bytes)
    (free : newline ∉ before ++ part) :
    Yields (.ofBytes before) [⟨part, ending ⟨part, failure⟩⟩]
      (linesOf failure [] (before ++ part)) (lastReading ⟨part, failure⟩) := by
  cases failure with
  | some e => exact .stop rfl (by simp [lastReading])
  | none =>
    have added := OpenLine.add_ofBytes before part
    by_cases empty : before ++ part = []
    · rw [empty] at added ⊢
      refine .stop ?_ (by simp [lastReading])
      simp only [continueLine, ending, added, OpenLine.closeAtEnd_empty, lastReading]
    · have line : linesOf none [] (before ++ part) =
          [bounded (longestLine + 1) (before ++ part)] := by
        simp only [linesOf, lastLine, empty, if_false]
        rfl
      rw [line]
      refine .line ?_ yields_nothing
      simp only [continueLine, ending, added, OpenLine.closeAtEnd_open free empty]

/-- Whatever the fragments, the lines are those of the text. -/
theorem CutInto.yields {i : Input} {fragments : List Fragment} (cut : i.CutInto fragments)
    (before : Bytes) (free : newline ∉ before) :
    ∃ terminated rest, Splits (before ++ i.content) terminated rest ∧
      Yields (.ofBytes before) fragments (linesOf i.failure terminated rest) i.lastReading := by
  -- `before` is what the fragments since the last line break have brought.
  induction cut generalizing before with
  | @lineBreak part text failure fragments none _ ih =>
    obtain ⟨terminated, rest, splits, yields⟩ := ih [] List.not_mem_nil
    have line : newline ∉ before ++ part := List.not_mem_append free none
    refine ⟨(before ++ part) :: terminated, rest, ?_, ?_⟩
    · rw [← List.append_assoc]
      exact splits.cons line
    · refine .line ?_ yields
      simp only [continueLine, OpenLine.add_ofBytes, ← List.append_assoc,
        OpenLine.close_lineBreak]
  | @bufferFull part text failure fragments none _ ih =>
    have line : newline ∉ before ++ part := List.not_mem_append free none
    obtain ⟨terminated, rest, splits, yields⟩ := ih (before ++ part) line
    refine ⟨terminated, rest, by simpa using splits, ?_⟩
    rw [← OpenLine.add_ofBytes] at yields
    exact yields.bufferFull
  | @last part failure none =>
    have line : newline ∉ before ++ part := List.not_mem_append free none
    exact ⟨[], before ++ part, .last line, yields_last failure before line⟩

/-- What the call number `n` gives, when a line is asked for again and again. -/
def readingAt : Nat → List Fragment → LineReading
  | 0, fragments => (readLine fragments).1
  | n + 1, fragments => readingAt n (readLine fragments).2

theorem readingAt_nil (n : Nat) : readingAt n [] = .inputEnd := by
  induction n with
  | zero => rfl
  | succ n ih => exact ih

theorem Yields.readingAt {fragments : List Fragment} {lines : List InputLine}
    (yields : Yields .start fragments lines .inputEnd) (n : Nat) :
    readingAt n fragments = ((lines.map .line)[n]?).getD .inputEnd := by
  generalize start : OpenLine.start = l at yields
  generalize ended : LineReading.inputEnd = last at yields
  induction yields generalizing n with
  | @stop l fragments last read none =>
    subst start ended
    cases n with
    | zero => simp [Input.readingAt, readLine, read]
    | succ n =>
      rw [Input.readingAt, readLine, read]
      exact readingAt_nil n
  | @line l fragments rest line lines last read _ ih =>
    subst start ended
    cases n with
    | zero => simp [Input.readingAt, readLine, read]
    | succ n =>
      rw [Input.readingAt, readLine, read, ih n rfl rfl]
      simp

end Input

namespace Input

theorem lastLine_eq (rest : Bytes) :
    lastLine rest =
      if rest = [] then []
      else if rest.length = 1048577 then [.line rest]
      else [bounded 1048576 rest] := by
  unfold lastLine bounded longestLine
  split
  · rfl
  · split
    next long => rw [if_neg (by omega), if_pos (by omega)]
    next short =>
      split
      · rfl
      · rw [if_neg (by omega)]

theorem CutInto.readingAt {s rest : Bytes} {terminated : List Bytes} {fragments : List Fragment}
    (cut : CutInto ⟨s, none⟩ fragments) (splits : Splits s terminated rest) (n : Nat) :
    Input.readingAt n fragments =
      (((terminated.map (bounded longestLine) ++ lastLine rest).map .line)[n]?).getD .inputEnd := by
  obtain ⟨terminated', rest', splits', yields⟩ := cut.yields [] List.not_mem_nil
  obtain ⟨rfl, rfl⟩ := splits.unique splits'
  exact yields.readingAt n

end Input

/-- Asked for again and again, the lines of a text come in order and then its end, however the text
is cut into fragments. A line of more than 1048576 bytes is replaced by the word that it is too
long, and the lines after it are as they are; only what follows the last line break is still a line
with one byte more. -/
theorem readLine_successive (s : Bytes) :
    ∃ terminated rest, Splits s terminated rest ∧
      Input.CutInto ⟨s, none⟩ (Input.fragments ⟨s, none⟩) ∧
      ∀ fragments, Input.CutInto ⟨s, none⟩ fragments → ∀ n,
        Input.readingAt n fragments =
          (((terminated.map (Input.bounded 1048576) ++
            if rest = [] then []
            else if rest.length = 1048577 then [.line rest]
            else [Input.bounded 1048576 rest]).map .line)[n]?).getD .inputEnd := by
  have own := Input.cutInto_fragments ⟨s, none⟩
  obtain ⟨terminated, rest, splits, -⟩ := own.yields [] List.not_mem_nil
  refine ⟨terminated, rest, splits, own, ?_⟩
  intro fragments cut n
  rw [← Input.lastLine_eq]
  exact cut.readingAt splits n

/-- Two lines, one of them blank, and a last one without a line break, from a buffer of two
bytes. -/
theorem readLine_successive_small :
    let fragments : List Fragment :=
      [⟨text "1+", .bufferFull⟩, ⟨text "2\n", .lineBreak⟩, ⟨text "\n", .lineBreak⟩,
        ⟨text "34", .bufferFull⟩, ⟨[], .inputEnd⟩]
    Input.CutInto ⟨text "1+2\n\n34", none⟩ fragments ∧
      Input.readingAt 0 fragments = .line (.line (text "1+2")) ∧
      Input.readingAt 1 fragments = .line (.line []) ∧
      Input.readingAt 2 fragments = .line (.line (text "34")) ∧
      Input.readingAt 3 fragments = .inputEnd := by
  intro fragments
  have cut : Input.CutInto ⟨text "1+2\n\n34", none⟩ fragments :=
    (by decide : Input.cut 2 .inputEnd (text "1+2\n\n34") [] 2 [] = fragments) ▸
      Input.cutInto_cut 2 ⟨text "1+2\n\n34", none⟩
  obtain ⟨terminated, rest, splits, -, readings⟩ := readLine_successive (text "1+2\n\n34")
  have lines : Splits (text "1+2\n\n34") [text "1+2", []] (text "34") :=
    ⟨by decide, by decide, by decide⟩
  obtain ⟨rfl, rfl⟩ := lines.unique splits
  have reading := readings fragments cut
  refine ⟨cut, ?_, ?_, ?_, ?_⟩
  · exact (reading 0).trans (by decide)
  · exact (reading 1).trans (by decide)
  · exact (reading 2).trans (by decide)
  · exact (reading 3).trans (by decide)

/-- A last line of 1048577 bytes is given as a line, although the same bytes with a line break
behind them are too long. -/
theorem readLine_overlong_last :
    let s := List.replicate 1048577 (byte ' ')
    1048576 < s.length ∧
      Input.readingAt 0 (Input.fragments ⟨s, none⟩) = .line (.line s) ∧
      Input.readingAt 0 (Input.fragments ⟨s ++ [newline], none⟩) = .line .tooLong := by
  intro s
  have size : s.length = 1048577 := List.length_replicate
  have free : newline ∉ s := by
    intro member
    exact absurd (List.eq_of_mem_replicate member) (by decide)
  refine ⟨by omega, ?_, ?_⟩
  · have occupied : s ≠ [] := List.ne_nil_of_length_pos (by omega)
    have line : Input.lastLine s = [.line s] := by
      rw [Input.lastLine_eq, if_neg occupied, if_pos size]
    rw [(Input.cutInto_fragments ⟨s, none⟩).readingAt (.last free), line]
    rfl
  · have long : Input.bounded Input.longestLine s = .tooLong := by
      rw [Input.bounded, if_pos (by simp only [Input.longestLine]; omega)]
    have splits := (Splits.last List.not_mem_nil).cons free
    rw [(Input.cutInto_fragments ⟨s ++ [newline], none⟩).readingAt splits, List.map_singleton, long]
    rfl

end Abacus
