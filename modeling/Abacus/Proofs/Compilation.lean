import Abacus.Compiler.Compile
import Abacus.Proofs.ParserDescent
import Abacus.Proofs.TokenSpans

/-!
# What compiling accepts and emits

A source compiles exactly if its tokens hold no error, those before the end are a sentence of the
grammar, and there are no more numbers among them than the pool has room for. Its code is then the
post-order of the syntax tree and a return.
-/
namespace Abacus

open Grammar

theorem compile_eq_ok_iff (source : Bytes) (c : Chunk) :
    compile source = .ok c ↔
      (Parser.run (tokenize source)).failure = none ∧ (Parser.run (tokenize source)).chunk = c := by
  unfold compile
  dsimp only
  split
  next e failed => simp [failed]
  next sound => simp [sound]

theorem scanned_tokenize (source : Bytes) : Parser.Scanned (tokenize source) where
  shape := tokenize_shape source
  numerals := (tokenize_scans source).forall_mem (fun _ _ => Cursor.isNumeral_next)
    (Cursor.within_start source)

/-- A sentence compiles into the code of its tree if the pool has room for its numbers. -/
theorem compile_of_derives (source : Bytes) (body : List Token) (ending : Token) (tree : Tree)
    (shape : tokenize source = body ++ [ending]) (kind : ending.kind = .endOfInput)
    (clean : ∀ t ∈ tokenize source, t.isError = false) (derives : Derives .sum body tree)
    (fits : tree.literals.length ≤ Chunk.maxConstants) :
    compile source = .ok ((tree.emit .empty).write (.simple .ret) ending.line) := by
  have read := descent_of_derives derives kind fits
  rw [← shape, ← Parser.sound_of_clean clean] at read
  have finished := (Parser.run_follows (scanned_tokenize source)).of_clean clean
  rw [read] at finished
  obtain ⟨fine, last, final, written⟩ := finished
  obtain rfl : ending = last := by simpa [shape] using final
  exact (compile_eq_ok_iff source _).mpr ⟨fine, written⟩

/-- What compiles is a sentence without errors whose numbers fit into the pool. -/
theorem derives_of_compile (source : Bytes) (body : List Token) (ending : Token) (c : Chunk)
    (shape : tokenize source = body ++ [ending]) (kind : ending.kind = .endOfInput)
    (compiled : compile source = .ok c) :
    (∀ t ∈ tokenize source, t.isError = false) ∧
      ∃ tree, Derives .sum body tree ∧ tree.literals.length ≤ Chunk.maxConstants := by
  obtain ⟨fine, -⟩ := (compile_eq_ok_iff source c).mp compiled
  have scanned := scanned_tokenize source
  obtain ⟨noError, finished⟩ := (Parser.run_follows scanned).of_fine fine
  cases read : descent (Parser.sound (tokenize source)) with
  | error obstacle =>
    -- Then the parser has failed as well.
    rw [read] at finished
    obtain ⟨_, _, -, failed⟩ := finished
    rw [failed] at fine
    cases fine
  | ok reading =>
    obtain ⟨used, last, split, kindLast, derives, fits⟩ := descent_sound read
    obtain ⟨front, final, ends, -, -, earlier⟩ := scanned.sound_shape
    obtain ⟨rfl, rfl, nothing⟩ := end_is_last earlier (ends ▸ split) kindLast
    -- Descent has used all sound tokens, so the parser has seen all tokens.
    have clean : ∀ t ∈ tokenize source, t.isError = false := by
      have sound : ending.isError = false := by simp [Token.isError, kind]
      have none := Parser.errorBefore_eq_find? body [] sound
      rw [read, Parser.unseen, nothing, shape] at noError
      rw [shape]
      intro t member
      rcases List.mem_append.mp member with old | new
      · simpa using List.find?_eq_none.mp (none.symm.trans noError) t old
      · rw [List.mem_singleton.mp new]
        exact sound
    refine ⟨clean, reading.tree, ?_, fits⟩
    rw [Parser.sound_of_clean clean, shape] at ends
    obtain ⟨rfl, -⟩ := List.append_inj' ends rfl
    exact derives

theorem emitted_contents (tree : Tree) (ending : Token) :
    let c := (tree.emit .empty).write (.simple .ret) ending.line
    c.code.toList = instructions 0 tree.postorder ++ [.simple .ret] ∧
    c.constants.toList = tree.literals.map literalValue ∧
    c.lines.toList =
      (tree.postorder.map fun node => (node.token.line : Int)) ++ [(ending.line : Int)] := by
  refine ⟨?_, ?_, ?_⟩
  · simp [Chunk.write, tree.emit_code, Chunk.empty]
  · simp [Chunk.write, tree.emit_constants, Chunk.empty]
  · simp [Chunk.write, tree.emit_lines, Chunk.empty]

theorem isError_eq_false_iff (t : Token) : t.isError = false ↔ t.kind ≠ .error := by
  simp [Token.isError]

/-- Tokens that the scan of a source gives are its tokens. -/
theorem compile_of_scans {source : Bytes} {body : List Token} {ending : Token} {tree : Tree}
    (scans : Cursor.Scans (Cursor.start source) (body ++ [ending]))
    (kind : ending.kind = .endOfInput) (clean : ∀ t ∈ body, t.kind ≠ .error)
    (derives : Derives .sum body tree) (fits : tree.literals.length ≤ Chunk.maxConstants) :
    compile source = .ok ((tree.emit .empty).write (.simple .ret) ending.line) := by
  have shape : tokenize source = body ++ [ending] := scans.unique (tokenize_scans source)
  refine compile_of_derives source body ending tree shape kind ?_ derives fits
  intro t member
  rw [isError_eq_false_iff]
  rw [shape, List.mem_append, List.mem_singleton] at member
  rcases member with inside | rfl
  · exact clean t inside
  · simp [kind]

/-- Compiling accepts the sentences of the grammar with at most 256 numbers, and emits the
post-order of their trees: the constants are numbered in the order of the source, and the pool holds
the value of each number at its place. -/
theorem compile_sentences (source : Bytes) :
    ∃ body ending, tokenize source = body ++ [ending] ∧ ending.kind = .endOfInput ∧
      (∀ t ∈ body, t.kind ≠ .endOfInput) ∧
      ((∃ c, compile source = .ok c) ↔
        (∀ t ∈ tokenize source, t.kind ≠ .error) ∧ (∃ tree, Derives .sum body tree) ∧
          (numbers (tokenize source)).length ≤ 256) ∧
      ∀ c, compile source = .ok c →
        ∃ tree, Derives .sum body tree ∧ (∀ other, Derives .sum body other → other = tree) ∧
          c.code.toList = instructions 0 tree.postorder ++ [.simple .ret] ∧
          (tree.postorder.filter (·.opcode == .constant)).map Node.token =
            numbers (tokenize source) ∧
          c.constants.toList = (numbers (tokenize source)).map literalValue ∧
          c.lines.toList =
            (tree.postorder.map fun node => (node.token.line : Int)) ++ [(ending.line : Int)] := by
  obtain ⟨body, ending, shape, kind, others⟩ := tokenize_shape source
  -- The end is no number, so all numbers are among the tokens of the sentence.
  have count (tree : Tree) (derives : Derives .sum body tree) :
      numbers (tokenize source) = tree.literals := by
    rw [shape, numbers_append, derives.numbers_eq, numbers_cons_of_ne _ _ (by simp [kind])]
    simp [numbers]
  refine ⟨body, ending, shape, kind, others, ⟨?_, ?_⟩, ?_⟩
  · rintro ⟨c, compiled⟩
    obtain ⟨clean, tree, derives, fits⟩ :=
      derives_of_compile source body ending c shape kind compiled
    exact ⟨fun t member => (isError_eq_false_iff t).mp (clean t member), ⟨tree, derives⟩,
      count tree derives ▸ fits⟩
  · rintro ⟨clean, ⟨tree, derives⟩, fits⟩
    rw [count tree derives] at fits
    exact ⟨_, compile_of_derives source body ending tree shape kind
      (fun t member => (isError_eq_false_iff t).mpr (clean t member)) derives fits⟩
  · intro c compiled
    obtain ⟨clean, tree, derives, fits⟩ :=
      derives_of_compile source body ending c shape kind compiled
    have emitted := compile_of_derives source body ending tree shape kind clean derives fits
    obtain rfl := Except.ok.inj (compiled.symm.trans emitted)
    obtain ⟨code, constants, lines⟩ := emitted_contents tree ending
    exact ⟨tree, derives, fun other second => second.unique derives, code,
      by rw [tree.postorder_constants, count tree derives], by rw [constants, count tree derives],
      lines⟩

end Abacus
