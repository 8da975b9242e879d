import Abacus.CommandLine.Flag
import Abacus.Text.Caseless

/-!
# Invocations of the tool

The first argument that is neither a flag nor the value of one names the command. At that point
only the flags with a meaning of their own are known: anything else that looks like a flag is taken
to have a value. Then the flags of the command are read, wherever they stand, and what is left is
counted.
-/
namespace Abacus.CommandLine

inductive Command
  | tokens | disasm | build | exec | lsp | help | completion
  deriving DecidableEq, Repr

inductive Request
  /-- A description of the tool or of a command. -/
  | help (command : Option Command)
  | version
  | run (command : Command) (settings : Settings) (arguments : List Bytes)
  deriving DecidableEq, Repr

inductive UsageError
  | unknownCommand (name : Bytes) (suggestions : List Command)
  | flag (e : FlagError)
  | tooMany (limit received : Nat)
  | wrongCount (expected received : Nat)
  | noArguments (command : Command) (first : Bytes)
  deriving DecidableEq, Repr

def programName : Bytes := text "diablotool"

namespace Command

def all : List Command := [tokens, disasm, build, exec, lsp, help, completion]

def name : Command → Bytes
  | tokens => text "tokens"
  | disasm => text "disasm"
  | build => text "build"
  | exec => text "exec"
  | lsp => text "lsp"
  | help => text "help"
  | completion => text "completion"

/-- The flags that a command has of its own, and those that all commands share. -/
def flags : Command → List Flag
  | tokens => [.format, .config, .verbose, .help]
  | build => [.output, .config, .verbose, .help]
  | disasm | exec | lsp | help | completion => [.config, .verbose, .help]

def ofName? (s : Bytes) : Option Command := all.find? (·.name == s)

/-- The commands that a misspelt name may have meant. Asking for help is not one of them. -/
def candidates : List Command := [tokens, disasm, build, exec, lsp, completion]

end Command

/-! ## Suggestions -/

/-- One row of the table of edit distances: to each beginning of `t`, from a beginning of the other
text that ends in `b`. `diagonal` and `left` are the entries above left and to the left. -/
def editRow (b : UInt8) (diagonal left : Nat) : Bytes → List Nat → List Nat
  | c :: t, above :: others =>
    let entry := min (min (above + 1) (left + 1)) (diagonal + if b == c then 0 else 1)
    entry :: editRow b above entry t others
  | _, _ => []

/-- All rows in turn, from the one before the first byte of `s`. -/
def editRows (t : Bytes) (row : List Nat) : Bytes → List Nat
  | [] => row
  | b :: s =>
    match row with
    | [] => []
    | first :: others => editRows t ((first + 1) :: editRow b first (first + 1) t others) s

/-- The least number of bytes inserted, removed or replaced to make one text the other. -/
def editDistance (s t : Bytes) : Nat :=
  (editRows t (List.range (t.length + 1)) s).getLastD 0

/-- Names at most this far away are suggested. -/
def nearDistance : Nat := 2

/-- The commands that a word is the beginning of or nearly spells. -/
def suggestions (word : Bytes) : List Command :=
  let word := Text.toSmall word
  Command.candidates.filter fun c => editDistance word c.name ≤ nearDistance || word.isPrefixOf c.name

/-! ## Finding the command -/

/-- The flags that are known before the command is. -/
def globalFlags : List Flag := [.config, .verbose]

/-- An argument that looks like a flag and, as far as is known, takes the next one as its value. -/
def takesNext (argument : Bytes) : Bool :=
  let needsValue (f : Option Flag) : Bool := (f.bind Flag.impliedValue?).isNone
  match argument with
  | 0x2d :: 0x2d :: name => !name.contains 0x3d && needsValue (named? globalFlags name)
  | [0x2d, letter] => letter != 0x3d && needsValue (withLetter? globalFlags letter)
  | _ => false

def looksLikeFlag (argument : Bytes) : Bool := argument.head? == some 0x2d

def endOfFlags : Bytes := text "--"

/-- The first argument that can name a command. A flag whose value is the last argument ends the
search. -/
def commandWord? : Bool → List Bytes → Option Bytes
  | _, [] => none
  | true, _ :: rest => commandWord? false rest
  | false, argument :: rest =>
    if argument = endOfFlags then none
    else if takesNext argument then
      if rest.length ≤ 1 then none else commandWord? true rest
    else if argument = [] ∨ looksLikeFlag argument then commandWord? false rest
    else some argument

/-- The arguments without the word that named the command. -/
def withoutWord (word : Bytes) : Bool → List Bytes → List Bytes
  | _, [] => []
  | true, argument :: rest => argument :: withoutWord word false rest
  | false, argument :: rest =>
    if argument = endOfFlags then argument :: rest
    else if takesNext argument then argument :: withoutWord word true rest
    else if argument = word ∧ ¬ looksLikeFlag argument then rest
    else argument :: withoutWord word false rest

/-! ## Requests -/

def checkCount (c : Command) (arguments : List Bytes) : Except UsageError Unit :=
  match c with
  | .tokens | .disasm | .build =>
    if 1 < arguments.length then .error (.tooMany 1 arguments.length) else .ok ()
  | .exec => if arguments.length ≠ 1 then .error (.wrongCount 1 arguments.length) else .ok ()
  | .lsp =>
    match arguments with
    | [] => .ok ()
    | first :: _ => .error (.noArguments .lsp first)
  | .help | .completion => .ok ()

/-- What arguments without a command ask for. -/
def rootRequest (arguments : List Bytes) : Except UsageError Request :=
  match readArguments [.config, .verbose, .help, .version] false {} arguments with
  | .error e => .error (.flag e)
  | .ok (s, _) => .ok (if s.version && !s.help then .version else .help none)

def commandRequest (c : Command) (arguments : List Bytes) : Except UsageError Request :=
  match readArguments c.flags false {} arguments with
  | .error e => .error (.flag e)
  | .ok (s, rest) =>
    if s.help || c = .help || c = .completion then .ok (.help (some c))
    else
      match checkCount c rest with
      | .error e => .error e
      | .ok _ => .ok (.run c s rest)

def request (arguments : List Bytes) : Except UsageError Request :=
  match commandWord? false arguments with
  | none => rootRequest arguments
  | some word =>
    match Command.ofName? word with
    | none => .error (.unknownCommand word (suggestions word))
    | some c => commandRequest c (withoutWord word false arguments)

namespace UsageError

def suggestionText (commands : List Command) : Bytes :=
  if commands = [] then []
  else text "\n\nDid you mean this?\n" ++ commands.flatMap fun c => text "\t" ++ c.name ++ text "\n"

def message : UsageError → Bytes
  | unknownCommand name suggestions =>
    text "unknown command " ++ Text.quote name ++ text " for " ++ Text.quote programName
      ++ suggestionText suggestions
  | flag e => e.message
  | tooMany limit received =>
    text "accepts at most " ++ decimal limit ++ text " arg(s), received " ++ decimal received
  | wrongCount expected received =>
    text "accepts " ++ decimal expected ++ text " arg(s), received " ++ decimal received
  | noArguments command first =>
    text "unknown command " ++ Text.quote first ++ text " for "
      ++ Text.quote (programName ++ text " " ++ command.name)

end UsageError

end Abacus.CommandLine
