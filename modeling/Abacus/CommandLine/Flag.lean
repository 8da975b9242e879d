import Abacus.CommandLine.Integer
import Abacus.Text.Quoted

/-!
# Flags

A flag is given by its name after two dashes or by its letter after one; letters may be combined.
A value follows after an equals sign or, for flags that need one, as the rest of the letters or as
the next argument. Two dashes alone end the flags, and all other arguments are kept in order.
-/
namespace Abacus.CommandLine

inductive Flag
  | config | verbose | format | output | help | version
  deriving DecidableEq, Repr

inductive FlagError
  | malformed (argument : Bytes)
  | unknownName (name : Bytes)
  /-- The letter comes first, the letters combined with it follow. -/
  | unknownLetter (letter : UInt8) (others : Bytes)
  | valueMissing (name : Bytes)
  | letterValueMissing (letter : UInt8) (others : Bytes)
  | badValue (flag : Flag) (value : Bytes) (cause : Bytes)
  deriving DecidableEq, Repr

namespace Flag

def name : Flag → Bytes
  | config => text "config"
  | verbose => text "verbose"
  | format => text "format"
  | output => text "output"
  | help => text "help"
  | version => text "version"

def letter? : Flag → Option UInt8
  | verbose => some (byte 'v')
  | format => some (byte 'f')
  | output => some (byte 'o')
  | help => some (byte 'h')
  | config | version => none

/-- The value of a flag that is given without one; none if it needs one. -/
def impliedValue? : Flag → Option Bytes
  | verbose => some (text "+1")
  | help | version => some (text "true")
  | config | format | output => none

/-- Both ways to give a flag. -/
def spelling (f : Flag) : Bytes :=
  (match f.letter? with
    | some letter => text "-" ++ [letter] ++ text ", "
    | none => []) ++ text "--" ++ f.name

end Flag

/-- The character that stands for a letter in a message: the first byte of its UTF-8 form. -/
def letterShown (letter : UInt8) : Bytes :=
  Text.quoteCharacter (((Utf8.encode letter.toNat).headD letter).toNat)

def FlagError.message : FlagError → Bytes
  | malformed argument => text "bad flag syntax: " ++ argument
  | unknownName name => text "unknown flag: --" ++ name
  | unknownLetter letter others =>
    text "unknown shorthand flag: " ++ letterShown letter ++ text " in -"
      ++ letter :: others
  | valueMissing name => text "flag needs an argument: --" ++ name
  | letterValueMissing letter others =>
    text "flag needs an argument: " ++ letterShown letter ++ text " in -"
      ++ letter :: others
  | badValue flag value cause =>
    text "invalid argument " ++ Text.quote value ++ text " for " ++ Text.quote flag.spelling
      ++ text " flag: " ++ cause

structure Settings where
  config : Bytes := []
  verbose : Int := 0
  format : Bytes := text "text"
  output : Bytes := []
  help : Bool := false
  version : Bool := false
  deriving DecidableEq, Repr

def truths : List String := ["1", "t", "T", "true", "TRUE", "True"]

def falsehoods : List String := ["0", "f", "F", "false", "FALSE", "False"]

def truth? (s : Bytes) : Option Bool :=
  if truths.any fun w => text w == s then some true
  else if falsehoods.any fun w => text w == s then some false
  else none

/-- The reader that refused a value, the value, and what is wrong with it. -/
def refusal (reader : String) (value fault : Bytes) : Bytes :=
  text "strconv." ++ text reader ++ text ": parsing " ++ Text.quote value ++ text ": " ++ fault

namespace Settings

def set (s : Settings) (f : Flag) (value : Bytes) : Except FlagError Settings :=
  let switch (g : Bool → Settings) : Except FlagError Settings :=
    match truth? value with
    | some b => .ok (g b)
    | none =>
      .error (.badValue f value (refusal "ParseBool" value IntegerFault.malformed.message))
  match f with
  | .config => .ok { s with config := value }
  | .format => .ok { s with format := value }
  | .output => .ok { s with output := value }
  | .help => switch fun b => { s with help := b }
  | .version => switch fun b => { s with version := b }
  | .verbose =>
    -- The implied value counts up; any other is the count itself.
    if value = text "+1" then .ok { s with verbose := wrapSigned (s.verbose + 1) }
    else
      match integer value with
      | .ok n => .ok { s with verbose := n }
      | .error e => .error (.badValue f value (refusal "ParseInt" value e.message))

end Settings

/-- The flag with a letter, among those that a command has. -/
def withLetter? (flags : List Flag) (letter : UInt8) : Option Flag :=
  flags.find? (·.letter? == some letter)

def named? (flags : List Flag) (name : Bytes) : Option Flag := flags.find? (·.name == name)

/-- Letters that begin so are addressed to a test runner and set nothing. -/
def testLetters : Bytes := text "test."

/-- Reads combined letters. The flag of the last one may take the next argument as its value; the
result says whether it did. -/
def readLetters (flags : List Flag) (next : Option Bytes) (s : Settings) :
    Bytes → Except FlagError (Settings × Bool)
  | [] => .ok (s, false)
  | letter :: others =>
    if testLetters.isPrefixOf (letter :: others) then .ok (s, false)
    else match withLetter? flags letter with
    | none => .error (.unknownLetter letter others)
    | some f =>
      -- An equals sign may stand before a value that is not empty.
      if others.head? = some 0x3d ∧ 1 < others.length then do
        pure (← s.set f (others.drop 1), false)
      else
        match f.impliedValue? with
        | some value =>
          match s.set f value with
          | .ok s => readLetters flags next s others
          | .error e => .error e
        | none =>
          -- A value follows its letter at once or is the next argument.
          if others ≠ [] then do pure (← s.set f others, false)
          else
            match next with
            | some value => do pure (← s.set f value, true)
            | none => .error (.letterValueMissing letter others)

/-- Reads a flag given by name, the dashes removed. -/
def readName (flags : List Flag) (next : Option Bytes) (s : Settings) (argument : Bytes) :
    Except FlagError (Settings × Bool) :=
  if argument = [] ∨ argument.head? = some 0x2d ∨ argument.head? = some 0x3d then
    .error (.malformed (text "--" ++ argument))
  else
    let (name, value) := Bytes.cut 0x3d argument
    match named? flags name with
    | none => .error (.unknownName name)
    | some f =>
      if argument.contains 0x3d then do pure (← s.set f value, false)
      else
        match f.impliedValue?, next with
        | some value, _ => do pure (← s.set f value, false)
        | none, some value => do pure (← s.set f value, true)
        | none, none => .error (.valueMissing name)

/-- Reads all arguments: the settings, and the arguments that are not flags. With `skip` the first
argument was the value of a flag. -/
def readArguments (flags : List Flag) :
    Bool → Settings → List Bytes → Except FlagError (Settings × List Bytes)
  | _, s, [] => .ok (s, [])
  | true, s, _ :: rest => readArguments flags false s rest
  | false, s, argument :: rest =>
    match argument with
    | 0x2d :: 0x2d :: name =>
      -- Behind two dashes alone there are no flags.
      if name = [] then .ok (s, rest)
      else
        match readName flags rest.head? s name with
        | .error e => .error e
        | .ok (s, used) => readArguments flags used s rest
    | 0x2d :: letter :: others =>
      match readLetters flags rest.head? s (letter :: others) with
      | .error e => .error e
      | .ok (s, used) => readArguments flags used s rest
    | _ =>
      match readArguments flags false s rest with
      | .error e => .error e
      | .ok (s, arguments) => .ok (s, argument :: arguments)

end Abacus.CommandLine
