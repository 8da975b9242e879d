import Abacus.Json.Value
import Abacus.Text.Utf8

/-!
# Writing JSON

Values are written without blanks. In strings, quotes, backslashes and control characters are
escaped, and bytes that are no text are written as the replacement character.
-/
namespace Abacus.Json

def escaped : Utf8.Piece → Bytes
  | .stray _ => Utf8.encode 0xfffd
  | .scalar code =>
    if code = 0x22 ∨ code = 0x5c then [0x5c, UInt8.ofNat code]
    else if code < 0x20 then text "\\u" ++ hexadecimal 4 code
    else Utf8.encode code

def quoted (s : Bytes) : Bytes := [0x22] ++ (Utf8.pieces s).flatMap escaped ++ [0x22]

mutual
def write : JsonValue → Bytes
  | .null => text "null"
  | .bool true => text "true"
  | .bool false => text "false"
  | .integer n => signedDecimal n
  | .decimal spelling => spelling
  | .string s => quoted s
  | .array items => [0x5b] ++ writeItems items ++ [0x5d]
  | .object members => [0x7b] ++ writeMembers members ++ [0x7d]

def writeItems : List JsonValue → Bytes
  | [] => []
  | [item] => write item
  | item :: next :: rest => write item ++ [0x2c] ++ writeItems (next :: rest)

def writeMembers : List (Bytes × JsonValue) → Bytes
  | [] => []
  | [(name, value)] => quoted name ++ [0x3a] ++ write value
  | (name, value) :: next :: rest =>
    quoted name ++ [0x3a] ++ write value ++ [0x2c] ++ writeMembers (next :: rest)
end

end Abacus.Json
