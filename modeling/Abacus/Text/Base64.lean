import Abacus.Text.Bytes

/-!
# Base 64

Three bytes are written as four of sixty-four letters; what is missing from the last three is
filled up with equals signs.
-/
namespace Abacus.Text

/-- The letter of a number below 64. -/
def base64Letter (n : Nat) : UInt8 :=
  if n < 26 then UInt8.ofNat (0x41 + n)
  else if n < 52 then UInt8.ofNat (0x61 + (n - 26))
  else if n < 62 then UInt8.ofNat (0x30 + (n - 52))
  else if n = 62 then 0x2b
  else 0x2f

/-- The letters of a number of 24 bits. -/
def base64Group (n : Nat) : Bytes :=
  [n / 262144 % 64, n / 4096 % 64, n / 64 % 64, n % 64].map base64Letter

def base64 : Bytes → Bytes
  | [] => []
  | [a] => (base64Group (a.toNat * 65536)).take 2 ++ Bytes.fill 2 0x3d
  | [a, b] => (base64Group (a.toNat * 65536 + b.toNat * 256)).take 3 ++ Bytes.fill 1 0x3d
  | a :: b :: c :: rest =>
    base64Group (a.toNat * 65536 + b.toNat * 256 + c.toNat) ++ base64 rest

end Abacus.Text
