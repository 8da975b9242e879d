/-!
# 64-bit integers

Integers of the settings, the command line and the artifacts are kept as plain integers and checked
against the range of signed 64-bit words, or brought into it where sums may leave it.
-/
namespace Abacus

def wordCount : Nat := 0x10000000000000000

/-- The signed words reach from minus this number to one below it. -/
def signedLimit : Nat := 0x8000000000000000

def isSignedWord (n : Int) : Bool := -(signedLimit : Int) ≤ n && n < signedLimit

/-- The signed word that differs from a number by a multiple of the number of words. -/
def wrapSigned (n : Int) : Int := Int.bmod n wordCount

end Abacus
