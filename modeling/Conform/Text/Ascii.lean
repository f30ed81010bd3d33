/-!
# Bytes as text

Bytes stand for the characters of ASCII. Blanks and letters are those of ASCII alone, and a byte beyond
is no character.
-/

namespace Conform.Text

def isAsciiBlank (b : UInt8) : Bool := b == 32 || (9 ≤ b && b ≤ 13)

def isAsciiUpper (b : UInt8) : Bool := 65 ≤ b && b ≤ 90

def isAsciiLower (b : UInt8) : Bool := 97 ≤ b && b ≤ 122

/-- Whether there are no blanks at either end. -/
def isTrimmed (bytes : List UInt8) : Bool :=
  !((bytes.head?.map isAsciiBlank).getD false || (bytes.getLast?.map isAsciiBlank).getD false)

/-- The characters of bytes, if all of them are ASCII. -/
def asciiChars? (bytes : List UInt8) : Option (List Char) :=
  if bytes.all (· < 128) then some (bytes.map fun b => Char.ofNat b.toNat) else none

end Conform.Text
