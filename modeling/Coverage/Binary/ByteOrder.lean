/-!
# Byte orders

A word is four bytes.  Which end comes first is a matter of the byte order; everything else about
words is arithmetic on natural numbers.
-/

namespace Coverage

/-- The raw content of a file. -/
abbrev Bytes := List UInt8

/-- Whether the most or the least significant byte of a word comes first. -/
inductive ByteOrder where
  | big
  | little
deriving DecidableEq, Repr

/-- The number of values of a word. -/
def wordRange : Nat := 0x100000000

/-- The bytes in a word. -/
def wordSize : Nat := 4

namespace ByteOrder

/-- The number that bytes stand for when the least significant one comes first. -/
def littleToNat : Bytes → Nat
  | [] => 0
  | b :: rest => b.toNat + 256 * littleToNat rest

/-- The number that bytes stand for. -/
def toNat : ByteOrder → Bytes → Nat
  | .little, bytes => littleToNat bytes
  | .big, bytes => littleToNat bytes.reverse

/-- The four bytes of a number, least significant first; what exceeds a word is dropped. -/
def littleWord (n : Nat) : Bytes :=
  [.ofNat n, .ofNat (n / 0x100), .ofNat (n / 0x10000), .ofNat (n / 0x1000000)]

/-- The four bytes of a number. -/
def word : ByteOrder → Nat → Bytes
  | .little, n => littleWord n
  | .big, n => (littleWord n).reverse

end ByteOrder

/-- The word whose bytes are those of `n` in the opposite order. -/
def byteSwap (n : Nat) : Nat :=
  ByteOrder.little.toNat (ByteOrder.big.word n)

end Coverage
