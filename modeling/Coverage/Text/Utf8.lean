/-!
# UTF-8

Text is stored as UTF-8.  Writing is the usual table of one to four bytes.  Reading never fails:
every maximal ill-formed part of the bytes becomes one replacement character, where a part is
maximal when it is either a single byte that begins no character, or the longest stretch that
begins some character.  A reader that goes byte by byte meets the end of such a part at the first
byte that cannot continue the character it has begun, and takes that byte afresh.
-/

namespace Coverage.Utf8

/-- The character that stands for an ill-formed part. -/
def replacement : Char := '\uFFFD'

/-! ## Writing -/

/-- The bytes of one character. -/
def encodeChar (c : Char) : List UInt8 :=
  let n := c.toNat
  if n < 0x80 then [.ofNat n]
  else if n < 0x800 then [.ofNat (0xC0 + n / 0x40), .ofNat (0x80 + n % 0x40)]
  else if n < 0x10000 then
    [.ofNat (0xE0 + n / 0x1000), .ofNat (0x80 + n / 0x40 % 0x40), .ofNat (0x80 + n % 0x40)]
  else
    [.ofNat (0xF0 + n / 0x40000), .ofNat (0x80 + n / 0x1000 % 0x40),
      .ofNat (0x80 + n / 0x40 % 0x40), .ofNat (0x80 + n % 0x40)]

/-- The bytes of a text. -/
def encode (text : List Char) : List UInt8 :=
  text.flatMap encodeChar

/-! ## Reading -/

/-- A character that has begun: the bits read so far, the number of bytes after the next one, and
the bounds of the next one.  The bounds rule out overlong forms, surrogates and numbers beyond the
last code point. -/
structure Begun where
  bits : Nat
  further : Nat
  low : Nat := 0x80
  high : Nat := 0xBF
deriving DecidableEq

/-- What a byte means where no character has begun. -/
inductive Lead where
  | whole (c : Char)
  | opens (begun : Begun)
  | illFormed

/-- The meaning of a byte between characters. -/
def lead (b : Nat) : Lead :=
  if b < 0x80 then .whole (Char.ofNat b)
  else if b < 0xC2 then .illFormed
  else if b < 0xE0 then .opens { bits := b - 0xC0, further := 0 }
  else if b < 0xF0 then
    .opens
      { bits := b - 0xE0
        further := 1
        low := if b = 0xE0 then 0xA0 else 0x80
        high := if b = 0xED then 0x9F else 0xBF }
  else if b < 0xF5 then
    .opens
      { bits := b - 0xF0
        further := 2
        low := if b = 0xF0 then 0x90 else 0x80
        high := if b = 0xF4 then 0x8F else 0xBF }
  else .illFormed

/-- The characters that a byte completes where none has begun, and the one that it begins. -/
def start (b : Nat) : List Char × Option Begun :=
  match lead b with
  | .whole c => ([c], none)
  | .opens begun => ([], some begun)
  | .illFormed => ([replacement], none)

/-- The characters that a byte completes, and the one that is begun after it. -/
def advance : Option Begun → Nat → List Char × Option Begun
  | none, b => start b
  | some begun, b =>
    if begun.low ≤ b ∧ b ≤ begun.high then
      let bits := begun.bits * 0x40 + (b - 0x80)
      match begun.further with
      | 0 => ([Char.ofNat bits], none)
      | further + 1 => ([], some { bits, further })
    else
      let (completed, next) := start b
      (replacement :: completed, next)

/-- Reads on after a character may have begun; one that the bytes do not finish is ill-formed. -/
def decodeFrom : Option Begun → List UInt8 → List Char
  | none, [] => []
  | some _, [] => [replacement]
  | begun, b :: rest =>
    let (completed, next) := advance begun b.toNat
    completed ++ decodeFrom next rest

/-- The text that some bytes hold. -/
def decode (bytes : List UInt8) : List Char :=
  decodeFrom none bytes

end Coverage.Utf8
