import Coverage.Binary.ByteOrder
import Coverage.Text.Utf8

/-!
# Reading from a buffer

A `Cursor` stands at an offset of a buffer and reads words, counters and texts from there on.  A
read that would run past the end takes nothing and stops with `EndOfInput`; what was read before
it stays read, so the second word of a counter may be missing after the first was taken.
-/

namespace Coverage

universe u

/-- A position in a buffer: the bytes from there on, the offset, and the byte order of words. -/
structure Cursor where
  rest : Bytes
  offset : Nat := 0
  order : ByteOrder := .big
deriving DecidableEq

/-- A read of `size` bytes at `offset` that the buffer is too short for. -/
structure EndOfInput where
  size : Nat
  offset : Nat
deriving DecidableEq

namespace EndOfInput

/-- The wording of a failed read. -/
def message (e : EndOfInput) : String :=
  s!"read of {e.size} bytes at offset {e.offset} runs past end of buffer"

end EndOfInput

/-- A reading action: it moves a cursor, and may meet the end of the buffer. -/
abbrev Read (α : Type) := EStateM EndOfInput Cursor α

/-- The first `n` elements and the others, if there are as many. -/
def splitExact? {α : Type u} : Nat → List α → Option (List α × List α)
  | 0, rest => some ([], rest)
  | _ + 1, [] => none
  | n + 1, a :: rest => (splitExact? n rest).map fun (taken, left) => (a :: taken, left)

namespace Cursor

/-- The start of a buffer. -/
def ofBytes (bytes : Bytes) : Cursor where
  rest := bytes

/-- Takes `size` bytes, or none at all. -/
def take (size : Nat) : Read Bytes := fun c =>
  match splitExact? size c.rest with
  | some (taken, rest) => .ok taken { c with rest, offset := c.offset + size }
  | none => .error { size, offset := c.offset } c

/-- The next word. -/
def word : Read Nat := do
  let bytes ← take wordSize
  let cursor ← get
  return cursor.order.toNat bytes

/-- The next counter: two words, the low one first in either byte order. -/
def counter : Read Nat := do
  let low ← word
  let high ← word
  return low + wordRange * high

/-- What a stored text stands for: the padding at its end is dropped. -/
def textOf (raw : Bytes) : String :=
  String.ofList (Utf8.decode (raw.reverse.dropWhile (· = 0)).reverse)

/-- The next text: its length in words, then so many words. -/
def string : Read String := do
  let length ← word
  let raw ← take (length * wordSize)
  return textOf raw

/-- Skips `count` words; a count below one skips none. -/
def skipWords (count : Int) : Read Unit := do
  let _ ← take (count.toNat * wordSize)

/-- Skips to an offset; one that lies behind leaves the cursor where it is. -/
def skipTo (offset : Int) : Read Unit := do
  let cursor ← get
  let _ ← take (offset - cursor.offset).toNat

/-- Reads the words from here on in the given order. -/
def setOrder (order : ByteOrder) : Read Unit :=
  modify fun c => { c with order }

end Cursor

end Coverage
