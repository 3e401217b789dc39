import Coverage.Binary.ByteOrder
import Coverage.Text.Utf8

/-!
# Writing a buffer

The written forms of words, counters, texts and records.  Each is a function from a value to
bytes; a longer buffer is their concatenation.
-/

namespace Coverage.Writer

/-- A number as a word, modulo the range of words. -/
def word (order : ByteOrder) (n : Int) : Bytes :=
  order.word (n % wordRange).toNat

/-- A number as a counter of two words, the low one first in either byte order. -/
def counter (order : ByteOrder) (n : Int) : Bytes :=
  word order n ++ word order (n / wordRange)

/-- A text: its length in words, then its UTF-8 form, which at least one zero byte fills up to
whole words.  The empty text is the length zero alone. -/
def string (order : ByteOrder) (text : String) : Bytes :=
  if text.isEmpty then word order 0
  else
    let raw := Utf8.encode text.toList
    let words := raw.length / wordSize + 1
    word order words ++ raw ++ List.replicate (words * wordSize - raw.length) 0

/-- A record: its tag, the length of its payload in words, and the payload. -/
def record (order : ByteOrder) (tag : Nat) (payload : Bytes) : Bytes :=
  word order tag ++ word order (payload.length / wordSize : Nat) ++ payload

end Coverage.Writer
