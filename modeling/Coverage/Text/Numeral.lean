/-!
# Numerals

The written forms of numbers: decimal, hexadecimal, and decimal with a comma between groups of
three digits.
-/

namespace Coverage.Text

/-- The digit of value `d` below sixteen, in lower case. -/
def hexDigit (d : Nat) : Char :=
  if d < 10 then Char.ofNat (48 + d) else Char.ofNat (87 + d)

/-- The lowest `width` hexadecimal digits of a number. -/
def hexPadded : Nat → Nat → List Char
  | 0, _ => []
  | width + 1, n => hexPadded width (n / 16) ++ [hexDigit (n % 16)]

/-- A number in hexadecimal, without leading zeros. -/
def hex (n : Nat) : String :=
  String.ofList (Nat.toDigits 16 n)

/-- A number in hexadecimal, with leading zeros up to eight digits. -/
def hexWord (n : Nat) : String :=
  String.ofList (if n < 0x100000000 then hexPadded 8 n else Nat.toDigits 16 n)

/-- Puts a comma in front of every group of three that has something before it; the text comes
with its end first. -/
def groupReversed : List Char → List Char
  | a :: b :: c :: d :: rest => a :: b :: c :: ',' :: groupReversed (d :: rest)
  | short => short

/-- A number in decimal, with commas between groups of three digits. -/
def grouped (n : Int) : String :=
  let digits := (groupReversed (Nat.toDigits 10 n.natAbs).reverse).reverse
  String.ofList (if n < 0 then '-' :: digits else digits)

end Coverage.Text
