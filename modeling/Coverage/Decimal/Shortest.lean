import Coverage.Decimal.Binary64

/-!
# The fewest digits that read back

A number of the binary format is written with as few decimal digits as determine it: the written
decimal is nearer to it than to any other number of the format, or as near and rounded to it.
Among decimals of that many digits the nearest to the number is taken.
-/

namespace Coverage

/-- The positive decimal `digits · 10 ^ exponent`. -/
structure DecimalDigits where
  digits : Nat
  exponent : Int
deriving DecidableEq, Repr

namespace DecimalDigits

/-- The decimal as a quotient. -/
def ratio (d : DecimalDigits) : Nat × Nat :=
  (d.digits * Nat.pow 10 d.exponent.toNat, Nat.pow 10 (-d.exponent).toNat)

/-- The number of the binary format that a decimal reads back as. -/
def toBinary64 (negative : Bool) (d : DecimalDigits) : Binary64 :=
  let (num, den) := d.ratio
  .ofRatio negative num den

/-- The decimal digits of a number. -/
def places (n : Nat) : Nat :=
  (Nat.toDigits 10 n).length

/-- The exponent of ten of the leading digit of `num / den`. -/
def leadingExponent (num den : Nat) : Int :=
  let exponent := (places num : Int) - places den
  if den * Nat.pow 10 exponent.toNat ≤ num * Nat.pow 10 (-exponent).toNat then exponent else exponent - 1

/-- The decimal of so many digits that reads back as `x` and is nearest to it, if there is one. -/
def ofDigits? (x : Binary64) (count : Nat) : Option DecimalDigits :=
  let (num, den) := x.ratio
  let exponent := leadingExponent num den - (count - 1)
  let a := num * Nat.pow 10 (-exponent).toNat
  let b := den * Nat.pow 10 exponent.toNat
  let nearest := roundHalfEven a b
  let candidates : List DecimalDigits :=
    [⟨nearest, exponent⟩, ⟨2 * (a / b) + 1 - nearest, exponent⟩]
  candidates.find? fun d => d.toBinary64 x.negative = x

/-- The shortest decimal that reads back as `x`; seventeen digits always suffice. -/
def shortest (x : Binary64) : DecimalDigits :=
  ((List.range 17).findSome? fun count => ofDigits? x (count + 1)).getD ⟨0, 0⟩

end DecimalDigits

end Coverage
