/-!
# Binary fractions of 53 digits

Percentages are computed in the binary format of 64 bits: a sign, 53 binary digits and an
exponent.  Every operation gives its exact result, rounded to the nearest number of the format; of
two equally near ones the one with an even last digit is taken.  All of it is arithmetic on
natural numbers.
-/

namespace Coverage

/-- The natural number nearest to `num / den`; of two equally near ones the even one. -/
def roundHalfEven (num den : Nat) : Nat :=
  let quotient := num / den
  let twice := 2 * (num % den)
  if twice < den then quotient
  else if den < twice then quotient + 1
  else quotient + quotient % 2

/-- The number `mantissa · 2 ^ exponent` with a sign, which zero has too.  A mantissa of fewer than
53 digits comes with the least exponent, and the exponent 972 stands for what is too large for the
format. -/
structure Binary64 where
  negative : Bool := false
  mantissa : Nat
  exponent : Int
deriving DecidableEq, Repr

namespace Binary64

/-- The least exponent. -/
def leastExponent : Int := -1074

/-- The least mantissa of the numbers that use all digits: two to the power of 52. -/
def leastMantissa : Nat := 0x10000000000000

/-- Zero. -/
def zero : Binary64 where
  mantissa := 0
  exponent := leastExponent

/-- What is too large for the format. -/
def overflow (negative : Bool) : Binary64 where
  negative
  mantissa := leastMantissa
  exponent := 972

/-! ## Rounding -/

/-- The quotient `num / (den · 2 ^ exponent)` as a pair of natural numbers. -/
def scaleDown (num den : Nat) (exponent : Int) : Nat × Nat :=
  (num * Nat.pow 2 (-exponent).toNat, den * Nat.pow 2 exponent.toNat)

/-- The exponent at which `num / den` has 53 digits before the point, or the least one. -/
def exponentOf (num den : Nat) : Int :=
  let exponent := max leastExponent ((num.log2 : Int) - den.log2 - 53)
  let (a, b) := scaleDown num den exponent
  if a < 2 * leastMantissa * b then exponent else exponent + 1

/-- The number nearest to `num / den`, for a positive `den`. -/
def ofRatio (negative : Bool) (num den : Nat) : Binary64 :=
  if num = 0 then { zero with negative }
  else
    let exponent := exponentOf num den
    let (a, b) := scaleDown num den exponent
    let mantissa := roundHalfEven a b
    let (mantissa, exponent) :=
      if mantissa = 2 * leastMantissa then (leastMantissa, exponent + 1) else (mantissa, exponent)
    if 971 < exponent then overflow negative else { negative, mantissa, exponent }

/-- The number nearest to the quotient of two integers, of which the second is not zero. -/
def ofQuotient (num den : Int) : Binary64 :=
  ofRatio (decide (num < 0) != decide (den < 0)) num.natAbs den.natAbs

/-- The number nearest to an integer. -/
def ofInt (n : Int) : Binary64 :=
  ofQuotient n 1

/-! ## Exact values -/

/-- The absolute value as a quotient. -/
def ratio (x : Binary64) : Nat × Nat :=
  (x.mantissa * Nat.pow 2 x.exponent.toNat, Nat.pow 2 (-x.exponent).toNat)

/-- Whether an integer is at most the number. -/
def isAtLeast (x : Binary64) (n : Int) : Bool :=
  let (num, den) := x.ratio
  n * den ≤ if x.negative then -(num : Int) else num

/-- The integer nearest to a number; of two equally near ones the even one. -/
def round (x : Binary64) : Int :=
  let (num, den) := x.ratio
  let nearest := roundHalfEven num den
  if x.negative then -(nearest : Int) else nearest

/-- The number of tenths nearest to the absolute value; of two equally near ones the even one. -/
def tenths (x : Binary64) : Nat :=
  let (num, den) := x.ratio
  roundHalfEven (10 * num) den

/-- The number rounded to one decimal place. -/
def roundTenths (x : Binary64) : Binary64 :=
  ofRatio x.negative x.tenths 10

/-! ## Operations -/

/-- The product of two numbers. -/
def mul (x y : Binary64) : Binary64 :=
  let (a, b) := x.ratio
  let (c, d) := y.ratio
  ofRatio (x.negative != y.negative) (a * c) (b * d)

/-- The quotient of a number and a positive one. -/
def divNat (x : Binary64) (n : Nat) : Binary64 :=
  let (num, den) := x.ratio
  ofRatio x.negative num (den * n)

instance : Mul Binary64 where
  mul := mul

/-- The 64 bits of a number: the sign, eleven digits for the exponent, and the mantissa without
its leading digit. -/
def toBits (x : Binary64) : Nat :=
  let magnitude :=
    if x.mantissa < leastMantissa then x.mantissa
    else (x.exponent - leastExponent).toNat * leastMantissa + x.mantissa
  if x.negative then 0x8000000000000000 + magnitude else magnitude

end Binary64

end Coverage
