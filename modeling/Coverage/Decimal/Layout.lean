import Coverage.Decimal.Shortest

/-!
# Written decimals

How the digits of a number are laid out: positionally while the leading digit is not too far from
the point, and with an exponent beyond that.
-/

namespace Coverage

/-- The decisions of a number format. -/
structure DecimalLayout where
  /-- The least exponent of the leading digit that is written positionally. -/
  positionalFrom : Int
  /-- The least exponent of the leading digit above those that are written positionally. -/
  positionalBelow : Int
  /-- The least number of digits of a written exponent. -/
  exponentPlaces : Nat

namespace DecimalLayout

/-- Numbers have a decimal point from a ten-thousandth up to sixteen places before the point. -/
def standard : DecimalLayout where
  positionalFrom := -4
  positionalBelow := 16
  exponentPlaces := 2

/-- The digits `digits` with the point after the digit of exponent zero, where the leading digit
has the exponent `lead`. -/
def positional (digits : List Char) (lead : Int) : List Char :=
  if lead < 0 then '0' :: '.' :: (List.replicate (-lead - 1).toNat '0' ++ digits)
  else
    let whole := lead.toNat + 1
    let filled := digits ++ List.replicate (whole - digits.length) '0'
    let fraction := filled.drop whole
    filled.take whole ++ '.' :: (if fraction.isEmpty then ['0'] else fraction)

/-- The digits with the point after the first one, and the exponent. -/
def scientific (layout : DecimalLayout) (digits : List Char) (lead : Int) : List Char :=
  let exponent := Nat.toDigits 10 lead.natAbs
  let fraction := digits.drop 1
  digits.take 1 ++ (if fraction.isEmpty then [] else '.' :: fraction) ++
    ['e', if lead < 0 then '-' else '+'] ++
    List.replicate (layout.exponentPlaces - exponent.length) '0' ++ exponent

/-- The written form of a number: the fewest digits that read back, in the given layout. -/
def write (layout : DecimalLayout) (x : Binary64) : String :=
  let unsigned :=
    if x.mantissa = 0 then ['0', '.', '0']
    else
      let d := DecimalDigits.shortest x
      let all := Nat.toDigits 10 d.digits
      let lead := d.exponent + (all.length - 1 : Nat)
      let digits := (all.reverse.dropWhile (· = '0')).reverse
      if layout.positionalFrom ≤ lead && lead < layout.positionalBelow then positional digits lead
      else layout.scientific digits lead
  String.ofList (if x.negative then '-' :: unsigned else unsigned)

end DecimalLayout

namespace Binary64

/-- A number in decimal with exactly one place after the point. -/
def fixedTenths (x : Binary64) : String :=
  let t := x.tenths
  let unsigned := Nat.toDigits 10 (t / 10) ++ '.' :: Nat.toDigits 10 (t % 10)
  String.ofList (if x.negative then '-' :: unsigned else unsigned)

end Binary64

end Coverage
