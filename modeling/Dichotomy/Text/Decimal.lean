/-!
# Shortest decimals

Among all decimals that read back as a given binary floating-point number, the text of the number
is the one with the fewest digits, and of those the nearest.

A positive number is `significand * 2 ^ exponent`.  The decimals that read back as it fill an
interval around it: half the distance to each neighbour, ends included when the significand is
even.  For one, two, three, … digits the two decimals next to the number are tried against that
interval in exact arithmetic, and the first hit wins.  Seventeen digits always suffice.

Decimals between `10 ^ -4` and `10 ^ 16` are written positionally and keep at least one digit
after the point; all others are written with an exponent of at least two digits.
-/

namespace Dichotomy

/-- A decimal `digits * 10 ^ exponent`. -/
structure Decimal where
  /-- The digits as one number. -/
  digits : Nat
  /-- The power of ten. -/
  exponent : Int

/-- A positive binary number with the interval of reals that read back as it; all numerators are
    over the same denominator. -/
structure Rounding where
  /-- The numerator of the number itself. -/
  value : Nat
  /-- The numerator of the lower end. -/
  low : Nat
  /-- The numerator of the upper end. -/
  high : Nat
  /-- The common denominator. -/
  den : Nat
  /-- Whether the ends belong to the interval. -/
  closed : Bool

namespace Rounding

/-- The interval of `significand * 2 ^ exponent`; `lowest` says that the neighbour below is only
    half as far away as the one above. -/
def of (significand : Nat) (exponent : Int) (lowest : Bool) : Rounding :=
  let up := Nat.pow 2 (exponent - 2).toNat
  { value := 4 * significand * up
    low := (4 * significand - if lowest then 1 else 2) * up
    high := (4 * significand + 2) * up
    den := Nat.pow 2 (2 - exponent).toNat
    closed := significand % 2 = 0 }

/-- The exponent of the leading decimal digit of the number. -/
def leading (r : Rounding) : Int :=
  if r.den ≤ r.value then ((Nat.toDigits 10 (r.value / r.den)).length : Int) - 1
  else
    match (List.range 400).find? fun j => r.den ≤ r.value * Nat.pow 10 j with
    | some j => -(j : Int)
    | none => -400

/-- Whether `n * 10 ^ exponent` lies in the interval. -/
def admits (r : Rounding) (n : Nat) (exponent : Int) : Bool :=
  let point := n * Nat.pow 10 exponent.toNat * r.den
  let low := r.low * Nat.pow 10 (-exponent).toNat
  let high := r.high * Nat.pow 10 (-exponent).toNat
  if r.closed then low ≤ point && point ≤ high else low < point && point < high

/-- The multiple of `10 ^ exponent` nearest to the number among those in the interval. -/
def nearest? (r : Rounding) (exponent : Int) : Option Nat :=
  let unit := Nat.pow 10 exponent.toNat * r.den
  let value := r.value * Nat.pow 10 (-exponent).toNat
  let below := value / unit
  match r.admits below exponent, r.admits (below + 1) exponent with
  | true, false => some below
  | false, true => some (below + 1)
  | false, false => none
  | true, true =>
    if 2 * value < (2 * below + 1) * unit then some below
    else if (2 * below + 1) * unit < 2 * value then some (below + 1)
    else some (below + below % 2)

/-- The decimal with the fewest digits in the interval. -/
def shortest (r : Rounding) : Decimal :=
  let top := r.leading
  let tried := (List.range 18).findSome? fun (places : Nat) =>
    (r.nearest? (top - places)).map fun n => Decimal.mk n (top - places)
  tried.getD ⟨0, 0⟩

end Rounding

namespace Decimal

/-- The digits of a decimal without closing zeros, and the place of the point counted from their
    front. -/
def layout (d : Decimal) : List Char × Int :=
  let digits := Nat.toDigits 10 d.digits
  let short := (digits.reverse.dropWhile (· = '0')).reverse
  (short, digits.length + d.exponent)

/-- The text of a positive decimal. -/
def text (d : Decimal) : String :=
  let (digits, point) := d.layout
  if -4 < point && point ≤ 16 then
    if point ≤ 0 then
      "0." ++ String.ofList (List.replicate (-point).toNat '0' ++ digits)
    else
      let whole := digits.take point.toNat
      let fraction := digits.drop point.toNat
      let filled := whole ++ List.replicate (point.toNat - whole.length) '0'
      String.ofList (filled ++ '.' :: if fraction.isEmpty then ['0'] else fraction)
  else
    let exponent := point - 1
    let size := toString exponent.natAbs
    let sign := if exponent < 0 then "-" else "+"
    let fraction := digits.drop 1
    String.ofList (digits.take 1 ++ if fraction.isEmpty then [] else '.' :: fraction) ++
      "e" ++ sign ++ (if size.length < 2 then "0" ++ size else size)

end Decimal

/-- The least significand of a double-precision number of full precision, two to the power 52. -/
def leastSignificand : Nat := 4503599627370496

/-- The text of a double-precision number: a sign bit, eleven bits for the exponent and 52 bits
    for the fraction. -/
def floatText (x : Float) : String :=
  let bits : Nat := x.toBits.toNat
  let sign := if bits / leastSignificand / 2048 = 1 then "-" else ""
  let biased : Nat := bits / leastSignificand % 2048
  let fraction : Nat := bits % leastSignificand
  if biased = 2047 then
    if fraction = 0 then sign ++ "inf" else "nan"
  else if biased = 0 then
    if fraction = 0 then sign ++ "0.0"
    else sign ++ (Rounding.of fraction (-1074) false).shortest.text
  else
    let lowest := fraction = 0 && 1 < biased
    let r := Rounding.of (leastSignificand + fraction) ((biased : Int) - 1075) lowest
    sign ++ r.shortest.text

end Dichotomy
