import Typings.Number.Binary

/-!
# Shortest decimal text

A double is written with the fewest decimal digits that are read back as the same
double, and of those digits the ones nearest to it.  The point stands where it
belongs; there is never an exponent, and a whole number has no point.
-/

namespace Typings
namespace Number

/-- The decimal number `digits * 10 ^ exponent`. -/
structure Decimal where
  digits : Nat
  exponent : Int
  deriving DecidableEq, Repr, Inhabited

namespace Decimal

def quotient (d : Decimal) : Nat × Nat :=
  if d.exponent < 0 then (d.digits, Nat.pow 10 (-d.exponent).toNat)
  else (d.digits * Nat.pow 10 d.exponent.toNat, 1)

def toDouble (d : Decimal) : Double :=
  Double.round d.quotient.1 d.quotient.2

/-- A decimal number without zeros at the end of its digits. -/
def stripZeros : Nat → Decimal → Decimal
  | 0, d => d
  | fuel + 1, d =>
      if d.digits != 0 && d.digits % 10 == 0 then stripZeros fuel ⟨d.digits / 10, d.exponent + 1⟩
      else d

def text (d : Decimal) : List Char :=
  let digits := Nat.toDigits 10 d.digits
  if 0 ≤ d.exponent then
    if d.digits == 0 then ['0'] else digits ++ List.replicate d.exponent.toNat '0'
  else
    let places := (-d.exponent).toNat
    let padded := List.replicate (places + 1 - digits.length) '0' ++ digits
    let point := padded.length - places
    padded.take point ++ '.' :: padded.drop point

end Decimal

namespace Double

/-- The two neighbours of `num / den` among the multiples of `10 ^ exponent`, the
nearer one first and the lower one on a tie. -/
def neighbours (num den : Nat) (exponent : Int) : List Decimal :=
  let scaled :=
    if exponent < 0 then (num * Nat.pow 10 (-exponent).toNat, den)
    else (num, den * Nat.pow 10 exponent.toNat)
  let low := scaled.1 / scaled.2
  let rest := scaled.1 % scaled.2
  if 2 * rest ≤ scaled.2 then [⟨low, exponent⟩, ⟨low + 1, exponent⟩]
  else [⟨low + 1, exponent⟩, ⟨low, exponent⟩]

/-- The first decimal number on finer and finer grids that is read back as `value`;
`fuel` grids are tried, from `10 ^ exponent` downward. -/
def searchGrid (value : Double) (num den : Nat) : Nat → Int → Option Decimal
  | 0, _ => none
  | fuel + 1, exponent =>
      match (neighbours num den exponent).find? fun d => d.digits != 0 && d.toDouble == value with
      | some found => some found
      | none => searchGrid value num den fuel (exponent - 1)

def text (value : Double) : List Char :=
  match value.quotient? with
  | none => "inf".toList
  | some (num, den) =>
      if num == 0 then ['0']
      else
        let magnitude : Int := ((num.log2 : Int) - (den.log2 : Int)) * 30103 / 100000 + 2
        match searchGrid value num den 40 magnitude with
        | some found => (found.stripZeros 400).text
        | none => ['0']

end Double

end Number
end Typings
