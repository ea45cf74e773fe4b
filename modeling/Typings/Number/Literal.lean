import Typings.Number.Shortest
import Typings.Syntax.Character

/-!
# Number literals

A number literal that names a member names it by its value: the decimal text of
the double it is read as, so that `1.50` and `1.5` are one name.  A big integer
is named by its decimal digits.  In the other bases a double is built up digit by
digit and rounded at every step.
-/

namespace Typings
namespace Number

open Syntax

/-- The base of a literal and its digits, by the prefix it starts with. -/
def splitBase (literal : Text) : Nat × Text :=
  match literal with
  | '0' :: 'x' :: digits | '0' :: 'X' :: digits => (16, digits)
  | '0' :: 'o' :: digits | '0' :: 'O' :: digits => (8, digits)
  | '0' :: 'b' :: digits | '0' :: 'B' :: digits => (2, digits)
  | _ => (10, literal)

/-- The decimal number that a literal of base ten writes. -/
def decimalOf (literal : Text) : Decimal :=
  let isExponentMark := fun c => c == 'e' || c == 'E'
  let body := literal.takeWhile (!isExponentMark ·)
  let exponentText := literal.drop (body.length + 1)
  let magnitude : Int := numberOfDigits 10 exponentText
  let exponent := if exponentText.head? == some '-' then -magnitude else magnitude
  let fraction := ((body.dropWhile (· != '.')).filter (isDigitOf 10)).length
  ⟨numberOfDigits 10 body, exponent - fraction⟩

/-- A double times `base` plus a digit, rounded. -/
def appendDigit (base : Nat) (value : Double) (digit : Nat) : Double :=
  match value.quotient? with
  | some (num, den) => Double.round (num * base + digit * den) den
  | none => .infinite

/-- The decimal numbers with more places than this before or after the point are
infinite or zero as doubles. -/
def placeLimit : Int := 400

def doubleOfDecimal (d : Decimal) : Double :=
  let places : Int := (Nat.toDigits 10 d.digits).length + d.exponent
  if d.digits == 0 then .finite 0 0
  else if placeLimit < places then .infinite
  else if places < -placeLimit then .finite 0 0
  else d.toDouble

/-- The double that a literal is read as. -/
def doubleOf (literal : Text) : Double :=
  match splitBase literal with
  | (10, _) => doubleOfDecimal (decimalOf literal)
  | (base, digits) =>
      (digits.filterMap digitValue?).foldl (appendDigit base) (.finite 0 0)

def nameOf (literal : Text) : Text :=
  (doubleOf literal).text

/-- The name that a big integer literal gives to a member. -/
def bigName (literal : Text) : Text :=
  let (base, digits) := splitBase literal
  Nat.toDigits 10 (numberOfDigits base digits)

end Number
end Typings
