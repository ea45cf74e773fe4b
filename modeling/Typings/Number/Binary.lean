/-!
# Binary floating point

A finite double is a whole number times a power of two.  `Double.round` gives
the double nearest to a quotient of natural numbers, and of two equally near
ones the one with an even mantissa, in exact arithmetic.
-/

namespace Typings
namespace Number

/-- A nonnegative double: the finite value `mantissa * 2 ^ exponent`, or infinity. -/
inductive Double where
  | finite (mantissa : Nat) (exponent : Int)
  | infinite
  deriving DecidableEq, Repr, Inhabited

def leastExponent : Int := -1074

def greatestExponent : Int := 971

/-- The mantissa of a double lies below this: it has 53 binary digits. -/
def mantissaLimit : Nat := 9007199254740992

/-- The quotient of two natural numbers, rounded to the nearest natural number, and to
the even one of two equally near. -/
def roundQuotient (num den : Nat) : Nat :=
  let whole := num / den
  let rest := num % den
  if den < 2 * rest || (2 * rest == den && whole % 2 == 1) then whole + 1 else whole

/-- The quotient `num / den` divided by `2 ^ exponent`, as a quotient again. -/
def scaleDown (num den : Nat) (exponent : Int) : Nat × Nat :=
  if exponent < 0 then (num * Nat.pow 2 (-exponent).toNat, den)
  else (num, den * Nat.pow 2 exponent.toNat)

/-- The exponent that leaves a quotient a mantissa of 53 binary digits, or the smallest
exponent there is. -/
def exponentFor (num den : Nat) : Int :=
  let guess : Int := (num.log2 : Int) - (den.log2 : Int) - 52
  let scaled := scaleDown num den guess
  let exact := if scaled.1 / scaled.2 < mantissaLimit / 2 then guess - 1 else guess
  max exact leastExponent

namespace Double

def round (num den : Nat) : Double :=
  if num == 0 then .finite 0 0
  else
    let exponent := exponentFor num den
    let scaled := scaleDown num den exponent
    let mantissa := roundQuotient scaled.1 scaled.2
    let carried := mantissa == mantissaLimit
    let mantissa := if carried then mantissaLimit / 2 else mantissa
    let exponent := if carried then exponent + 1 else exponent
    if greatestExponent < exponent then .infinite
    else if mantissa == 0 then .finite 0 0
    else .finite mantissa exponent

/-- A double as a quotient of natural numbers; infinity has none. -/
def quotient? : Double → Option (Nat × Nat)
  | .finite mantissa exponent =>
      some (if exponent < 0 then (mantissa, Nat.pow 2 (-exponent).toNat)
        else (mantissa * Nat.pow 2 exponent.toNat, 1))
  | .infinite => none

end Double

end Number
end Typings
