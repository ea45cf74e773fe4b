import Typings.Toml.Quoted

/-!
# Numbers, dates and times

Whole numbers have up to sixty-four bits and may be written in four bases.  Floating
point numbers are doubles.  Dates and times are checked for being real ones, and nothing
more is known of them afterwards.

**Underscores.**  One may stand between two digits of a number.
-/

namespace Typings
namespace Toml

open Syntax

section Digits

/-- The digits at the front of a text, and the rest.  An underscore between two digits is
passed over. -/
def takeDigits (base : Nat) : Text → Text × Text
  | '_' :: c :: rest =>
      if isDigitOf base c then
        let (digits, rest) := takeDigits base rest
        (c :: digits, rest)
      else
        ([], '_' :: c :: rest)
  | c :: rest =>
      if isDigitOf base c then
        let (digits, rest) := takeDigits base rest
        (c :: digits, rest)
      else
        ([], c :: rest)
  | [] => ([], [])

/-- The digits at the front of a text that starts with one, and the rest. -/
def readDigits (base : Nat) (t : Text) : Option (Text × Text) :=
  match t with
  | '_' :: _ => none
  | _ =>
      match takeDigits base t with
      | ([], _) => none
      | found => some found

/-- Whether a number has a minus in front, and the text after its sign. -/
def takeSign : Text → Bool × Text
  | '-' :: rest => (true, rest)
  | '+' :: rest => (false, rest)
  | t => (false, t)

/-- The digits of a whole number of base ten, which starts with a zero only if it is
zero. -/
def readWhole : Text → Option (Text × Text)
  | '0' :: rest => some (['0'], rest)
  | t => readDigits 10 t

end Digits

section Integers

def greatestInteger : Int :=
  9223372036854775807

def integerOf (negative : Bool) (size : Nat) : Option Value :=
  let value : Int := if negative then -(size : Int) else size
  if -greatestInteger - 1 ≤ value && value ≤ greatestInteger then
    some (.integer value)
  else
    none

/-- A whole number in base sixteen, eight or two, without its first two characters. -/
def readBased (base : Nat) (t : Text) : Option (Value × Text) :=
  (readDigits base t).bind fun (digits, rest) =>
    (integerOf false (numberOfDigits base digits)).map fun value => (value, rest)

def readInteger (t : Text) : Option (Value × Text) :=
  match t with
  | '0' :: 'x' :: rest => readBased 16 rest
  | '0' :: 'o' :: rest => readBased 8 rest
  | '0' :: 'b' :: rest => readBased 2 rest
  | _ =>
      let (negative, rest) := takeSign t
      (readWhole rest).bind fun (digits, rest) =>
        (integerOf negative (numberOfDigits 10 digits)).map fun value => (value, rest)

end Integers

section Floats

/-- The fraction of a number with its point, if there is one. -/
def readFraction : Text → Option (Text × Text)
  | '.' :: rest => (readDigits 10 rest).map fun (digits, rest) => ('.' :: digits, rest)
  | _ => none

/-- The exponent of a number with its mark, if there is one. -/
def readExponent : Text → Option (Text × Text)
  | c :: rest =>
      if c == 'e' || c == 'E' then
        let (negative, rest) := takeSign rest
        (readDigits 10 rest).map fun (digits, rest) =>
          ((if negative then ['e', '-'] else ['e']) ++ digits, rest)
      else
        none
  | [] => none

/-- The literal of a number with a fraction, an exponent, or both, and the text after
it. -/
def readFloatLiteral (t : Text) : Option (Text × Text) :=
  (readWhole t).bind fun (whole, rest) =>
    match readFraction rest with
    | some (fraction, rest) =>
        let (exponent, rest) := (readExponent rest).getD ([], rest)
        some (whole ++ fraction ++ exponent, rest)
    | none => (readExponent rest).map fun (exponent, rest) => (whole ++ exponent, rest)

/-- A number written with digits.  One that is too large must be negative. -/
def floatOf (negative : Bool) (literal : Text) : Option Value :=
  let size := Number.doubleOfDecimal (Number.decimalOf literal)
  if size == .infinite && !negative then none else some (.float negative (some size))

def readFloat (t : Text) : Option (Value × Text) :=
  let (negative, body) := takeSign t
  match readFloatLiteral body with
  | some (literal, rest) => (floatOf negative literal).map fun value => (value, rest)
  | none =>
      match body with
      | 'i' :: 'n' :: 'f' :: rest => some (.float negative (some .infinite), rest)
      | 'n' :: 'a' :: 'n' :: rest => some (.float negative none, rest)
      | _ => none

end Floats

section Moments

/-- The number written by exactly `count` digits, if it lies between two bounds. -/
def readField (count least greatest : Nat) (t : Text) : Option (Nat × Text) :=
  let digits := t.take count
  let value := numberOfDigits 10 digits
  if digits.length == count && digits.all (isDigitOf 10) && least ≤ value && value ≤ greatest then
    some (value, t.drop count)
  else
    none

/-- The text after a character, if it starts with it. -/
def expect (c : Char) : Text → Option Text
  | d :: rest => if c == d then some rest else none
  | [] => none

def daysOf (year month : Nat) : Nat :=
  if month == 2 then
    if year % 4 == 0 && (year % 100 != 0 || year % 400 == 0) then 29 else 28
  else if month == 4 || month == 6 || month == 9 || month == 11 then 30
  else 31

def readDate (t : Text) : Option Text := do
  let (year, t) ← readField 4 0 9999 t
  let t ← expect '-' t
  let (month, t) ← readField 2 1 12 t
  let t ← expect '-' t
  let (_, t) ← readField 2 1 (daysOf year month) t
  return t

def readTime (t : Text) : Option Text := do
  let (_, t) ← readField 2 0 23 t
  let t ← expect ':' t
  let (_, t) ← readField 2 0 59 t
  let t ← expect ':' t
  let (_, t) ← readField 2 0 60 t
  return match t with
  | '.' :: rest =>
      let digits := rest.takeWhile (isDigitOf 10)
      if digits.isEmpty then t else rest.drop digits.length
  | _ => t

def readZone : Text → Option Text
  | 'Z' :: rest => some rest
  | 'z' :: rest => some rest
  | c :: rest =>
      if c == '+' || c == '-' then do
        let (_, t) ← readField 2 0 23 rest
        let t ← expect ':' t
        let (_, t) ← readField 2 0 59 t
        return t
      else
        none
  | [] => none

/-- The text after a time that follows a date, with its zone. -/
def readTimeAfterDate : Text → Option Text
  | c :: rest =>
      if c == 'T' || c == 't' || c == ' ' then
        (readTime rest).map fun t => (readZone t).getD t
      else
        none
  | [] => none

def readMoment (t : Text) : Option (Value × Text) :=
  match readDate t with
  | some rest => some (.moment, (readTimeAfterDate rest).getD rest)
  | none => (readTime t).map fun rest => (.moment, rest)

end Moments

def readNumber (t : Text) : Option (Value × Text) :=
  readMoment t <|> readFloat t <|> readInteger t

end Toml
end Typings
