import Typings.Text.Blank
import Typings.Text.IdentifierRanges

/-!
# Character classes of declaration files

The lexical grammar sorts characters into line breaks, spaces, the characters
that may begin a name and those that may go on with one.  A line break is also a
space: it separates tokens, and besides it may end a statement.
-/

namespace Typings
namespace Syntax

section Spaces

/-- Ends a line: line feed, carriage return, line separator, paragraph separator. -/
def isLineBreak (c : Char) : Bool :=
  c == '\n' || c == '\r' || c.toNat == 0x2028 || c.toNat == 0x2029

/-- Separates tokens: the blank characters, the byte order mark, and the two
invisible separators U+180E and U+200B. -/
def isSpace (c : Char) : Bool :=
  isBlank c || c.toNat == 0xFEFF || c.toNat == 0x180E || c.toNat == 0x200B

end Spaces

section Names

/-- May begin a name, by its code point. -/
def beginsName (code : Nat) : Bool :=
  (0x61 ≤ code && code ≤ 0x7A) || (0x41 ≤ code && code ≤ 0x5A) || code == 0x24 ||
    code == 0x5F || (0x80 ≤ code && Identifier.inRanges Identifier.startRanges code)

/-- May follow in a name: also digits, marks, and the two joiners. -/
def continuesName (code : Nat) : Bool :=
  beginsName code || (0x30 ≤ code && code ≤ 0x39) || code == 0x200C || code == 0x200D ||
    (0x80 ≤ code && Identifier.inRanges Identifier.continueRanges code)

end Names

section Digits

/-- The value of a digit in bases up to sixteen. -/
def digitValue? (c : Char) : Option Nat :=
  let n := c.toNat
  if 0x30 ≤ n && n ≤ 0x39 then some (n - 0x30)
  else if 0x61 ≤ n && n ≤ 0x66 then some (n - 0x57)
  else if 0x41 ≤ n && n ≤ 0x46 then some (n - 0x37)
  else none

/-- Is a digit of the given base. -/
def isDigitOf (base : Nat) (c : Char) : Bool :=
  match digitValue? c with
  | some value => value < base
  | none => false

/-- The number written by the digits of a text; other characters are passed over. -/
def numberOfDigits (base : Nat) (t : Text) : Nat :=
  t.foldl
    (fun total c =>
      match digitValue? c with
      | some value => total * base + value
      | none => total)
    0

end Digits

end Syntax
end Typings
