import Typings.Text.Basic

/-!
# Offsets in bytes

Other programs count positions in the bytes of the UTF-8 encoding.  `byteOffset`
turns a position in characters into one in bytes, and `position?` turns it back
where the byte offset falls between two characters.
-/

namespace Typings
namespace Text

section Offsets

def byteSize (t : Text) : Nat :=
  t.foldl (fun total c => total + c.utf8Size) 0

def byteOffset (t : Text) (position : Nat) : Nat :=
  byteSize (t.take position)

/-- How many characters of a text lie before a byte offset, entirely or not: rounded
down, and whether the offset falls between two characters. -/
def countBefore : Text → Nat → Nat × Bool
  | _, 0 => (0, true)
  | [], _ + 1 => (0, false)
  | c :: rest, offset =>
      if offset < c.utf8Size then
        (0, false)
      else
        let counted := countBefore rest (offset - c.utf8Size)
        (counted.1 + 1, counted.2)

/-- The position at a byte offset, if the offset falls between two characters. -/
def position? (t : Text) (offset : Nat) : Option Nat :=
  match countBefore t offset with
  | (position, true) => some position
  | (_, false) => none

def positionBefore (t : Text) (offset : Nat) : Nat :=
  (countBefore t offset).1

/-- The first position that is not before a byte offset; past the end of the text it
is one more than the size of the text. -/
def positionAfter (t : Text) (offset : Nat) : Nat :=
  match countBefore t offset with
  | (position, true) => position
  | (position, false) => position + 1

end Offsets

end Text
end Typings
