import Typings.Text.Blank

/-!
# Indents

Text that is put into a document is indented like the line it joins.  The indent of a
line is made of the spaces and tabs that open it.
-/

namespace Typings
namespace Text

section Indents

def isIndent (c : Char) : Bool :=
  c == ' ' || c == '\t'

/-- The part of the line of a position that comes before it. -/
def lineBefore (t : Text) (position : Nat) : Text :=
  ((t.take position).reverse.takeWhile (· != '\n')).reverse

/-- The indent of the line of a position, up to the position. -/
def lineIndent (t : Text) (position : Nat) : Text :=
  (lineBefore t position).takeWhile isIndent

/-- The indent of the line of a position, if nothing else comes before the position. -/
def ownLineIndent? (t : Text) (position : Nat) : Option Text :=
  let before := lineBefore t position
  if before.all isIndent then some before else none

/-- Whether the white space that opens a text holds a line feed. -/
def startsWithBreak (t : Text) : Bool :=
  (openingBlank t).contains '\n'

end Indents

end Text
end Typings
