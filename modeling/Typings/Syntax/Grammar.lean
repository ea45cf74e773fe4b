import Typings.Syntax.Grammar.Module

/-!
# The grammar of declaration files

The rules refer to each other through `Rules`.  Here the circle is closed: the rules
at depth `n + 1` are built over the rules at depth `n`, and the rules at depth zero
accept nothing.  Each step from one depth to the next takes at least one token
somewhere below it, so a depth proportional to the size of the text is enough for
every text.

**Documents.**  A document is a list of statements up to the end of the text.  It is read
with positions counted from its first token, so that what stands before the first token has
no part in it, and the outline is moved to its place in the text afterwards.
-/

namespace Typings
namespace Syntax
namespace Grammar

open Syntax.Parser

section Circle

/-- The rules over the rules one step deeper. -/
def build (deeper : Unit → Rules) : Rules where
  type := fun s c => type (deeper ()) s c
  typeOperand := fun s c => typeOperand (deeper ()) s c
  assignment := fun s c => assignment (deeper ()) s c
  unary := fun s c => unary (deeper ()) s c
  constructed := fun s c => constructed (deeper ()) s c
  leftHand := fun s c => leftHand (deeper ()) s c
  decoration := fun s c => decoration (deeper ()) s c
  object := fun s c => objectLiteral (deeper ()) s c
  binding := fun s c => binding (deeper ()) s c
  classExpression := fun start s c => classFrom (deeper ()) start false false s c
  functionExpression := fun s c => functionExpression (deeper ()) s c
  statement := fun declarations s c => statement (deeper ()) declarations s c
  block := fun s c => block (deeper ()) s c
  nameSpace := fun start s c => nameSpaceFrom (deeper ()) start s c

/-- The rules at a depth. -/
def rules : Nat → Rules
  | 0 => Rules.nothing
  | depth + 1 => build fun _ => rules depth

end Circle

section Documents

/-- A depth that is enough for a text of the given size. -/
def depthFor (size : Nat) : Nat :=
  8 * size + 32

def document : Parser (List Outline) := do
  let setting ← read
  repeatUpTo (setting.size + 1) (not <$> atFinish)
    ((rules (depthFor setting.size)).statement true)

end Documents

end Grammar

/-- The outline of a text and its comments in order, if the text is well formed. -/
def readDocument (t : Text) : Option (List Outline × List Comment) :=
  let start := Cursor.atStart t
  (Grammar.document.run? start.rebased).map fun read =>
    (Outline.movedAll start.position read.value,
      start.comments.reverse ++
        read.cursor.comments.reverse.map (Comment.moved start.position))

end Syntax
end Typings
