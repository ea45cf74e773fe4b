import Typings.Syntax.Character
import Typings.Syntax.Token

/-!
# Gaps between tokens

Between two tokens stand spaces and comments.  `Gap.read` takes them from the
front of a text and says which comments it met, whether a line ended, and what
is left.

**Attachment.**  A comment is kept either with the token before the gap or with
the token after it.  `Gap.comments` decides this from the token before: a line
comment belongs to the token after it as soon as a line has ended, a block
comment also when the token before does not hold comments at all.
-/

namespace Typings
namespace Syntax

/-- A comment of a text. -/
structure Comment where
  /-- Where the comment stands, delimiters included. -/
  span : Span
  /-- Whether it is written with the block delimiters. -/
  isBlock : Bool
  /-- The start of the token the comment leads, if it leads one. -/
  leads : Option Nat
  deriving DecidableEq, Repr, Inhabited

/-- The comment `n` characters further on. -/
def Comment.moved (n : Nat) (comment : Comment) : Comment :=
  ⟨comment.span.moved n, comment.isBlock, comment.leads.map (· + n)⟩

/-- A comment as it is met in a gap. -/
structure MetComment where
  span : Span
  isBlock : Bool
  /-- A line break stands between the token before the gap and the comment. -/
  afterBreak : Bool
  /-- A semicolon follows the comment immediately. -/
  beforeSemicolon : Bool
  deriving Repr, Inhabited

/-- The spaces and comments at the front of a text. -/
structure Gap where
  /-- The comments in order. -/
  met : List MetComment
  /-- A line break was passed. -/
  sawBreak : Bool
  /-- Every block comment is closed. -/
  closed : Bool
  /-- Where the gap ends. -/
  stop : Nat
  /-- The text after the gap. -/
  rest : Text
  deriving Repr, Inhabited

namespace Gap

/-- What the reader of a gap is inside of. -/
inductive Inside where
  /-- Between comments. -/
  | space
  /-- In a line comment that starts at `start`. -/
  | line (start : Nat) (afterBreak : Bool)
  /-- In a block comment that starts at `start`. -/
  | block (start : Nat) (afterBreak : Bool)

def startsWithSemicolon : Text → Bool
  | ';' :: _ => true
  | _ => false

/-- Reads on in a gap: `pos` is the position of the text given, `met` the
comments so far with the latest first. -/
def readFrom : Text → Nat → Inside → Bool → List MetComment → Gap
  | [], pos, inside, sawBreak, met =>
      match inside with
      | .space => ⟨met.reverse, sawBreak, true, pos, []⟩
      | .line start afterBreak =>
          ⟨(⟨⟨start, pos⟩, false, afterBreak, false⟩ :: met).reverse, sawBreak, true, pos, []⟩
      | .block _ _ => ⟨met.reverse, sawBreak, false, pos, []⟩
  | '/' :: '/' :: rest, pos, .space, sawBreak, met =>
      readFrom rest (pos + 2) (.line pos sawBreak) sawBreak met
  | '/' :: '*' :: rest, pos, .space, sawBreak, met =>
      readFrom rest (pos + 2) (.block pos sawBreak) sawBreak met
  | '*' :: '/' :: rest, pos, .block start afterBreak, sawBreak, met =>
      readFrom rest (pos + 2) .space sawBreak
        (⟨⟨start, pos + 2⟩, true, afterBreak, startsWithSemicolon rest⟩ :: met)
  | c :: rest, pos, .space, sawBreak, met =>
      if isLineBreak c then readFrom rest (pos + 1) .space true met
      else if isSpace c then readFrom rest (pos + 1) .space sawBreak met
      else ⟨met.reverse, sawBreak, true, pos, c :: rest⟩
  | c :: rest, pos, .line start afterBreak, sawBreak, met =>
      if isLineBreak c then
        readFrom rest (pos + 1) .space true (⟨⟨start, pos⟩, false, afterBreak, false⟩ :: met)
      else
        readFrom rest (pos + 1) (.line start afterBreak) sawBreak met
  | c :: rest, pos, .block start afterBreak, sawBreak, met =>
      readFrom rest (pos + 1) (.block start afterBreak) (sawBreak || isLineBreak c) met

/-- The gap at the front of a text that starts at position `pos`. -/
def read (t : Text) (pos : Nat) (sawBreak : Bool) : Gap :=
  readFrom t pos .space sawBreak []

/-- Whether a comment leads the token after the gap, given the token before it. -/
def leadsNext (before : TokenKind) (comment : MetComment) : Bool :=
  if comment.isBlock then
    comment.afterBreak || !(before.holdsBlockComment || comment.beforeSemicolon)
  else
    comment.afterBreak || before.passesLineComment

/-- The comments of a gap, attached to the token after it where they lead it.
`next` is the start of that token, if there is one. -/
def comments (gap : Gap) (before : TokenKind) (next : Option Nat) : List Comment :=
  gap.met.map fun comment =>
    { span := comment.span
      isBlock := comment.isBlock
      leads := if leadsNext before comment then next else none }

end Gap

end Syntax
end Typings
