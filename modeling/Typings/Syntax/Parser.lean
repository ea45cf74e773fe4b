import Typings.Syntax.Lexer

/-!
# Parsers

A parser reads tokens from a cursor and fails by giving nothing, so that an
alternative starts again at the cursor it was given.

**Moving on.**  A cursor is moved only past a stretch of text, and what a parser gives
carries the evidence that its cursor was reached in this way.  Everything that holds of
every move holds of every parser.

**Faults.**  A text can be at fault in a way that does not stop its reading.
`complain` marks such a place: it fails, unless the reading is tolerant.  The
alternatives tried by `attempt?` are read tolerantly, and what they accept stays
accepted.

**Loops.**  Every loop is bounded by the size of the text, since each round takes
at least one token.
-/

namespace Typings
namespace Syntax

/-- A place in a text: the token that comes next, and what was read before it. -/
structure Cursor where
  /-- The token that comes next. -/
  token : Token
  /-- The text from the start of the token. -/
  here : Text
  /-- Where the token before this place ends. -/
  lastStop : Nat
  /-- The comments before this place, the latest first. -/
  comments : List Comment
  deriving Inhabited

namespace Cursor

/-- The cursor after a token of kind `before` that ends at `stop`. -/
def following (size : Nat) (before : TokenKind) (stop : Nat) (rest : Text)
    (sawBreak : Bool) (comments : List Comment) : Cursor :=
  let gap := Gap.read rest stop sawBreak
  let taken := if gap.closed then readToken size gap.sawBreak gap.rest else ⟨.unknown, 0, []⟩
  let next := if taken.value == .finish then none else some gap.stop
  { token := ⟨taken.value, ⟨gap.stop, gap.stop + taken.length⟩, gap.sawBreak⟩
    here := gap.rest
    lastStop := stop
    comments := (gap.comments before next).reverse ++ comments }

def position (c : Cursor) : Nat :=
  c.token.span.start

/-- The cursor at the first token of a text.  A first line that begins with `#!` is passed
over, and a line break counts as seen. -/
def first (t : Text) : Cursor :=
  match t with
  | '#' :: '!' :: rest =>
      let line := rest.takeWhile fun c => !isLineBreak c
      following t.length .finish (line.length + 2) (rest.drop line.length) true []
  | _ => following t.length .finish 0 t true []

/-- The cursor at the start of a text, where nothing was read before the first token. -/
def atStart (t : Text) : Cursor :=
  { first t with lastStop := (first t).position }

/-- The same place with positions counted from its token and without the comments before
it. -/
def rebased (c : Cursor) : Cursor where
  token := ⟨c.token.kind, ⟨0, c.token.span.stop - c.position⟩, c.token.afterBreak⟩
  here := c.here
  lastStop := 0
  comments := []

/-- The cursor after the next `length` characters, taken as a token of kind `kind`. -/
def past (size : Nat) (kind : TokenKind) (length : Nat) (c : Cursor) : Cursor :=
  following size kind (c.position + length) (c.here.drop length) false c.comments

/-- The text goes on for at least `length` characters, and `length` is not zero. -/
def holds (length : Nat) (c : Cursor) : Bool :=
  0 < length && !(c.here.drop (length - 1)).isEmpty

/-- The second cursor is the first one, moved past any number of stretches of text. -/
inductive Reaches : Cursor → Cursor → Prop
  | refl (c : Cursor) : Reaches c c
  | step {c d : Cursor} (size : Nat) (kind : TokenKind) (length : Nat) :
      c.holds length → Reaches (c.past size kind length) d → Reaches c d

instance : LE Cursor :=
  ⟨Reaches⟩

/-- Moves after moves are moves. -/
theorem Reaches.trans {c d e : Cursor} (h : Reaches c d) (h' : Reaches d e) : Reaches c e := by
  induction h with
  | refl => exact h'
  | step size kind length hold _ ih => exact .step size kind length hold (ih h')

end Cursor

/-- What a parser is told about its surroundings. -/
structure Setting where
  /-- The size of the text, which bounds every loop. -/
  size : Nat
  /-- Whether faults that do not stop the reading are let pass. -/
  tolerant : Bool := false
  /-- Whether a type may go on with `extends`. -/
  conditionalTypes : Bool := true
  /-- Whether `in` is an operator. -/
  inOperator : Bool := true
  /-- Whether this is the middle of a conditional expression. -/
  inMiddle : Bool := false
  /-- Whether import and export declarations may stand here. -/
  moduleLevel : Bool := true
  inFunction : Bool := false
  inAsync : Bool := false
  inGenerator : Bool := false
  inClass : Bool := false
  /-- Whether the class around may have abstract members. -/
  inAbstractClass : Bool := false
  /-- Whether the class around has a superclass. -/
  hasSuperclass : Bool := false
  breakAllowed : Bool := false
  continueAllowed : Bool := false
  labels : List String := []
  deriving Inhabited

/-- A value that was read from `origin` on, with the cursor where its reading ended. -/
structure Reached (origin : Cursor) (α : Type) where
  value : α
  cursor : Cursor
  reached : origin ≤ cursor

/-- Reads something from the place of a cursor, or fails. -/
def Parser (α : Type) : Type :=
  Setting → (c : Cursor) → Option (Reached c α)

namespace Parser

section Sequences

instance : Monad Parser where
  pure value := fun _ c => some ⟨value, c, Cursor.Reaches.refl c⟩
  bind p f := fun setting c => do
    let first ← p setting c
    let second ← f first.value setting first.cursor
    return ⟨second.value, second.cursor, Cursor.Reaches.trans first.reached second.reached⟩

instance : Alternative Parser where
  failure := fun _ _ => none
  orElse p q := fun setting c => (p setting c).orElse fun _ => q () setting c

instance : MonadReader Setting Parser where
  read := fun setting c => some ⟨setting, c, Cursor.Reaches.refl c⟩

def cursor : Parser Cursor :=
  fun _ c => some ⟨c, c, Cursor.Reaches.refl c⟩

end Sequences

section Running

/-- The result of a parser on the text from a cursor on, with the cursor where it
ended. -/
def run? {α : Type} (p : Parser α) (c : Cursor) : Option (Reached c α) :=
  p { size := c.here.length } c

/-- Runs a parser in changed surroundings. -/
def within {α : Type} (change : Setting → Setting) (p : Parser α) : Parser α :=
  fun setting c => p (change setting) c

/-- The result of a parser, without moving. -/
def lookAhead? {α : Type} (p : Parser α) : Parser (Option α) :=
  fun setting c => some ⟨(p setting c).map Reached.value, c, Cursor.Reaches.refl c⟩

/-- Whether a parser succeeds with `true`, without moving. -/
def foresees (p : Parser Bool) : Parser Bool :=
  (·.getD false) <$> lookAhead? p

/-- The result of a parser read tolerantly; without one the cursor stays. -/
def attempt? {α : Type} (p : Parser (Option α)) : Parser (Option α) :=
  fun setting c =>
    match p { setting with tolerant := true } c with
    | some ⟨some value, after, h⟩ => some ⟨some value, after, h⟩
    | _ => some ⟨none, c, Cursor.Reaches.refl c⟩

/-- Marks a fault that does not stop the reading. -/
def complain : Parser Unit := do
  unless (← read).tolerant do
    failure

def complainIf (condition : Bool) : Parser Unit := do
  if condition then complain

def require (condition : Bool) : Parser Unit := do
  unless condition do
    failure

end Running

section Tokens

def token : Parser Token := do
  return (← cursor).token

def kind : Parser TokenKind := do
  return (← cursor).token.kind

def here : Parser Nat := do
  return (← cursor).position

def lastStop : Parser Nat := do
  return (← cursor).lastStop

/-- The span from `start` to the end of the token read last. -/
def spanFrom (start : Nat) : Parser Span := do
  return ⟨start, (← cursor).lastStop⟩

/-- Whether a line break comes right before the next token. -/
def afterBreak : Parser Bool := do
  return (← cursor).token.afterBreak

/-- Takes the next token to be of kind `kind` and `length` characters long, and moves
past it. -/
def takeAs (kind : TokenKind) (length : Nat) : Parser Unit :=
  fun setting c =>
    if h : c.holds length then
      some ⟨(), c.past setting.size kind length, .step setting.size kind length h (.refl _)⟩
    else
      none

/-- Moves past the next token.  The end of the text has no length and is not passed. -/
def advance : Parser Unit := do
  let next ← token
  takeAs next.kind (next.span.stop - next.span.start)

def tokenAfter : Parser Token := do
  return (← lookAhead? (advance *> token)).getD ⟨.finish, ⟨0, 0⟩, false⟩

end Tokens

section Marks

def atMark (text : String) : Parser Bool := do
  return (← kind) == .mark text

def atOneOf (texts : List String) : Parser Bool := do
  match ← kind with
  | .mark text => return texts.contains text
  | _ => return false

def markAfter (text : String) : Parser Bool := do
  return (← tokenAfter).kind == .mark text

def eatMark (text : String) : Parser Bool := do
  if ← atMark text then
    advance
    return true
  else
    return false

def expectMark (text : String) : Parser Unit := do
  require (← eatMark text)

/-- Whether an opening angle bracket comes next, which may be the first of two. -/
def atOpenAngle : Parser Bool :=
  atOneOf ["<", "<<"]

/-- Whether a closing angle bracket comes next, which may begin a longer mark. -/
def atCloseAngle : Parser Bool :=
  atOneOf [">", ">>", ">>>", ">=", ">>=", ">>>="]

/-- Moves past an opening angle bracket and leaves the rest of its mark. -/
def expectOpenAngle : Parser Unit := do
  require (← atOpenAngle)
  takeAs (.mark "<") 1

/-- Moves past a closing angle bracket and leaves the rest of its mark. -/
def expectCloseAngle : Parser Unit := do
  require (← atCloseAngle)
  takeAs (.mark ">") 1

end Marks

section Words

def atWord (name : String) : Parser Bool := do
  return (← kind) == .word name

def atOneWordOf (names : List String) : Parser Bool := do
  match ← kind with
  | .word name => return names.contains name
  | _ => return false

def atAnyWord : Parser Bool := do
  return (← kind) matches .word _

/-- Whether a kind of token is a word that can name something. -/
def isIdentifier : TokenKind → Bool
  | .word name => !TokenKind.isReserved name
  | _ => false

def atIdentifier : Parser Bool := do
  return isIdentifier (← kind)

def wordAfter (name : String) : Parser Bool := do
  return (← tokenAfter).kind == .word name

/-- Whether a certain word comes after the next token, on the same line. -/
def wordAfterOnLine (name : String) : Parser Bool := do
  let after ← tokenAfter
  return after.kind == .word name && !after.afterBreak

def eatWord (name : String) : Parser Bool := do
  if ← atWord name then
    advance
    return true
  else
    return false

def expectWord (name : String) : Parser Unit := do
  require (← eatWord name)

def anyWord : Parser String := do
  match ← kind with
  | .word name =>
      advance
      return name
  | _ => failure

def stringLiteral : Parser Text := do
  match ← kind with
  | .string value =>
      advance
      return value
  | _ => failure

def atString : Parser Bool := do
  return (← kind) matches .string _

def atFinish : Parser Bool := do
  return (← kind) == .finish

end Words

section Semicolons

/-- Whether a statement may end here: at a semicolon, before a closing brace, at the
end of the text, or after a line break. -/
def atStatementEnd : Parser Bool := do
  let next ← token
  match next.kind with
  | .mark text => return text == ";" || text == rightBrace || next.afterBreak
  | .finish => return true
  | _ => return next.afterBreak

/-- Ends a statement if one may end here, moving past a semicolon. -/
def eatStatementEnd : Parser Bool := do
  if ← eatMark ";" then
    return true
  else
    atStatementEnd

def expectStatementEnd : Parser Unit := do
  require (← eatStatementEnd)

end Semicolons

section Loops

/-- Runs `item` as long as `more` holds, at most `fuel` times. -/
def repeatUpTo {α : Type} : Nat → Parser Bool → Parser α → Parser (List α)
  | 0, more, _ => do
      require (!(← more))
      return []
  | fuel + 1, more, item => do
      if ← more then
        let first ← item
        return first :: (← repeatUpTo fuel more item)
      else
        return []

def repeatWhile {α : Type} (more : Parser Bool) (item : Parser α) : Parser (List α) := do
  repeatUpTo (← read).size more item

/-- What an optional parser gives until it gives nothing, at most `fuel` times. -/
def collectUpTo {α : Type} : Nat → Parser (Option α) → Parser (List α)
  | 0, _ => return []
  | fuel + 1, item => do
      match ← item with
      | some first => return first :: (← collectUpTo fuel item)
      | none => return []

/-- What an optional parser gives until it gives nothing. -/
def collect {α : Type} (item : Parser (Option α)) : Parser (List α) := do
  collectUpTo (← read).size item

/-- Items up to a closing mark, with commas between them and perhaps after them.
The closing mark is left. -/
def commaList {α : Type} (closing : Parser Bool) (item : Parser α) : Parser (List α) :=
  repeatWhile (not <$> closing) do
    let value ← item
    unless ← closing do
      expectMark ","
    return value

end Loops

end Parser

end Syntax
end Typings
