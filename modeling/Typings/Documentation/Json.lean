import Typings.Documentation.Index

/-!
# The documentation index as JSON

`JsonValue` holds the values that an index needs, and `JsonValue.layout` writes them the way
readers expect: two spaces for each level, one item on a line, and nothing inside the
brackets of an empty list or object.

**Strings.**  Quotes, backslashes and control characters are escaped.  Every other
character stands for itself.
-/

namespace Typings

/-- A JSON value. -/
inductive JsonValue where
  | string (text : Text)
  | list (items : List JsonValue)
  /-- Fields in the order in which they are written. -/
  | object (fields : List (Text × JsonValue))
  deriving Repr, Inhabited

namespace JsonValue

section Strings

/-- The hexadecimal digit of a number below sixteen. -/
def hexDigit (n : Nat) : Char :=
  if n < 10 then Char.ofNat (48 + n) else Char.ofNat (87 + n)

def escape (c : Char) : Text :=
  if c = '"' then ['\\', '"']
  else if c = '\\' then ['\\', '\\']
  else if c = '\x08' then ['\\', 'b']
  else if c = '\x0c' then ['\\', 'f']
  else if c = '\n' then ['\\', 'n']
  else if c = '\r' then ['\\', 'r']
  else if c = '\t' then ['\\', 't']
  else if c.toNat < 32 then
    ['\\', 'u', '0', '0', hexDigit (c.toNat / 16), hexDigit (c.toNat % 16)]
  else [c]

def quoted (t : Text) : Text :=
  '"' :: (t.flatMap escape ++ ['"'])

end Strings

section Layout

def newLine (level : Nat) : Text :=
  '\n' :: List.replicate (2 * level) ' '

/-- Items on lines of their own at one level, between brackets that stand one level
before. -/
def bracketed (opening closing : Char) (level : Nat) : List Text → Text
  | [] => [opening, closing]
  | items =>
      opening :: (Text.joinWith [','] (items.map (newLine (level + 1) ++ ·)) ++
        newLine level ++ [closing])

mutual

def layout (level : Nat) : JsonValue → Text
  | .string text => quoted text
  | .list items => bracketed '[' ']' level (layoutItems (level + 1) items)
  | .object fields => bracketed '\x7b' '\x7d' level (layoutFields (level + 1) fields)

def layoutItems (level : Nat) : List JsonValue → List Text
  | [] => []
  | item :: rest => layout level item :: layoutItems level rest

def layoutFields (level : Nat) : List (Text × JsonValue) → List Text
  | [] => []
  | (name, value) :: rest =>
      (quoted name ++ ':' :: ' ' :: layout level value) :: layoutFields level rest

end

end Layout

end JsonValue

namespace DocComment

/-- Documentation as a JSON value: its shape under `kind`, and its text. -/
def toJson : DocComment → JsonValue
  | .line only =>
      .object [("kind".toList, .string "line".toList), ("text".toList, .string only)]
  | .block several =>
      .object [("kind".toList, .string "block".toList),
        ("text".toList, .list (several.map .string))]

end DocComment

namespace DocIndex

def toJson (index : DocIndex) : JsonValue :=
  .object (index.entries.map fun entry => (entry.1, entry.2.toJson))

def jsonText (index : DocIndex) : Text :=
  index.toJson.layout 0

end DocIndex

end Typings
