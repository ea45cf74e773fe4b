import Typings.Toml.Scalar

/-!
# Keys and values

A key is a name or a quoted string, or several of them with dots between.  Lists may run
over several lines and hold comments, and may end in a comma.  A table in braces stands
on one line and may not.

**Nesting.**  Lists and tables in braces nest to a fixed depth, and a dotted key has a
bounded number of parts.
-/

namespace Typings
namespace Toml

section Comments

/-- The text after a comment, up to the end of its line; a comment holds no control
character but the tab. -/
def readComment (t : Text) : Option Text :=
  match t with
  | '#' :: rest =>
      let rest := rest.dropWhile isPlain
      if rest.isEmpty || (afterBreak? rest).isSome then some rest else none
  | _ => none

/-- The text after blank characters, line breaks and comments; `fuel` bounds the number
of comments. -/
def skipBlank : Nat → Text → Option Text
  | 0, _ => none
  | fuel + 1, t =>
      let t := dropBlank t
      if t.head? == some '#' then (readComment t).bind (skipBlank fuel) else some t

end Comments

section Keys

def isKeyChar (c : Char) : Bool :=
  c.isAlphanum || c == '-' || c == '_'

def readKeyPart (t : Text) : Option (Text × Text) :=
  match t with
  | '"' :: _ => readString t
  | '\'' :: _ => readString t
  | _ =>
      let name := t.takeWhile isKeyChar
      if name.isEmpty then none else some (name, t.drop name.length)

/-- The parts of a key, at most `fuel` of them, and the text after the blanks behind
it. -/
def readKey : Nat → Text → Option (List Text × Text)
  | 0, _ => none
  | fuel + 1, t =>
      (readKeyPart (t.dropWhile isGap)).bind fun (part, rest) =>
        match rest.dropWhile isGap with
        | '.' :: rest => (readKey fuel rest).map fun (parts, rest) => (part :: parts, rest)
        | rest => some ([part], rest)

/-- How many parts a key can have. -/
def keyLimit : Nat := 79

end Keys

section Collections

/-- A reader of values. -/
abbrev Reader := Text → Option (Value × Text)

/-- The items of a list after its opening bracket; `fuel` bounds their number. -/
def readItems (value : Reader) : Nat → Text → Option (List Value × Text)
  | 0, _ => none
  | fuel + 1, t => do
      let t ← skipBlank (t.length + 1) t
      match t with
      | ']' :: rest => return ([], rest)
      | _ =>
          let (item, t) ← value t
          let t ← skipBlank (t.length + 1) t
          match t with
          | ',' :: rest =>
              let (items, rest) ← readItems value fuel rest
              return (item :: items, rest)
          | ']' :: rest => return ([item], rest)
          | _ => none

/-- A key with its value, and the text after the blanks behind it. -/
def readPair (value : Reader) (t : Text) : Option ((List Text × Value) × Text) := do
  let (key, t) ← readKey keyLimit t
  let t ← expect '=' t
  let (found, t) ← value (t.dropWhile isGap)
  return ((key, found), t.dropWhile isGap)

def addPair (entries : Entries) (key : List Text) (value : Value) : Option Entries :=
  key.getLast?.bind fun last => addDotted key.dropLast last value entries

/-- The entries of a table in braces, after one that was just read; `fuel` bounds their
number. -/
def readPairs (value : Reader) : Nat → Entries → Text → Option (Entries × Text)
  | 0, _, _ => none
  | fuel + 1, entries, t => do
      let ((key, found), t) ← readPair value t
      let entries ← addPair entries key found
      match t with
      | ',' :: rest => readPairs value fuel entries rest
      | '\x7d' :: rest => return (entries, rest)
      | _ => none

/-- A value; `depth` lists and tables may lie in each other. -/
def readValue : Nat → Reader
  | depth, t =>
      match t with
      | '"' :: _ | '\'' :: _ =>
          (readAnyString t).map fun (string, rest) => (.string string, rest)
      | 't' :: 'r' :: 'u' :: 'e' :: rest => some (.boolean true, rest)
      | 'f' :: 'a' :: 'l' :: 's' :: 'e' :: rest => some (.boolean false, rest)
      | '[' :: rest =>
          match depth with
          | 0 => none
          | depth + 1 =>
              (readItems (readValue depth) rest.length rest).map fun (items, rest) =>
                (.list items, rest)
      | '\x7b' :: rest =>
          match depth with
          | 0 => none
          | depth + 1 =>
              match rest.dropWhile isGap with
              | '\x7d' :: rest => some (.table .braced [], rest)
              | rest =>
                  (readPairs (readValue depth) rest.length [] rest).map fun (entries, rest) =>
                    (.table .braced entries, rest)
      | _ => readNumber t

/-- How deep lists and tables in braces can lie in each other. -/
def depthLimit : Nat := 79

end Collections

end Toml
end Typings
