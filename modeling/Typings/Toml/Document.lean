import Typings.Toml.Value

/-!
# Configuration documents

A document is a sequence of lines: headers of tables, and keys with their values.  A byte
order mark in front does not count.
-/

namespace Typings
namespace Toml

section Lines

/-- The text after what may follow on a line: blanks, a comment, and the end of the
line. -/
def readLineEnd (t : Text) : Option Text :=
  let t := t.dropWhile isGap
  let t := if t.head? == some '#' then readComment t else some t
  t.bind fun t => if t.isEmpty then some [] else afterBreak? t

/-- The draft after a header, given without its first bracket. -/
def readHeader (draft : Draft) (t : Text) : Option (Draft × Text) :=
  match t with
  | '[' :: rest => do
      let (header, t) ← readKey keyLimit rest
      let t ← expect ']' t
      let t ← expect ']' t
      let t ← readLineEnd t
      let draft ← draft.startRepeated header
      return (draft, t)
  | _ => do
      let (header, t) ← readKey keyLimit t
      let t ← expect ']' t
      let t ← readLineEnd t
      let draft ← draft.startTable header
      return (draft, t)

def readPairLine (draft : Draft) (t : Text) : Option (Draft × Text) := do
  let ((key, value), t) ← readPair (readValue depthLimit) t
  let last ← key.getLast?
  let draft ← draft.add key.dropLast last value
  let t ← readLineEnd t
  return (draft, t)

/-- The draft after all lines; `fuel` bounds their number. -/
def readLines : Nat → Draft → Text → Option Draft
  | 0, _, _ => none
  | fuel + 1, draft, t =>
      match t.dropWhile isGap with
      | [] => some draft
      | '#' :: rest => (readLineEnd ('#' :: rest)).bind (readLines fuel draft)
      | '[' :: rest =>
          (readHeader draft rest).bind fun (draft, t) => readLines fuel draft t
      | c :: rest =>
          match afterBreak? (c :: rest) with
          | some rest => readLines fuel draft rest
          | none => (readPairLine draft (c :: rest)).bind fun (draft, t) => readLines fuel draft t

end Lines

def dropByteOrderMark : Text → Text
  | [] => []
  | c :: rest => if c.toNat == 0xFEFF then rest else c :: rest

def entries? (t : Text) : Option Entries :=
  (readLines (t.length + 1) .empty (dropByteOrderMark t)).bind Draft.close

end Toml
end Typings
