import Typings.Toml.Basic

/-!
# Quoted strings

Strings stand between quotes of two kinds.  Double quotes know escapes, single quotes
take every character as it is.  Between triple quotes a string may hold line breaks, and
one right after the opening quotes does not count.

Each reader starts after the opening quotes, and gives the string and the text after the
closing quotes.
-/

namespace Typings
namespace Toml

open Syntax

section Characters

/-- May stand in a line: every character but the control characters, and the tab. -/
def isPlain (c : Char) : Bool :=
  c == '\t' || (0x20 ≤ c.toNat && c.toNat != 0x7F)

def isGap (c : Char) : Bool :=
  c == ' ' || c == '\t'

/-- A text without the spaces, tabs and line breaks in front. -/
def dropBlank : Text → Text
  | '\r' :: '\n' :: rest => dropBlank rest
  | c :: rest => if isGap c || c == '\n' then dropBlank rest else c :: rest
  | [] => []

def afterBreak? : Text → Option Text
  | '\n' :: rest => some rest
  | '\r' :: '\n' :: rest => some rest
  | _ => none

def charAt? (n : Nat) : Option Char :=
  if n.isValidChar then some (Char.ofNat n) else none

end Characters

section Escapes

/-- The character that an escape of one letter stands for. -/
def letterEscape? : Char → Option Char
  | 'b' => some '\x08'
  | 'f' => some '\x0c'
  | 'n' => some '\n'
  | 'r' => some '\r'
  | 't' => some '\t'
  | '"' => some '"'
  | '\\' => some '\\'
  | _ => none

/-- The character that a number of hexadecimal digits stands for, and the text after
them. -/
def codeEscape? (count : Nat) (t : Text) : Option (Char × Text) :=
  let digits := t.take count
  if digits.length == count && digits.all (isDigitOf 16) then
    (charAt? (numberOfDigits 16 digits)).map fun c => (c, t.drop count)
  else
    none

/-- The character that an escape stands for, and the text after it; the escape is given
without its backslash. -/
def escape? : Text → Option (Char × Text)
  | 'u' :: rest => codeEscape? 4 rest
  | 'U' :: rest => codeEscape? 8 rest
  | c :: rest => (letterEscape? c).map fun c => (c, rest)
  | [] => none

/-- The text after a backslash that ends its line, without the blank characters that
follow. -/
def lineContinuation? (t : Text) : Option Text :=
  (afterBreak? (t.dropWhile isGap)).map dropBlank

end Escapes

section Strings

/-- Puts a character in front of a string that was read. -/
def withFirst (c : Char) (read : Option (Text × Text)) : Option (Text × Text) :=
  read.map fun (string, rest) => (c :: string, rest)

/-- A string in double quotes; `fuel` bounds its size. -/
def readEscaped : Nat → Text → Option (Text × Text)
  | 0, _ => none
  | _ + 1, [] => none
  | _ + 1, '"' :: rest => some ([], rest)
  | fuel + 1, '\\' :: rest =>
      (escape? rest).bind fun (c, rest) => withFirst c (readEscaped fuel rest)
  | fuel + 1, c :: rest => if isPlain c then withFirst c (readEscaped fuel rest) else none

/-- A string in single quotes. -/
def readLiteral : Text → Option (Text × Text)
  | [] => none
  | '\'' :: rest => some ([], rest)
  | c :: rest => if isPlain c then withFirst c (readLiteral rest) else none

/-- The text after the closing triple quotes, with the quotes in front of them that
belong to the string. -/
def closing? (quote : Char) (t : Text) : Option (Text × Text) :=
  let run := (t.takeWhile (· == quote)).length
  if 3 ≤ run then
    let own := min (run - 3) 2
    some (List.replicate own quote, t.drop (own + 3))
  else
    none

/-- A string in triple quotes, with escapes if `escapes` is set; `fuel` bounds its size. -/
def readLong (quote : Char) (escapes : Bool) : Nat → Text → Option (Text × Text)
  | 0, _ => none
  | fuel + 1, t =>
      match closing? quote t with
      | some closed => some closed
      | none =>
          match afterBreak? t, t with
          | some rest, _ => withFirst '\n' (readLong quote escapes fuel rest)
          | none, [] => none
          | none, c :: rest =>
              if escapes && c == '\\' then
                match lineContinuation? rest with
                | some rest => readLong quote escapes fuel rest
                | none =>
                    (escape? rest).bind fun (c, rest) =>
                      withFirst c (readLong quote escapes fuel rest)
              else if isPlain c then
                withFirst c (readLong quote escapes fuel rest)
              else
                none

/-- A string in single or double quotes on one line, quotes included. -/
def readString (t : Text) : Option (Text × Text) :=
  match t with
  | '"' :: rest => readEscaped t.length rest
  | '\'' :: rest => readLiteral rest
  | _ => none

def readAnyString (t : Text) : Option (Text × Text) :=
  match t with
  | '"' :: '"' :: '"' :: rest =>
      readLong '"' true t.length ((afterBreak? rest).getD rest)
  | '\'' :: '\'' :: '\'' :: rest =>
      readLong '\'' false t.length ((afterBreak? rest).getD rest)
  | _ => readString t

end Strings

end Toml
end Typings
