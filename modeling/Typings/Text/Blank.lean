import Typings.Text.Basic

/-!
# White space

`isBlank` is the Unicode property White_Space, and trimming removes blank
characters from the ends of a text.  Blank lines, comment margins and the ends
of rendered statements are all recognised with this one class.
-/

namespace Typings

/-- Has the Unicode property White_Space. -/
def isBlank (c : Char) : Bool :=
  let n := c.toNat
  (9 ≤ n && n ≤ 13) || n == 0x20 || n == 0x85 || n == 0xA0 || n == 0x1680 ||
    (0x2000 ≤ n && n ≤ 0x200A) || n == 0x2028 || n == 0x2029 || n == 0x202F ||
    n == 0x205F || n == 0x3000

namespace Text

section Trimming

/-- The text without the blank characters it starts with. -/
def trimStart (t : Text) : Text :=
  t.dropWhile isBlank

/-- The text without the blank characters it ends with. -/
def trimEnd : Text → Text
  | [] => []
  | c :: rest =>
      match trimEnd rest with
      | [] => if isBlank c then [] else [c]
      | kept => c :: kept

def trim (t : Text) : Text :=
  trimEnd (trimStart t)

def openingBlank (t : Text) : Text :=
  t.takeWhile isBlank

/-- The blank characters at the front and the rest make up the text. -/
theorem openingBlank_append_trimStart (t : Text) :
    openingBlank t ++ trimStart t = t :=
  List.takeWhile_append_dropWhile

end Trimming

end Text

end Typings
