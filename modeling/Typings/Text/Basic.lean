/-!
# Text

Every text of the library is a list of characters.  Positions in a text are
counted in characters, so that a piece of a text is a `take` of a `drop`, and
every rule about text is a recursion on the list.

**Pieces.**  `slice` cuts out a stretch and is empty for an inverted one.

**Lines.**  `pieces` splits at a character and `lines` at line feeds.  `joinLines` puts
the lines back, and `joinLines_lines` says that nothing is lost.

**Line endings.**  `unixLines` turns every carriage return that stands before a
line feed into nothing.
-/

namespace Typings

/-- A text, as the list of its characters. -/
abbrev Text := List Char

namespace Text

section Pieces

/-- The characters of `t` from position `start` up to position `stop`. -/
def slice (t : Text) (start stop : Nat) : Text :=
  (t.drop start).take (stop - start)

theorem slice_of_le (t : Text) {start stop : Nat} (h : stop ≤ start) :
    slice t start stop = [] := by
  simp [slice, Nat.sub_eq_zero_of_le h]

theorem slice_zero_length (t : Text) :
    slice t 0 t.length = t := by
  simp [slice]

theorem slice_append_slice (t : Text) {a b c : Nat} (hab : a ≤ b) (hbc : b ≤ c) :
    slice t a b ++ slice t b c = slice t a c := by
  have hlength : c - a = (b - a) + (c - b) := by omega
  have hdrop : (t.drop a).drop (b - a) = t.drop b := by
    rw [List.drop_drop]
    congr 1
    omega
  simp only [slice]
  rw [hlength, List.take_add, hdrop]

end Pieces

section Affixes

/-- What follows `affix` at the front of `t`, if `t` starts with it. -/
def afterPrefix? (affix t : Text) : Option Text :=
  affix.isPrefixOf? t

/-- What precedes `affix` at the end of `t`, if `t` ends with it. -/
def beforeSuffix? (affix t : Text) : Option Text :=
  affix.isSuffixOf? t

end Affixes

section Lines

def pieces (mark : Char) : Text → List Text
  | [] => [[]]
  | c :: rest =>
      if c = mark then
        [] :: pieces mark rest
      else
        match pieces mark rest with
        | [] => [[c]]
        | first :: others => (c :: first) :: others

/-- The lines of a text: the pieces between its line feeds. -/
def lines (t : Text) : List Text :=
  pieces '\n' t

/-- Texts put together with `separator` between neighbours. -/
def joinWith (separator : Text) : List Text → Text
  | [] => []
  | [piece] => piece
  | piece :: next :: others => piece ++ (separator ++ joinWith separator (next :: others))

/-- Lines put together with a line feed between neighbours. -/
def joinLines (ls : List Text) : Text :=
  joinWith ['\n'] ls

theorem pieces_ne_nil (mark : Char) (t : Text) : pieces mark t ≠ [] := by
  cases t with
  | nil => simp [pieces]
  | cons c rest =>
      simp only [pieces]
      split
      · simp
      · split <;> simp

theorem lines_ne_nil (t : Text) : lines t ≠ [] :=
  pieces_ne_nil '\n' t

theorem joinLines_lines (t : Text) : joinLines (lines t) = t := by
  induction t with
  | nil => rfl
  | cons c rest ih =>
      cases hr : pieces '\n' rest with
      | nil => exact absurd hr (pieces_ne_nil '\n' rest)
      | cons first others =>
          rw [lines, hr] at ih
          by_cases hc : c = '\n'
          · cases others <;> simp_all [lines, pieces, joinLines, joinWith]
          · cases others <;> simp_all [lines, pieces, joinLines, joinWith]

/-- The lines of a text without line feeds are that text alone. -/
theorem lines_of_not_mem {t : Text} (h : '\n' ∉ t) : lines t = [t] := by
  induction t with
  | nil => rfl
  | cons c rest ih =>
      simp only [List.mem_cons, not_or] at h
      have ih := ih h.2
      simp only [lines] at ih
      simp [lines, pieces, ih, Ne.symm h.1]

/-- A line feed after a text without line feeds ends its only line. -/
theorem lines_append_newline {line : Text} (h : '\n' ∉ line) (rest : Text) :
    lines (line ++ '\n' :: rest) = line :: lines rest := by
  induction line with
  | nil => simp [lines, pieces]
  | cons c more ih =>
      simp only [List.mem_cons, not_or] at h
      have ih := ih h.2
      simp only [lines] at ih
      simp [lines, pieces, ih, Ne.symm h.1]

/-- A text with every carriage return before a line feed left out. -/
def unixLines : Text → Text
  | [] => []
  | '\r' :: '\n' :: rest => '\n' :: unixLines rest
  | c :: rest => c :: unixLines rest

end Lines

section Search

/-- The position of the first `c` in `t`, if there is one. -/
def indexOf? (t : Text) (c : Char) : Option Nat :=
  t.findIdx? (· == c)

/-- How many characters of `t` stand on the line that `t` ends in. -/
def columnAtEnd (t : Text) : Nat :=
  (t.reverse.takeWhile (· != '\n')).length

end Search

end Text

end Typings
