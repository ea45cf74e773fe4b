import Typings.Layout.Line
import Mathlib.Data.List.Infix
import Mathlib.Data.List.TakeWhile

/-!
# The indent of a line

The line of a position, up to the position, is what stands behind the last line feed before it.
Its indent is the longest prefix of it that has nothing but spaces and tabs.

Both are said here without a search through the text.  The searches of the layout find just these.
-/

namespace Typings

namespace Text

variable {t line other indent : Text} {position : Nat}

/-- What stands between the last line feed before a position and the position. -/
structure IsLineAt (t : Text) (position : Nat) (line : Text) : Prop where
  before : ∃ before, t.take position = before ++ line ∧
    (before = [] ∨ before.getLast? = some '\n')
  unbroken : '\n' ∉ line

/-- The longest prefix of spaces and tabs of the line of a position, up to the position. -/
structure IsIndentAt (t : Text) (position : Nat) (indent : Text) : Prop where
  blank : ∀ c ∈ indent, c = ' ' ∨ c = '\t'
  longest : ∃ line, IsLineAt t position line ∧ indent <+: line ∧
    ∀ other, other <+: line → (∀ c ∈ other, c = ' ' ∨ c = '\t') → other <+: indent

section Lines

/-- A line that ends another one is all of it, since a line feed stands in front of it. -/
theorem IsLineAt.eq_of_suffix (h : IsLineAt t position line) (h' : IsLineAt t position other)
    (hsuffix : line <:+ other) : line = other := by
  obtain ⟨before, hbefore, hbreak⟩ := h.before
  obtain ⟨earlier, hearlier, -⟩ := h'.before
  obtain ⟨piece, rfl⟩ := hsuffix
  rw [hbefore, ← List.append_assoc] at hearlier
  obtain rfl := List.append_cancel_right hearlier
  rcases List.eq_nil_or_concat piece with rfl | ⟨front, c, rfl⟩
  · rfl
  · have hlast : c = '\n' := by simpa using hbreak
    exact absurd (by simp [hlast]) h'.unbroken

theorem IsLineAt.eq (h : IsLineAt t position line) (h' : IsLineAt t position other) :
    line = other := by
  obtain ⟨before, hbefore, -⟩ := h.before
  obtain ⟨earlier, hearlier, -⟩ := h'.before
  rcases List.suffix_or_suffix_of_suffix ⟨before, hbefore.symm⟩ ⟨earlier, hearlier.symm⟩ with
    hsuffix | hsuffix
  · exact h.eq_of_suffix h' hsuffix
  · exact (h'.eq_of_suffix h hsuffix).symm

theorem isLineAt_lineBefore (t : Text) (position : Nat) :
    IsLineAt t position (lineBefore t position) := by
  constructor
  · refine ⟨((t.take position).reverse.dropWhile (· != '\n')).reverse, ?_, ?_⟩
    · rw [lineBefore, ← List.reverse_append, List.takeWhile_append_dropWhile, List.reverse_reverse]
    · rw [List.getLast?_reverse, List.reverse_eq_nil_iff]
      have hhead := List.head?_dropWhile_not (· != '\n') (t.take position).reverse
      cases hrest : (t.take position).reverse.dropWhile (· != '\n') with
      | nil => exact .inl rfl
      | cons c rest =>
          rw [hrest] at hhead
          exact .inr (by simpa using hhead)
  · intro hmem
    rw [lineBefore, List.mem_reverse] at hmem
    simpa using List.mem_takeWhile_imp hmem

end Lines

section Indents

theorem isIndent_iff {c : Char} : isIndent c = true ↔ c = ' ' ∨ c = '\t' := by
  simp [isIndent]

theorem isIndentAt_lineIndent (t : Text) (position : Nat) :
    IsIndentAt t position (lineIndent t position) := by
  constructor
  · exact fun c hc => isIndent_iff.mp (List.mem_takeWhile_imp hc)
  · refine ⟨_, isLineAt_lineBefore t position, List.takeWhile_prefix _, ?_⟩
    rintro other ⟨rest, hrest⟩ hblank
    rw [lineIndent, ← hrest, List.takeWhile_append_of_pos fun c hc => isIndent_iff.mpr (hblank c hc)]
    exact List.prefix_append _ _

/-- The search for an indent finds the indent. -/
theorem isIndentAt_iff : IsIndentAt t position indent ↔ indent = lineIndent t position := by
  constructor
  · intro h
    have h' := isIndentAt_lineIndent t position
    obtain ⟨line, hline, hprefix, hlongest⟩ := h.longest
    obtain ⟨other, hother, hprefix', hlongest'⟩ := h'.longest
    obtain rfl := hline.eq hother
    have hle := hlongest' indent hprefix h.blank
    have hge := hlongest _ hprefix' h'.blank
    exact hle.eq_of_length_le hge.length_le
  · rintro rfl
    exact isIndentAt_lineIndent t position

/-- The line up to a position is found where it has nothing but spaces and tabs. -/
theorem ownLineIndent?_eq_some_iff :
    ownLineIndent? t position = some indent ↔
      IsLineAt t position indent ∧ ∀ c ∈ indent, c = ' ' ∨ c = '\t' := by
  have hall : (lineBefore t position).all isIndent = true ↔
      ∀ c ∈ lineBefore t position, c = ' ' ∨ c = '\t' := by
    simp only [List.all_eq_true, isIndent_iff]
  constructor
  · intro h
    rw [ownLineIndent?, Option.ite_none_right_eq_some, hall] at h
    obtain ⟨hblank, h⟩ := h
    obtain rfl := Option.some.inj h
    exact ⟨isLineAt_lineBefore t position, hblank⟩
  · rintro ⟨hline, hblank⟩
    obtain rfl := hline.eq (isLineAt_lineBefore t position)
    exact if_pos (hall.mpr hblank)

end Indents

end Text

end Typings
