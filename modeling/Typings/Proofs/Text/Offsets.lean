import Typings.Text.Offset

/-!
# Positions and offsets

Every character takes at least one byte, so that positions and their offsets in bytes stand in the
same order.

**Rounding.**  `positionBefore` is the last position whose offset is not behind a given one, and
`positionAfter` the first whose offset is not before it.  Where an offset falls between two
characters, both are the position there.
-/

namespace Typings

namespace Text

variable {t : Text} {position other offset : Nat} {c : Char}

section Sizes

theorem byteSize_cons (c : Char) (t : Text) : byteSize (c :: t) = c.utf8Size + byteSize t := by
  have hshift : ∀ (t : Text) (start : Nat),
      t.foldl (fun total c => total + c.utf8Size) start = start + byteSize t := by
    intro t
    induction t with
    | nil => intro start; rfl
    | cons c rest ih =>
        intro start
        rw [byteSize, List.foldl_cons, List.foldl_cons, ih, ih]
        omega
  rw [byteSize, List.foldl_cons, hshift, Nat.zero_add]

@[simp] theorem byteOffset_zero (t : Text) : byteOffset t 0 = 0 := rfl

@[simp] theorem byteOffset_cons_succ (c : Char) (t : Text) (position : Nat) :
    byteOffset (c :: t) (position + 1) = c.utf8Size + byteOffset t position := by
  rw [byteOffset, List.take_succ_cons, byteSize_cons, byteOffset]

/-- Later positions have later offsets. -/
theorem byteOffset_lt_byteOffset (hlt : position < other) (hle : other ≤ t.length) :
    byteOffset t position < byteOffset t other := by
  induction t generalizing position other with
  | nil => simp only [List.length_nil] at hle; omega
  | cons c rest ih =>
      have hsize := c.utf8Size_pos
      obtain ⟨other, rfl⟩ := Nat.exists_eq_add_one_of_ne_zero (Nat.ne_zero_of_lt hlt)
      simp only [List.length_cons, Nat.add_le_add_iff_right] at hle
      cases position with
      | zero => simp only [byteOffset_zero, byteOffset_cons_succ]; omega
      | succ position =>
          simp only [byteOffset_cons_succ]
          have hrest := ih (Nat.lt_of_add_lt_add_right hlt) hle
          omega

theorem byteOffset_le_byteOffset (hle : position ≤ other) (hother : other ≤ t.length) :
    byteOffset t position ≤ byteOffset t other := by
  rcases Nat.eq_or_lt_of_le hle with rfl | hlt
  · exact Nat.le_refl _
  · exact Nat.le_of_lt (byteOffset_lt_byteOffset hlt hother)

theorem byteOffset_length (t : Text) : byteOffset t t.length = byteSize t := by
  rw [byteOffset, List.take_length]

/-- No two positions have the same offset. -/
theorem byteOffset_injOn (h : position ≤ t.length) (hother : other ≤ t.length)
    (heq : byteOffset t position = byteOffset t other) : position = other := by
  rcases Nat.lt_trichotomy position other with hlt | rfl | hlt
  · have := byteOffset_lt_byteOffset hlt hother
    omega
  · rfl
  · have := byteOffset_lt_byteOffset hlt h
    omega

end Sizes

section Rounding

theorem countBefore_zero (t : Text) : countBefore t 0 = (0, true) := by
  cases t <;> rfl

/-- An offset inside of the first character has no characters before it. -/
theorem countBefore_cons_of_lt (hpos : 0 < offset) (h : offset < c.utf8Size) (rest : Text) :
    countBefore (c :: rest) offset = (0, false) := by
  obtain ⟨smaller, rfl⟩ := Nat.exists_eq_add_one_of_ne_zero (Nat.ne_zero_of_lt hpos)
  exact if_pos h

/-- An offset behind the first character has one character more before it. -/
theorem countBefore_cons (h : ¬ offset < c.utf8Size) (rest : Text) :
    countBefore (c :: rest) offset =
      ((countBefore rest (offset - c.utf8Size)).1 + 1,
        (countBefore rest (offset - c.utf8Size)).2) := by
  have hsize := c.utf8Size_pos
  obtain ⟨smaller, rfl⟩ := Nat.exists_eq_add_one_of_ne_zero (by omega : offset ≠ 0)
  exact if_neg h

theorem positionAfter_zero (t : Text) : positionAfter t 0 = 0 := by
  rw [positionAfter, countBefore_zero]

/-- Rounding up goes on behind a character that lies before the offset. -/
theorem positionAfter_cons (h : ¬ offset < c.utf8Size) (rest : Text) :
    positionAfter (c :: rest) offset = positionAfter rest (offset - c.utf8Size) + 1 := by
  rw [positionAfter, positionAfter, countBefore_cons h]
  rcases countBefore rest (offset - c.utf8Size) with ⟨found, _ | _⟩ <;> rfl

theorem positionBefore_cons (h : ¬ offset < c.utf8Size) (rest : Text) :
    positionBefore (c :: rest) offset = positionBefore rest (offset - c.utf8Size) + 1 := by
  rw [positionBefore, positionBefore, countBefore_cons h]

theorem position?_cons (h : ¬ offset < c.utf8Size) (rest : Text) :
    position? (c :: rest) offset = (position? rest (offset - c.utf8Size)).map (· + 1) := by
  rw [position?, position?, countBefore_cons h]
  rcases countBefore rest (offset - c.utf8Size) with ⟨found, _ | _⟩ <;> rfl

/-- Rounding down: the last position whose offset is not behind the given one. -/
theorem le_positionBefore_iff (h : position ≤ t.length) (offset : Nat) :
    position ≤ positionBefore t offset ↔ byteOffset t position ≤ offset := by
  induction t generalizing position offset with
  | nil =>
      obtain rfl := Nat.le_zero.mp h
      simp
  | cons c rest ih =>
      cases position with
      | zero => simp
      | succ position =>
          simp only [List.length_cons, Nat.add_le_add_iff_right] at h
          rw [byteOffset_cons_succ]
          by_cases hlt : offset < c.utf8Size
          · have hbefore : positionBefore (c :: rest) offset = 0 := by
              rcases Nat.eq_zero_or_pos offset with rfl | hpos
              · rfl
              · rw [positionBefore, countBefore_cons_of_lt hpos hlt]
            omega
          · rw [positionBefore_cons hlt, Nat.add_le_add_iff_right, ih h]
            omega

/-- Rounding up: the first position whose offset is not before the given one. -/
theorem positionAfter_le_iff (h : position ≤ t.length) (offset : Nat) :
    positionAfter t offset ≤ position ↔ offset ≤ byteOffset t position := by
  induction t generalizing position offset with
  | nil =>
      obtain rfl := Nat.le_zero.mp h
      cases offset with
      | zero => simp [positionAfter_zero]
      | succ offset =>
          have hafter : positionAfter [] (offset + 1) = 1 := rfl
          simp [hafter]
  | cons c rest ih =>
      have hsize := c.utf8Size_pos
      by_cases hlt : offset < c.utf8Size
      · cases offset with
        | zero => simp [positionAfter_zero]
        | succ offset =>
            have hafter : positionAfter (c :: rest) (offset + 1) = 1 := by
              rw [positionAfter, countBefore_cons_of_lt (Nat.succ_pos offset) hlt]
            rw [hafter]
            cases position with
            | zero => simp
            | succ position => simp only [byteOffset_cons_succ]; omega
      · rw [positionAfter_cons hlt]
        cases position with
        | zero => simp only [byteOffset_zero]; omega
        | succ position =>
            simp only [List.length_cons, Nat.add_le_add_iff_right] at h
            rw [byteOffset_cons_succ, Nat.add_le_add_iff_right, ih h]
            omega

/-- An offset falls between two characters exactly if it is that of a position. -/
theorem position?_eq_some_iff :
    position? t offset = some position ↔
      position ≤ t.length ∧ byteOffset t position = offset := by
  induction t generalizing position offset with
  | nil =>
      cases offset with
      | zero =>
          have hzero : position? [] 0 = some 0 := rfl
          simp [hzero, byteOffset, byteSize, eq_comm]
      | succ offset =>
          have hnone : position? [] (offset + 1) = none := rfl
          simp [hnone, byteOffset, byteSize]
  | cons c rest ih =>
      have hsize := c.utf8Size_pos
      by_cases hlt : offset < c.utf8Size
      · cases offset with
        | zero =>
            have hzero : position? (c :: rest) 0 = some 0 := rfl
            rw [hzero]
            cases position with
            | zero => simp
            | succ position => simp only [byteOffset_cons_succ]; simp; omega
        | succ offset =>
            have hnone : position? (c :: rest) (offset + 1) = none := by
              rw [position?, countBefore_cons_of_lt (Nat.succ_pos offset) hlt]
            rw [hnone]
            cases position with
            | zero => simp
            | succ position => simp only [byteOffset_cons_succ]; simp; omega
      · rw [position?_cons hlt]
        cases position with
        | zero => simp; omega
        | succ position =>
            have hrest : byteOffset rest position = offset - c.utf8Size ↔
                c.utf8Size + byteOffset rest position = offset := by omega
            simp [ih, hrest]

theorem position?_byteOffset (h : position ≤ t.length) :
    position? t (byteOffset t position) = some position :=
  position?_eq_some_iff.mpr ⟨h, rfl⟩

end Rounding

end Text

end Typings
