import Typings.Layout.Line
import Mathlib.Data.List.TakeWhile

/-!
# Trimmed texts

White space at the ends of a text can be left out piece by piece: what stands behind a
character that is not blank does not matter at the front, and what stands before it does not
matter at the end.
-/

namespace Typings

namespace Text

variable {t : Text} {x : Char}

section Front

/-- The white space at the front of a text ends at the first character that is not blank. -/
theorem openingBlank_append_cons (hx : isBlank x = false) (piece : Text) :
    openingBlank (piece ++ x :: t) = openingBlank piece := by
  induction piece with
  | nil => simp [openingBlank, hx]
  | cons y rest ih =>
      simp only [openingBlank, List.cons_append, List.takeWhile_cons] at ih ⊢
      split <;> simp [ih]

theorem trimStart_append_cons (hx : isBlank x = false) (piece : Text) :
    trimStart (piece ++ x :: t) = trimStart piece ++ x :: t := by
  induction piece with
  | nil => simp [trimStart, hx]
  | cons y rest ih =>
      simp only [trimStart, List.cons_append, List.dropWhile_cons] at ih ⊢
      split
      · exact ih
      · rfl

/-- White space in front of a text that is not blank all over. -/
theorem trimStart_append (h : ∃ x ∈ t, isBlank x = false) (rest : Text) :
    trimStart (t ++ rest) = trimStart t ++ rest := by
  obtain ⟨x, hmem, hx⟩ := h
  obtain ⟨before, after, rfl⟩ := List.append_of_mem hmem
  rw [List.append_assoc, List.cons_append, trimStart_append_cons hx, trimStart_append_cons hx,
    List.append_assoc, List.cons_append]

/-- A text that is not blank all over keeps a character that is not blank. -/
theorem exists_mem_trimStart (h : ∃ x ∈ t, isBlank x = false) :
    ∃ x ∈ trimStart t, isBlank x = false := by
  obtain ⟨x, hmem, hx⟩ := h
  obtain ⟨before, after, rfl⟩ := List.append_of_mem hmem
  exact ⟨x, by simp [trimStart_append_cons hx], hx⟩

end Front

section End

theorem trimEnd_nil : trimEnd [] = [] := rfl

/-- In front of a text of which nothing is left, a character is at the end. -/
theorem trimEnd_cons_of_eq_nil (h : trimEnd t = []) (y : Char) :
    trimEnd (y :: t) = if isBlank y then [] else [y] := by
  rw [trimEnd, h]

theorem trimEnd_cons_of_ne_nil (h : trimEnd t ≠ []) (y : Char) :
    trimEnd (y :: t) = y :: trimEnd t := by
  rw [trimEnd]
  split
  · contradiction
  · rfl

theorem trimEnd_ne_nil (h : ∃ x ∈ t, isBlank x = false) : trimEnd t ≠ [] := by
  obtain ⟨x, hmem, hx⟩ := h
  induction t with
  | nil => simp at hmem
  | cons y rest ih =>
      by_cases hnil : trimEnd rest = []
      · rw [trimEnd_cons_of_eq_nil hnil]
        rcases List.mem_cons.mp hmem with rfl | hmem
        · simp [hx]
        · exact absurd hnil (ih hmem)
      · simp [trimEnd_cons_of_ne_nil hnil]

/-- White space behind a text that is not blank all over. -/
theorem trimEnd_append (h : ∃ x ∈ t, isBlank x = false) (front : Text) :
    trimEnd (front ++ t) = front ++ trimEnd t := by
  have hne := trimEnd_ne_nil h
  induction front with
  | nil => rfl
  | cons y rest ih =>
      have hrest : trimEnd (rest ++ t) ≠ [] := by simp [ih, hne]
      rw [List.cons_append, trimEnd_cons_of_ne_nil hrest, ih, List.cons_append]

/-- A text that is blank all over leaves nothing at the end of another one. -/
theorem trimEnd_append_of_eq_nil (h : trimEnd t = []) (front : Text) :
    trimEnd (front ++ t) = trimEnd front := by
  induction front with
  | nil => exact h
  | cons y rest ih =>
      rw [List.cons_append]
      by_cases hnil : trimEnd rest = []
      · rw [trimEnd_cons_of_eq_nil (ih.trans hnil), trimEnd_cons_of_eq_nil hnil]
      · rw [trimEnd_cons_of_ne_nil (ih ▸ hnil), ih, trimEnd_cons_of_ne_nil hnil]

/-- A text that is blank all over is left out. -/
theorem trimEnd_eq_nil (h : ∀ c ∈ t, isBlank c = true) : trimEnd t = [] := by
  induction t with
  | nil => rfl
  | cons y rest ih =>
      obtain ⟨hy, hrest⟩ := List.forall_mem_cons.mp h
      rw [trimEnd_cons_of_eq_nil (ih hrest), if_pos hy]

/-- A character that is not blank in front of a text stays at the front. -/
theorem trimEnd_cons (hx : isBlank x = false) (t : Text) : trimEnd (x :: t) = x :: trimEnd t := by
  by_cases hnil : trimEnd t = []
  · simp [trimEnd_cons_of_eq_nil hnil, hx, hnil]
  · exact trimEnd_cons_of_ne_nil hnil x

theorem trimEnd_trimEnd (t : Text) : trimEnd (trimEnd t) = trimEnd t := by
  induction t with
  | nil => rfl
  | cons y rest ih =>
      by_cases hnil : trimEnd rest = []
      · rw [trimEnd_cons_of_eq_nil hnil]
        split
        · rfl
        · rename_i hy
          rw [trimEnd_cons (by simpa using hy), trimEnd_nil]
      · rw [trimEnd_cons_of_ne_nil hnil, trimEnd_cons_of_ne_nil (ih.symm ▸ hnil), ih]

/-- A character that is not blank behind a text stays at the end. -/
theorem trimEnd_concat (hx : isBlank x = false) (t : Text) : trimEnd (t ++ [x]) = t ++ [x] := by
  rw [trimEnd_append ⟨x, by simp, hx⟩, trimEnd_cons hx, trimEnd_nil]

/-- What is left out at the end of a text is blank. -/
theorem exists_trimEnd_append (t : Text) :
    ∃ blanks, t = trimEnd t ++ blanks ∧ ∀ c ∈ blanks, isBlank c = true := by
  induction t with
  | nil => exact ⟨[], rfl, by simp⟩
  | cons y rest ih =>
      obtain ⟨blanks, hrest, hblanks⟩ := ih
      by_cases hnil : trimEnd rest = []
      · rw [hnil, List.nil_append] at hrest
        rw [trimEnd_cons_of_eq_nil hnil, hrest]
        by_cases hy : isBlank y = true
        · exact ⟨y :: blanks, by simp [hy], by simpa [hy] using hblanks⟩
        · exact ⟨blanks, by simp [hy], hblanks⟩
      · refine ⟨blanks, ?_, hblanks⟩
        rw [trimEnd_cons_of_ne_nil hnil, List.cons_append, ← hrest]

theorem length_trimEnd_le (t : Text) : (trimEnd t).length ≤ t.length := by
  obtain ⟨blanks, heq, -⟩ := exists_trimEnd_append t
  have hlength := congrArg List.length heq
  rw [List.length_append] at hlength
  omega

end End

section Both

/-- What is left out of a text at its ends is blank. -/
theorem exists_append_trim_append (t : Text) :
    ∃ front back, t = front ++ trim t ++ back ∧ (∀ c ∈ front, isBlank c = true) ∧
      ∀ c ∈ back, isBlank c = true := by
  obtain ⟨back, hback, hblank⟩ := exists_trimEnd_append (trimStart t)
  refine ⟨openingBlank t, back, ?_, ?_, hblank⟩
  · rw [List.append_assoc, trim, ← hback, openingBlank_append_trimStart]
  · intro c hc
    exact List.mem_takeWhile_imp hc

theorem trimStart_eq_nil (h : ∀ c ∈ t, isBlank c = true) : trimStart t = [] :=
  List.dropWhile_eq_nil_iff.mpr h

/-- A text that is not blank all over splits at its first character that is not blank. -/
theorem exists_eq_append_cons (h : ∃ x ∈ t, isBlank x = false) :
    ∃ front x rest, t = front ++ x :: rest ∧ (∀ c ∈ front, isBlank c = true) ∧
      isBlank x = false := by
  obtain ⟨x, hmem, hx⟩ := h
  induction t with
  | nil => simp at hmem
  | cons y rest ih =>
      by_cases hy : isBlank y = true
      · have hrest : x ∈ rest := by
          rcases List.mem_cons.mp hmem with rfl | hrest
          · rw [hx] at hy
            cases hy
          · exact hrest
        obtain ⟨front, z, tail, rfl, hfront, hz⟩ := ih hrest
        exact ⟨y :: front, z, tail, rfl, by simpa [hy] using hfront, hz⟩
      · exact ⟨[], y, rest, rfl, by simp, by simpa using hy⟩

/-- The two ends of a text can be trimmed in any order. -/
theorem trim_trimEnd (t : Text) : trim (trimEnd t) = trim t := by
  by_cases hall : ∀ c ∈ t, isBlank c = true
  · obtain ⟨blanks, ht, -⟩ := exists_trimEnd_append t
    have hkept : ∀ c ∈ trimEnd t, isBlank c = true := by
      intro c hc
      exact hall c (ht ▸ List.mem_append_left _ hc)
    rw [trim, trimStart_eq_nil hkept, trim, trimStart_eq_nil hall]
  · have hvisible : ∃ x ∈ t, isBlank x = false := by simpa using hall
    obtain ⟨front, x, rest, rfl, hfront, hx⟩ := exists_eq_append_cons hvisible
    have hend : trimEnd (front ++ x :: rest) = front ++ x :: trimEnd rest := by
      rw [trimEnd_append ⟨x, by simp, hx⟩, trimEnd_cons hx]
    rw [hend, trim, trimStart_append_cons hx, trimStart_eq_nil hfront, trim,
      trimStart_append_cons hx, trimStart_eq_nil hfront, List.nil_append, List.nil_append,
      trimEnd_cons hx, trimEnd_trimEnd, trimEnd_cons hx]

/-- White space around a text is left out. -/
theorem trim_blanks (front t back : Text) (hfront : ∀ c ∈ front, isBlank c = true)
    (hback : ∀ c ∈ back, isBlank c = true) : trim (front ++ t ++ back) = trim t := by
  have hend : trimEnd (front ++ t ++ back) = trimEnd (front ++ t) :=
    trimEnd_append_of_eq_nil (trimEnd_eq_nil hback) _
  have hstart : trimStart (front ++ t) = trimStart t :=
    List.dropWhile_append_of_pos hfront
  rw [← trim_trimEnd, hend, trim_trimEnd, trim, hstart, trim]

theorem trim_trim (t : Text) : trim (trim t) = trim t := by
  have hopening : ∀ c ∈ openingBlank t, isBlank c = true := fun c hc =>
    List.mem_takeWhile_imp hc
  have hstart : trim (trimStart t) = trim t := by
    have hends := trim_blanks (openingBlank t) (trimStart t) [] hopening (by simp)
    rw [List.append_nil, openingBlank_append_trimStart] at hends
    exact hends.symm
  calc trim (trim t) = trim (trimEnd (trimStart t)) := rfl
    _ = trim t := by rw [trim_trimEnd, hstart]

theorem trim_eq_nil_iff : trim t = [] ↔ ∀ c ∈ t, isBlank c = true := by
  constructor
  · intro hnil
    obtain ⟨front, back, ht, hfront, hback⟩ := exists_append_trim_append t
    rw [hnil, List.append_nil] at ht
    rw [ht]
    exact List.forall_mem_append.mpr ⟨hfront, hback⟩
  · intro hblank
    rw [trim, trimStart_eq_nil hblank, trimEnd_nil]

/-- Nothing is trimmed off a text without white space. -/
theorem trim_eq_self (h : ∀ c ∈ t, isBlank c = false) : trim t = t := by
  obtain ⟨front, back, ht, hfront, hback⟩ := exists_append_trim_append t
  have hnone : ∀ c ∈ t, isBlank c = true → False := fun c hc hblank => by
    simp [h c hc] at hblank
  have hnil : front = [] ∧ back = [] := by
    rw [ht] at hnone
    constructor
    · exact List.eq_nil_iff_forall_not_mem.mpr fun c hc => hnone c (by simp [hc]) (hfront c hc)
    · exact List.eq_nil_iff_forall_not_mem.mpr fun c hc => hnone c (by simp [hc]) (hback c hc)
  rw [hnil.1, hnil.2, List.nil_append, List.append_nil] at ht
  exact ht.symm

theorem isBlank_of_isIndent {c : Char} (h : isIndent c = true) : isBlank c = true := by
  simp only [isIndent, Bool.or_eq_true, beq_iff_eq] at h
  rcases h with rfl | rfl <;> rfl

end Both

end Text

end Typings
