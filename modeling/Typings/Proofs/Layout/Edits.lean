import Typings.Text.Blank

/-!
# Edits of a text

An edit puts a text in the place of a stretch of another one.  Edits that follow one another
without overlapping are applied all at once: what stands between them is copied.

**Composition.**  Edits of neighbouring stretches can be applied one stretch after the
other, and a stretch in front of all edits can be split off.
-/

namespace Typings

/-- A text in the place of the characters from `start` up to `stop`. -/
structure Edit where
  start : Nat
  stop : Nat
  text : Text
  deriving DecidableEq, Repr, Inhabited

/-- Edits that follow one another from `lo` to `hi`. -/
inductive Edits : Nat → List Edit → Nat → Prop
  | nil {lo hi : Nat} : lo ≤ hi → Edits lo [] hi
  | cons {lo hi : Nat} {edit : Edit} {rest : List Edit} :
      lo ≤ edit.start → edit.start ≤ edit.stop → Edits edit.stop rest hi →
      Edits lo (edit :: rest) hi

namespace Edits

variable {lo mid hi : Nat} {edits others : List Edit}

theorem widen {lo' hi' : Nat} (h : Edits lo edits hi) (hlo : lo' ≤ lo) (hhi : hi ≤ hi') :
    Edits lo' edits hi' := by
  induction h generalizing lo' with
  | nil hle => exact .nil (by omega)
  | cons hstart hle _ ih => exact .cons (by omega) hle (ih (Nat.le_refl _) hhi)

theorem append (h : Edits lo edits mid) (h' : Edits mid others hi) :
    Edits lo (edits ++ others) hi := by
  induction h with
  | nil hle => exact h'.widen hle (Nat.le_refl _)
  | cons hstart hle _ ih => exact .cons hstart hle (ih h')

end Edits

namespace Text

variable {t : Text} {edits others : List Edit} {a b c : Nat}

/-- The stretch of `t` from `start` up to `stop`, with edits of that stretch applied. -/
def edited (t : Text) (start stop : Nat) : List Edit → Text
  | [] => slice t start stop
  | edit :: rest => slice t start edit.start ++ edit.text ++ edited t edit.stop stop rest

@[simp] theorem slice_self (t : Text) (a : Nat) : slice t a a = [] :=
  slice_of_le t (Nat.le_refl a)

/-- A stretch in front of the edits is copied. -/
theorem slice_append_edited (h : Edits b edits c) (hab : a ≤ b) :
    slice t a b ++ edited t b c edits = edited t a c edits := by
  cases h with
  | nil hle => exact slice_append_slice t hab hle
  | cons hstart _ _ =>
      simp only [edited, ← List.append_assoc]
      rw [slice_append_slice t hab hstart]

/-- Edits of two neighbouring stretches. -/
theorem edited_append (h : Edits a edits b) (h' : Edits b others c) :
    edited t a b edits ++ edited t b c others = edited t a c (edits ++ others) := by
  induction h with
  | nil hle => exact slice_append_edited h' hle
  | cons hstart hle _ ih => simp only [edited, List.cons_append, List.append_assoc, ih h']

/-- The first character is kept if the edits come after it. -/
theorem edited_eq_cons {x : Char} (hx : t[a]? = some x) (h : Edits (a + 1) edits c) :
    edited t a c edits = x :: edited t (a + 1) c edits := by
  obtain ⟨hlt, rfl⟩ := List.getElem?_eq_some_iff.mp hx
  have hslice : slice t a (a + 1) = [t[a]] := by
    rw [slice, Nat.add_sub_cancel_left, List.drop_eq_getElem_cons hlt]
    rfl
  rw [← slice_append_edited h (Nat.le_succ a), hslice, List.singleton_append]

/-- A stretch and all that follows it. -/
theorem slice_append_drop (t : Text) {a b : Nat} (hab : a ≤ b) :
    slice t a b ++ t.drop b = t.drop a := by
  have hdrop : t.drop b = (t.drop a).drop (b - a) := by
    rw [List.drop_drop]
    congr 1
    omega
  rw [slice, hdrop, List.take_append_drop]

/-- A character that stands in a stretch. -/
theorem mem_slice {x : Char} {i : Nat} (hx : t[i]? = some x) (hstart : a ≤ i) (hstop : i < b) :
    x ∈ slice t a b := by
  refine List.mem_of_getElem? (i := i - a) ?_
  rw [slice, List.getElem?_take_of_lt (by omega), List.getElem?_drop, Nat.add_sub_cancel' hstart, hx]

theorem exists_of_mem_slice {x : Char} (h : x ∈ slice t a b) :
    ∃ i, a ≤ i ∧ i < b ∧ t[i]? = some x := by
  obtain ⟨k, hk⟩ := List.mem_iff_getElem?.mp h
  rw [slice, List.getElem?_take] at hk
  split at hk
  · rename_i hlt
    rw [List.getElem?_drop] at hk
    exact ⟨a + k, by omega, by omega, hk⟩
  · cases hk

/-- The last stretch of a text. -/
theorem slice_length (t : Text) (a : Nat) : slice t a t.length = t.drop a := by
  rw [slice, ← List.length_drop, List.take_length]

end Text
end Typings
