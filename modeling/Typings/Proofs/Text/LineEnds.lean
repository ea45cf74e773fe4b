import Typings.Text.Basic
import Mathlib.Data.List.Infix

/-!
# Line ends

`unixLines` leaves out each carriage return that stands before a line feed.  It is one pass, so
that a carriage return in front of such a pair comes to stand before the line feed, and every
carriage return that stands before something else stays.

**Strays.**  A stray carriage return has no line feed behind it.  The strays are what is left of
the carriage returns of a text.

**Twice.**  A second pass finds something to do exactly where two carriage returns stood before
a line feed.
-/

namespace Typings
namespace Text

variable {c : Char} {t : Text}

section Strays

/-- A carriage return stands in the text with no line feed behind it. -/
def HasStray (t : Text) : Prop :=
  ∃ front back, t = front ++ '\r' :: back ∧ back.head? ≠ some '\n'

theorem hasStray_cons :
    HasStray (c :: t) ↔ c = '\r' ∧ t.head? ≠ some '\n' ∨ HasStray t := by
  constructor
  · rintro ⟨front, back, heq, hback⟩
    cases front with
    | nil =>
        obtain ⟨rfl, rfl⟩ := List.cons.inj heq
        exact .inl ⟨rfl, hback⟩
    | cons first front =>
        obtain ⟨rfl, rfl⟩ := List.cons.inj heq
        exact .inr ⟨front, back, rfl, hback⟩
  · rintro (⟨rfl, hback⟩ | ⟨front, back, rfl, hback⟩)
    · exact ⟨[], t, rfl, hback⟩
    · exact ⟨c :: front, back, rfl, hback⟩

theorem not_hasStray_nil : ¬ HasStray [] := by
  rintro ⟨front, back, heq, -⟩
  simp at heq

/-- What is left of the carriage returns of a text are its strays. -/
theorem return_mem_unixLines (t : Text) : '\r' ∈ unixLines t ↔ HasStray t := by
  fun_induction unixLines t with
  | case1 => simp [not_hasStray_nil]
  | case2 rest ih => simp [hasStray_cons, ih]
  | case3 c rest hpair ih =>
      have hback : c = '\r' → rest.head? ≠ some '\n' := by
        rintro rfl hhead
        obtain ⟨others, rfl⟩ := List.head?_eq_some_iff.mp hhead
        exact hpair others rfl rfl
      rw [List.mem_cons, ih, hasStray_cons, eq_comm]
      exact or_congr_left ⟨fun hc => ⟨hc, hback hc⟩, fun h => h.1⟩

end Strays

section Twice

variable {rest : Text}

theorem not_prefix_of_no_pair (hpair : ∀ others, c = '\r' → rest = '\n' :: others → False) :
    ¬ ['\r', '\n'] <+: c :: rest := by
  rintro ⟨others, heq⟩
  obtain ⟨rfl, rfl⟩ := List.cons.inj heq
  exact hpair others rfl rfl

/-- A pass leaves a text as it is where no carriage return stands before a line feed. -/
theorem unixLines_eq_self_iff (t : Text) : unixLines t = t ↔ ¬ ['\r', '\n'] <:+: t := by
  fun_induction unixLines t with
  | case1 => simp
  | case2 rest ih => simp [List.infix_cons_iff]
  | case3 c rest hpair ih =>
      rw [List.cons_inj_right, ih, List.infix_cons_iff, or_iff_right (not_prefix_of_no_pair hpair)]

/-- A line feed comes first after a pass if it came first before, or behind a carriage
return. -/
theorem lineFeed_prefix_unixLines (t : Text) :
    ['\n'] <+: unixLines t ↔ ['\n'] <+: t ∨ ['\r', '\n'] <+: t := by
  fun_cases unixLines t with
  | case1 => simp
  | case2 rest => simp [List.cons_prefix_cons]
  | case3 c rest hpair =>
      rw [or_iff_left (not_prefix_of_no_pair hpair)]
      simp [List.cons_prefix_cons]

/-- After a pass, a carriage return stands before a line feed where there were two. -/
theorem pair_infix_unixLines (t : Text) :
    ['\r', '\n'] <:+: unixLines t ↔ ['\r', '\r', '\n'] <:+: t := by
  fun_induction unixLines t with
  | case1 => simp
  | case2 rest ih => simp [List.infix_cons_iff, List.cons_prefix_cons, ih]
  | case3 c rest hpair ih =>
      have hfeed : '\r' = c → ¬ ['\n'] <+: rest := by
        rintro rfl ⟨others, rfl⟩
        exact hpair others rfl rfl
      rw [List.infix_cons_iff, List.infix_cons_iff, ih, List.cons_prefix_cons,
        List.cons_prefix_cons, lineFeed_prefix_unixLines]
      exact or_congr_left (and_congr_right fun hc => or_iff_right (hfeed hc))

theorem unixLines_unixLines_iff (t : Text) :
    unixLines (unixLines t) = unixLines t ↔ ¬ ['\r', '\r', '\n'] <:+: t := by
  rw [unixLines_eq_self_iff, pair_infix_unixLines]

end Twice

end Text
end Typings
