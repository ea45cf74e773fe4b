import Typings.Declaration.Reading
import Typings.Proofs.Reading.Gap

/-!
# Comments inside a span

The comments of a text stand in order, so that those that start before a position come
before all others, and halving finds where they end.  So the comments inside a span are
those that start and end in it.
-/

namespace Typings

namespace Search

variable {α : Type} {p q : α → Bool} {xs : Array α}

/-- `k` is the border between what satisfies `p` and what does not. -/
def IsBorder (p : α → Bool) (xs : Array α) (k : Nat) : Prop :=
  ∀ i (h : i < xs.size), p xs[i] = decide (i < k)

/-- Halving keeps the border between its two ends. -/
theorem isBorder_partitionBetween {fuel low high k : Nat} (hborder : IsBorder p xs k)
    (hlow : low ≤ k) (hhigh : k ≤ high) (hsize : high ≤ xs.size) (hfuel : high - low ≤ fuel) :
    partitionBetween p xs fuel low high = k := by
  induction fuel generalizing low high with
  | zero => simp only [partitionBetween]; omega
  | succ fuel ih =>
      simp only [partitionBetween]
      split
      · rename_i hlt
        have hmiddle : (low + high) / 2 < xs.size := by omega
        rw [Array.getElem?_eq_getElem hmiddle]
        simp only [hborder _ hmiddle, decide_eq_true_eq]
        split
        · exact ih (by omega) hhigh hsize (by omega)
        · exact ih hlow (by omega) (by omega) (by omega)
      · omega

/-- The border is found. -/
theorem partitionPoint_eq {k : Nat} (hborder : IsBorder p xs k) (hk : k ≤ xs.size) :
    partitionPoint p xs = k :=
  isBorder_partitionBetween hborder (Nat.zero_le _) hk (Nat.le_refl _) (by omega)

/-- In a list in which nothing that satisfies `p` comes after something that does not, what
satisfies it is what comes first. -/
theorem getElem_takeWhile {l : List α} (h : l.Pairwise fun a b => p b → p a) (i : Nat)
    (hi : i < l.length) : p l[i] = decide (i < (l.takeWhile p).length) := by
  induction l generalizing i with
  | nil => simp at hi
  | cons a rest ih =>
      obtain ⟨hfirst, hrest⟩ := List.pairwise_cons.mp h
      by_cases ha : p a = true
      · cases i with
        | zero => simp [ha]
        | succ i =>
            simp only [List.length_cons, Nat.add_lt_add_iff_right] at hi
            simpa [ha] using ih hrest i hi
      · cases i with
        | zero => simp [ha]
        | succ i =>
            simp only [List.length_cons, Nat.add_lt_add_iff_right] at hi
            have hnot : ¬ p rest[i] = true := fun hp => ha (hfirst _ (List.getElem_mem hi) hp)
            simp [ha, hnot]

/-- What comes first and what comes after it, told apart by `p` alone. -/
theorem takeWhile_eq_filter {l : List α} (h : l.Pairwise fun a b => p b → p a) :
    l.takeWhile p = l.filter p ∧ l.dropWhile p = l.filter fun a => !p a := by
  induction l with
  | nil => exact ⟨rfl, rfl⟩
  | cons a rest ih =>
      obtain ⟨hfirst, hrest⟩ := List.pairwise_cons.mp h
      obtain ⟨htake, hdrop⟩ := ih hrest
      cases ha : p a with
      | true => simp [ha, htake, hdrop]
      | false =>
          have hnone : ∀ b ∈ rest, p b = false := by
            intro b hb
            cases hp : p b with
            | false => rfl
            | true => simp [hfirst b hb hp] at ha
          have hkeep : rest.filter (fun b => !p b) = rest :=
            List.filter_eq_self.mpr fun b hb => by simp [hnone b hb]
          have hleave : rest.filter p = [] :=
            List.filter_eq_nil_iff.mpr fun b hb => by simp [hnone b hb]
          simp [ha, hkeep, hleave]

/-- The border parts what satisfies `p` from what does not. -/
theorem take_partitionPoint (h : xs.toList.Pairwise fun a b => p b → p a) :
    xs.toList.take (partitionPoint p xs) = xs.toList.filter p ∧
      xs.toList.drop (partitionPoint p xs) = xs.toList.filter fun a => !p a := by
  have hopens := List.takeWhile_prefix (l := xs.toList) p
  have hborder : IsBorder p xs (xs.toList.takeWhile p).length :=
    fun i hi => getElem_takeWhile h i hi
  obtain ⟨htake, hdrop⟩ := takeWhile_eq_filter h
  rw [partitionPoint_eq hborder hopens.length_le, ← htake, ← hdrop]
  have hsplit : xs.toList.takeWhile p ++ xs.toList.dropWhile p = xs.toList :=
    List.takeWhile_append_dropWhile
  constructor
  · exact (List.prefix_iff_eq_take.mp hopens).symm
  · have hleft : (xs.toList.takeWhile p ++ xs.toList.dropWhile p).drop
        (xs.toList.takeWhile p).length = xs.toList.dropWhile p := List.drop_left
    rwa [hsplit] at hleft

/-- What stands between two borders satisfies the second condition, but not the first. -/
theorem extract_partitionPoint (hp : xs.toList.Pairwise fun a b => p b → p a)
    (hq : xs.toList.Pairwise fun a b => q b → q a) :
    (xs.extract (partitionPoint p xs) (max (partitionPoint q xs) (partitionPoint p xs))).toList =
      xs.toList.filter fun a => !p a && q a := by
  obtain ⟨htake, hdrop⟩ := take_partitionPoint hp
  have hnext := (take_partitionPoint hq).1
  generalize partitionPoint p xs = first at *
  generalize partitionPoint q xs = last at *
  have hbefore : (xs.toList.take first).filter (fun a => !p a) = [] := by
    rw [htake, List.filter_eq_nil_iff]
    simp
  rw [Array.toList_extract, List.extract_eq_take_drop, ← List.filter_filter, ← hnext]
  rcases Nat.le_total first last with hle | hle
  · -- The first stretch is left out, and nothing is left out of the second one.
    have hbehind : ((xs.toList.drop first).take (last - first)).filter (fun a => !p a) =
        (xs.toList.drop first).take (last - first) := by
      refine List.filter_eq_self.mpr fun a ha => ?_
      have hmem := List.take_subset _ _ ha
      rw [hdrop] at hmem
      exact (List.mem_filter.mp hmem).2
    have hsplit : xs.toList.take last =
        xs.toList.take first ++ (xs.toList.drop first).take (last - first) := by
      rw [← List.take_add, Nat.add_sub_cancel' hle]
    rw [Nat.max_eq_left hle, hsplit, List.filter_append, hbefore, List.nil_append, hbehind]
  · have hsub := (List.take_sublist_take_left (l := xs.toList) hle).filter fun a => !p a
    rw [hbefore] at hsub
    rw [Nat.max_eq_right hle, Nat.sub_self, List.take_zero, List.sublist_nil.mp hsub]

end Search

namespace ReadText

open Syntax

variable {r : ReadText} {hi : Nat}

/-- Comments that stand in order are parted by where they start. -/
theorem pairwise_start_lt (h : InOrder 0 (r.comments.toList.map Comment.span) hi) (position : Nat) :
    r.comments.toList.Pairwise fun a b =>
      decide (b.span.start < position) → decide (a.span.start < position) := by
  refine (List.pairwise_map.mp h.pairwise).imp fun hlt hb => ?_
  simp only [decide_eq_true_eq] at hb ⊢
  omega

/-- Of spans that follow one another and start in front of a position, only the last one can end
behind it. -/
theorem filter_stop_le {others : List Span} {last : Span} {stop : Nat}
    (h : (others ++ [last]).Pairwise fun a b => a.stop ≤ b.start) (hlast : last.start < stop) :
    (others ++ [last]).filter (fun span => decide (span.stop ≤ stop)) =
      if stop < last.stop then others else others ++ [last] := by
  have hothers : others.filter (fun span => decide (span.stop ≤ stop)) = others := by
    refine List.filter_eq_self.mpr fun span hmem => ?_
    have hbefore := (List.pairwise_append.mp h).2.2 span hmem last (List.mem_singleton_self _)
    simp only [decide_eq_true_eq]
    omega
  rw [List.filter_append, hothers]
  split
  · rename_i hbehind
    simp [Nat.not_le.mpr hbehind]
  · rename_i hinside
    simp [Nat.not_lt.mp hinside]

/-- The comments inside a span are those that start and end in it. -/
theorem commentsWithin_eq_filter (h : InOrder 0 (r.comments.toList.map Comment.span) hi)
    (range : Span) :
    r.commentsWithin range = (r.comments.toList.map Comment.span).filter fun span =>
      decide (span.stop ≤ range.stop) && decide (range.start ≤ span.start) := by
  have hfound : ((r.comments.extract
        (Search.partitionPoint (fun c => c.span.start < range.start) r.comments)
        (max (Search.partitionPoint (fun c => c.span.start < range.stop) r.comments)
          (Search.partitionPoint (fun c => c.span.start < range.start) r.comments))).toList).map
        Comment.span =
      (r.comments.toList.map Comment.span).filter fun span =>
        decide (range.start ≤ span.start) && decide (span.start < range.stop) := by
    rw [Search.extract_partitionPoint (pairwise_start_lt h _) (pairwise_start_lt h _),
      List.filter_map]
    congr 2
    funext comment
    simp only [Function.comp_apply, ← decide_not, Nat.not_lt]
  have hnarrow : (r.comments.toList.map Comment.span).filter (fun span =>
        decide (span.stop ≤ range.stop) && decide (range.start ≤ span.start)) =
      ((r.comments.toList.map Comment.span).filter fun span =>
        decide (range.start ≤ span.start) && decide (span.start < range.stop)).filter
          fun span => decide (span.stop ≤ range.stop) := by
    rw [List.filter_filter]
    refine List.filter_congr fun span hmem => ?_
    have hlt := (h.bounds hmem).2.1
    rw [Bool.eq_iff_iff]
    simp only [Bool.and_eq_true, decide_eq_true_eq]
    omega
  simp only [commentsWithin]
  rw [hnarrow, hfound]
  have horder := h.pairwise_stop_le.filter fun span =>
    decide (range.start ≤ span.start) && decide (span.start < range.stop)
  have hstart : ∀ span ∈ (r.comments.toList.map Comment.span).filter fun span =>
      decide (range.start ≤ span.start) && decide (span.start < range.stop),
      span.start < range.stop := by
    intro span hmem
    simpa using And.right (Bool.and_eq_true_iff.mp (List.mem_filter.mp hmem).2)
  generalize (r.comments.toList.map Comment.span).filter (fun span =>
    decide (range.start ≤ span.start) && decide (span.start < range.stop)) = found at *
  split
  · rename_i last hlast
    obtain ⟨others, rfl⟩ := List.getLast?_eq_some_iff.mp hlast
    rw [filter_stop_le horder (hstart last (by simp)), List.dropLast_concat]
  · rename_i hnone
    rw [List.getLast?_eq_none_iff.mp hnone, List.filter_nil]

theorem mem_commentsWithin (h : InOrder 0 (r.comments.toList.map Comment.span) hi)
    {range span : Span} :
    span ∈ r.commentsWithin range ↔ span ∈ r.comments.toList.map Comment.span ∧
      range.start ≤ span.start ∧ span.stop ≤ range.stop := by
  rw [commentsWithin_eq_filter h, List.mem_filter, Bool.and_eq_true, decide_eq_true_eq,
    decide_eq_true_eq, and_comm (a := span.stop ≤ range.stop)]

/-- The comment that documents a node with a known gap stands in the gap. -/
theorem significantComment_some (h : InOrder 0 (r.comments.toList.map Comment.span) hi)
    {position : Nat} {gap span : Span}
    (hspan : r.significantComment position (some gap) = some span) :
    gap.start ≤ span.start ∧ span.start < span.stop ∧ span.start < gap.stop := by
  obtain ⟨hmem, hstart, hstop⟩ := (mem_commentsWithin h).mp (List.mem_of_getLast? hspan)
  have hlt := (h.bounds hmem).2.1
  exact ⟨hstart, hlt, Nat.lt_of_lt_of_le hlt hstop⟩

/-- Of spans in order, none starts behind the last one. -/
theorem start_le_getLast? {spans : List Span} {a last : Span}
    (h : spans.Pairwise fun a b => a.start < b.start) (hlast : spans.getLast? = some last)
    (ha : a ∈ spans) : a.start ≤ last.start := by
  obtain ⟨others, rfl⟩ := List.getLast?_eq_some_iff.mp hlast
  rcases List.mem_append.mp ha with hearlier | hlater
  · exact Nat.le_of_lt ((List.pairwise_append.mp h).2.2 a hearlier last (List.mem_singleton_self _))
  · exact Nat.le_of_eq (congrArg Span.start (List.mem_singleton.mp hlater))

/-- No comment that leads a token starts behind the last one. -/
theorem start_le_of_getLast?_leading (h : InOrder 0 (r.comments.toList.map Comment.span) hi)
    {position : Nat} {last comment : Comment}
    (hlast : (r.leadingComments position).getLast? = some last)
    (hmem : comment ∈ r.comments.toList) (hleads : comment.leads = some position) :
    comment.span.start ≤ last.span.start := by
  have hfound : comment ∈ r.leadingComments position := List.mem_filter.mpr ⟨hmem, by simp [hleads]⟩
  have horder : ((r.leadingComments position).map Comment.span).Pairwise
      fun a b => a.start < b.start := h.pairwise.sublist (List.filter_sublist.map _)
  refine start_le_getLast? horder ?_ (List.mem_map_of_mem hfound)
  rw [List.getLast?_map, hlast, Option.map_some]

/-- No comment inside a span starts behind the last one. -/
theorem start_le_of_getLast? (h : InOrder 0 (r.comments.toList.map Comment.span) hi)
    {range span last : Span} (hlast : (r.commentsWithin range).getLast? = some last)
    (hmem : span ∈ r.commentsWithin range) : span.start ≤ last.start := by
  rw [commentsWithin_eq_filter h] at hlast hmem
  exact start_le_getLast? (h.pairwise.filter _) hlast hmem

end ReadText

end Typings
