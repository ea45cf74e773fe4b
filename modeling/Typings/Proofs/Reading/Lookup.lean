import Typings.Declaration.Lookup
import Typings.Proofs.Reading.Collected
import Typings.Proofs.Reading.Comments
import Typings.Proofs.Text.Offsets

/-!
# Looking comments up

Comments are looked up in a range of positions or of offsets in bytes.  Halving finds the two
borders of the range among the comments, and at most the last comment between them runs past the
end of the range.  What is found is what a filter of all comments gives.

**Ranges.**  A range is any pair of offsets.  It can be inverted, lie behind the end of the text,
or begin and end inside of characters and comments.

**Bytes.**  Rounding a range to positions neither loses a comment of it nor adds one, since every
comment begins and ends between two characters.
-/

namespace Typings

open Syntax

namespace Search

variable {α : Type} {p : α → Bool} {xs : Array α}

/-- Halving stays inside the stretch that it began with. -/
theorem partitionBetween_le {fuel low high : Nat} (h : low ≤ high) :
    partitionBetween p xs fuel low high ≤ high := by
  induction fuel generalizing low high with
  | zero => exact h
  | succ fuel ih =>
      simp only [partitionBetween]
      split
      · rename_i hlt
        split
        · split
          · exact ih (by omega)
          · exact Nat.le_trans (ih (by omega)) (by omega)
        · exact h
      · exact h

/-- A border is never past the end, whatever the condition. -/
theorem partitionPoint_le_size : partitionPoint p xs ≤ xs.size :=
  partitionBetween_le (Nat.zero_le _)

end Search

/-- A span lies inside a range if it starts and ends in it. -/
def Span.Inside (span range : Span) : Prop :=
  range.start ≤ span.start ∧ span.stop ≤ range.stop

instance (span range : Span) : Decidable (span.Inside range) :=
  inferInstanceAs (Decidable (_ ∧ _))

theorem InOrder.filter {lo hi : Nat} {spans : List Span} (h : InOrder lo spans hi)
    (p : Span → Bool) : InOrder lo (spans.filter p) hi :=
  .of_pairwise h.le (h.pairwise_stop_le.filter p) fun _ hmem =>
    h.bounds (List.mem_of_mem_filter hmem)

/-- Of spans that follow one another, the last one ends last. -/
theorem InOrder.getLast?_eq_some_iff {lo hi : Nat} {spans : List Span} {span : Span}
    (h : InOrder lo spans hi) :
    spans.getLast? = some span ↔ span ∈ spans ∧ ∀ other ∈ spans, other.stop ≤ span.stop := by
  constructor
  · intro hlast
    obtain ⟨others, rfl⟩ := List.getLast?_eq_some_iff.mp hlast
    refine ⟨by simp, fun other hmem => ?_⟩
    rcases List.mem_append.mp hmem with hearlier | hlater
    · have hbefore := (List.pairwise_append.mp h.pairwise_stop_le).2.2 other hearlier span (by simp)
      have hlt := (h.bounds (List.mem_append_right others (List.mem_singleton_self span))).2.1
      omega
    · rw [List.mem_singleton.mp hlater]
  · rintro ⟨hmem, hmax⟩
    refine getLast?_of_pairwise h.pairwise_stop_le hmem fun other hother hafter => ?_
    have hlt := (h.bounds hother).2.1
    have hle := hmax other hother
    omega

namespace ReadText

variable {r : ReadText}

/-- The spans of the comments in bytes, in the order in which they were collected. -/
def byteSpans (r : ReadText) : List Span :=
  r.spans.map r.byteSpan

/-- How many comments start before a position, as found by halving. -/
def border (r : ReadText) (position : Nat) : Nat :=
  Search.partitionPoint (fun c => c.span.start < position) r.comments

/-- The comment is the one of the range that ends last. -/
structure EndsLast (r : ReadText) (range span : Span) : Prop where
  mem : span ∈ r.byteSpans
  inside : span.Inside range
  last : ∀ other ∈ r.byteSpans, other.Inside range → other.stop ≤ span.stop

/-- Spans that follow one another do so in bytes as well. -/
theorem inOrder_byteSpan {lo hi : Nat} {spans : List Span} (h : InOrder lo spans hi)
    (hhi : hi ≤ r.chars.length) :
    InOrder (Text.byteOffset r.chars lo) (spans.map r.byteSpan) (Text.byteOffset r.chars hi) := by
  induction h with
  | nil hle => exact .nil (Text.byteOffset_le_byteOffset hle hhi)
  | cons hstart hlt hrest ih =>
      have hstop := Nat.le_trans hrest.le hhi
      exact .cons (Text.byteOffset_le_byteOffset hstart (by omega))
        (Text.byteOffset_lt_byteOffset hlt hstop) (ih hhi)

theorem Collected.inOrder_byteSpans (h : r.Collected) :
    InOrder 0 r.byteSpans (Text.byteOffset r.chars r.chars.length) :=
  inOrder_byteSpan h.inOrder (Nat.le_refl _)

/-- A comment is in the rounded range exactly if its offsets are in the range. -/
theorem inside_innerSpan (h : r.Collected) (range : Span) {span : Span} (hmem : span ∈ r.spans) :
    span.Inside (r.innerSpan range) ↔ (r.byteSpan span).Inside range := by
  have hlt := h.nonempty span hmem
  have hstop := h.inside span hmem
  simp only [Span.Inside, innerSpan, byteSpan]
  rw [Text.positionAfter_le_iff (by omega), Text.le_positionBefore_iff hstop]

theorem commentsWithin_eq (h : r.Collected) (range : Span) :
    r.commentsWithin range = r.spans.filter fun span => span.Inside range := by
  rw [commentsWithin_eq_filter h.inOrder]
  refine List.filter_congr fun span _ => ?_
  rw [← Bool.decide_and]
  exact decide_eq_decide.mpr and_comm

theorem commentsBetween_eq (h : r.Collected) (range : Span) :
    r.commentsBetween range = r.byteSpans.filter fun span => span.Inside range := by
  rw [commentsBetween, commentsWithin_eq h, byteSpans, List.filter_map]
  refine congrArg _ (List.filter_congr fun span hmem => ?_)
  simp only [Function.comp_apply, inside_innerSpan h range hmem]

/-- The comment that is significant in a known gap is the one that ends last. -/
theorem significantAt_eq_some_iff (h : r.Collected) {offset : Nat} {range span : Span} :
    r.significantAt offset (some range) = some span ↔ r.EndsLast range span := by
  rw [significantAt, commentsBetween_eq h,
    (h.inOrder_byteSpans.filter _).getLast?_eq_some_iff]
  simp only [List.mem_filter, decide_eq_true_eq]
  constructor
  · rintro ⟨⟨hmem, hinside⟩, hlast⟩
    exact ⟨hmem, hinside, fun other hother hin => hlast other ⟨hother, hin⟩⟩
  · rintro ⟨hmem, hinside, hlast⟩
    exact ⟨⟨hmem, hinside⟩, fun other hother => hlast other hother.1 hother.2⟩

/-- Looking comments up by halving gives what a filter of all comments gives: the comments that
start and end in the range, in their order.  The borders that are found are those of a stretch of
the comments, for every range.  In a known gap the significant comment is the one that ends last,
and there is none exactly if no comment is in the gap. -/
theorem lookup_eq_filter (h : r.Collected) :
    (∀ range, r.commentsWithin range = r.spans.filter fun span => span.Inside range) ∧
      (∀ range, r.commentsBetween range = r.byteSpans.filter fun span => span.Inside range) ∧
      (∀ range : Span,
        r.border range.start ≤ max (r.border range.stop) (r.border range.start) ∧
          max (r.border range.stop) (r.border range.start) ≤ r.comments.size) ∧
      (∀ offset range span,
        r.significantAt offset (some range) = some span ↔ r.EndsLast range span) ∧
      ∀ offset range, r.significantAt offset (some range) = none ↔
        ∀ span ∈ r.byteSpans, ¬ span.Inside range := by
  refine ⟨commentsWithin_eq h, commentsBetween_eq h, fun range => ?_,
    fun _ _ _ => significantAt_eq_some_iff h, fun offset range => ?_⟩
  · exact ⟨Nat.le_max_right _ _,
      Nat.max_le.mpr ⟨Search.partitionPoint_le_size, Search.partitionPoint_le_size⟩⟩
  · rw [significantAt, commentsBetween_eq h, List.getLast?_eq_none_iff, List.filter_eq_nil_iff]
    simp only [decide_eq_true_eq]

/-- Lookups in a text whose first comment holds a character of two bytes: all comments, those
from inside of the first one on, and an inverted range. -/
theorem lookup_eq_filter_accented :
    ∃ r, ofText? 0 commentedText = some r ∧ r.Collected ∧
      r.byteSpans = [⟨0, 6⟩, ⟨7, 12⟩, ⟨15, 22⟩] ∧
      r.commentsBetween ⟨0, 100⟩ = [⟨0, 6⟩, ⟨7, 12⟩, ⟨15, 22⟩] ∧
      r.commentsBetween ⟨3, 21⟩ = [⟨7, 12⟩] ∧ r.commentsBetween ⟨12, 6⟩ = [] ∧
      r.significantAt 13 (some ⟨6, 13⟩) = some ⟨7, 12⟩ := by
  have hfound : (ofText? 0 commentedText).map byteSpans = some [⟨0, 6⟩, ⟨7, 12⟩, ⟨15, 22⟩] := by
    decide +kernel
  obtain ⟨r, hread, hspans⟩ := Option.map_eq_some_iff.mp hfound
  have hcollected := collected_of_ofText? hread
  obtain ⟨-, hbetween, -, hsignificant, -⟩ := lookup_eq_filter hcollected
  refine ⟨_, hread, hcollected, hspans, ?_, ?_, ?_, (hsignificant _ _ _).mpr ?_⟩
  · rw [hbetween, hspans]
    decide
  · rw [hbetween, hspans]
    decide
  · rw [hbetween, hspans]
    decide
  · constructor
    · simp [hspans]
    · decide
    · rw [hspans]
      decide

end ReadText

end Typings
