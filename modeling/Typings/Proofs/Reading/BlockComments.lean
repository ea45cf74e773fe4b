import Typings.Declaration.Lookup
import Typings.Proofs.Reading.Collected
import Typings.Proofs.Reading.Comments
import Typings.Proofs.Text.Offsets
import Mathlib.Order.Bounds.Defs

/-!
# Block comments in front of a position

The text of a parameter begins with the block comments right in front of it.  They are found by
walking back: over white space to the end of a block comment, to where that one starts, and on
from there.

**Progress.**  A block comment in front of a position starts before it, so that the walk comes to
an end, and the number of steps that it is allowed never runs out.

**Choice.**  The walk comes to the first position from which block comments and white space alone
reach up to where it began, among the starts of block comments.  Line comments end the walk, also
where they hold or end with a terminator.

**Bytes.**  An offset inside of a character, or past the end of the text, belongs to no position.
Nothing is in front of it.
-/

namespace Typings

open Syntax

namespace Text

variable {t : Text} {a b : Nat}

/-- Every character of a stretch of the text is blank. -/
def BlankBetween (t : Text) (a b : Nat) : Prop :=
  ∀ c ∈ slice t a b, isBlank c = true

theorem blankBetween_self (t : Text) (a : Nat) : BlankBetween t a a := by
  rw [BlankBetween, slice_of_le t (Nat.le_refl a)]
  simp

/-- A stretch that is not empty begins with the character at its start. -/
theorem slice_eq_cons {c : Char} (hc : t[a]? = some c) (hlt : a < b) :
    slice t a b = c :: slice t (a + 1) b := by
  obtain ⟨hlength, rfl⟩ := List.getElem?_eq_some_iff.mp hc
  have hsize : b - a = (b - (a + 1)) + 1 := by omega
  rw [slice, slice, List.drop_eq_getElem_cons hlength, hsize, List.take_succ_cons]

/-- The text is a sequence of whole block comments and white space. -/
inductive IsCommentRun : Text → Prop
  | nil : IsCommentRun []
  | blank {c : Char} {rest : Text} :
      isBlank c = true → IsCommentRun rest → IsCommentRun (c :: rest)
  | comment {body rest : Text} :
      ¬ DocComment.terminator <:+: body → IsCommentRun rest →
      IsCommentRun ('/' :: '*' :: (body ++ DocComment.terminator) ++ rest)

end Text

namespace ReadText

variable {r : ReadText} {hi start : Nat} {comment : Comment}

section Steps

/-- Where the text before a position ends, white space aside. -/
def visibleStop (r : ReadText) (start : Nat) : Nat :=
  (Text.trimEnd (if r.chars.length < start then [] else r.chars.take start)).length

theorem visibleStop_le (r : ReadText) (start : Nat) : r.visibleStop start ≤ start := by
  have hle := Text.length_trimEnd_le (if r.chars.length < start then [] else r.chars.take start)
  refine Nat.le_trans hle ?_
  split
  · exact Nat.zero_le _
  · exact List.length_take_le _ _

/-- The block comment before a position is the last of the comments that start before it, if
that one is a block comment and ends there. -/
theorem blockCommentBefore_eq (h : InOrder 0 r.spans hi) (start : Nat) :
    r.blockCommentBefore start =
      ((r.comments.toList.filter fun c => c.span.start < r.visibleStop start).getLast?).filter
        fun c => c.span.stop == r.visibleStop start && c.isBlock := by
  have htake := (Search.take_partitionPoint (pairwise_start_lt h (r.visibleStop start))).1
  rw [← htake]
  rfl

/-- A block comment before a position starts before it. -/
theorem start_lt_of_blockCommentBefore (h : InOrder 0 r.spans hi)
    (hcomment : r.blockCommentBefore start = some comment) : comment.span.start < start := by
  rw [blockCommentBefore_eq h] at hcomment
  have hmem := List.mem_of_getLast? (Option.filter_eq_some_iff.mp hcomment).1
  have hstart : comment.span.start < r.visibleStop start := by
    simpa using (List.mem_filter.mp hmem).2
  exact Nat.lt_of_lt_of_le hstart (r.visibleStop_le start)

theorem blockCommentBefore_zero (h : InOrder 0 r.spans hi) : r.blockCommentBefore 0 = none := by
  cases hcomment : r.blockCommentBefore 0 with
  | none => rfl
  | some comment => exact absurd (start_lt_of_blockCommentBefore h hcomment) (Nat.not_lt_zero _)

/-- As many steps as there are characters before the position are enough. -/
theorem extendUpTo_eq (h : InOrder 0 r.spans hi) {fuel : Nat} (hfuel : start ≤ fuel) :
    r.extendUpTo fuel start = r.extendOverBlockComments start := by
  suffices hsame : ∀ fuel fuel' start, start ≤ fuel → start ≤ fuel' →
      r.extendUpTo fuel start = r.extendUpTo fuel' start from
    hsame _ _ _ hfuel (Nat.le_refl _)
  intro fuel
  induction fuel with
  | zero =>
      intro fuel' start hfuel hfuel'
      obtain rfl := Nat.le_zero.mp hfuel
      cases fuel' with
      | zero => rfl
      | succ fuel' => simp only [extendUpTo, blockCommentBefore_zero h]
  | succ fuel ih =>
      intro fuel' start hfuel hfuel'
      cases fuel' with
      | zero =>
          obtain rfl := Nat.le_zero.mp hfuel'
          simp only [extendUpTo, blockCommentBefore_zero h]
      | succ fuel' =>
          simp only [extendUpTo]
          cases hcomment : r.blockCommentBefore start with
          | none => rfl
          | some comment =>
              have hlt := start_lt_of_blockCommentBefore h hcomment
              exact ih _ _ (by omega) (by omega)

/-- The walk ends where no block comment is in front. -/
theorem extendOverBlockComments_of_none (hnone : r.blockCommentBefore start = none) :
    r.extendOverBlockComments start = start := by
  cases start with
  | zero => rfl
  | succ start => simp only [extendOverBlockComments, extendUpTo, hnone]

/-- The walk goes on from where the block comment in front starts. -/
theorem extendOverBlockComments_of_some (h : InOrder 0 r.spans hi)
    (hcomment : r.blockCommentBefore start = some comment) :
    r.extendOverBlockComments start = r.extendOverBlockComments comment.span.start := by
  have hlt := start_lt_of_blockCommentBefore h hcomment
  obtain ⟨fuel, rfl⟩ := Nat.exists_eq_add_one_of_ne_zero (Nat.ne_zero_of_lt hlt)
  rw [extendOverBlockComments]
  simp only [extendUpTo, hcomment]
  exact extendUpTo_eq h (by omega)

end Steps

section Visible

/-- Between the visible end of the text before a position and the position stands white space. -/
theorem blankBetween_visibleStop (hstart : start ≤ r.chars.length) :
    Text.BlankBetween r.chars (r.visibleStop start) start := by
  obtain ⟨blanks, hbefore, hblanks⟩ := Text.exists_trimEnd_append (r.chars.take start)
  have hstop : r.visibleStop start = (Text.trimEnd (r.chars.take start)).length := by
    rw [visibleStop, if_neg (Nat.not_lt.mpr hstart)]
  have hslice : Text.slice r.chars (r.visibleStop start) start = blanks := by
    rw [Text.slice, ← List.drop_take, hstop]
    exact (congrArg (List.drop _) hbefore).trans List.drop_left
  intro c hc
  exact hblanks c (hslice ▸ hc)

/-- A block comment with white space behind it ends where the visible text does. -/
theorem visibleStop_eq {span : Span} (hwritten : WrittenAt r.chars span true)
    (hstop : span.stop ≤ start) (hstart : start ≤ r.chars.length)
    (hblank : Text.BlankBetween r.chars span.stop start) :
    r.visibleStop start = span.stop := by
  obtain ⟨body, hslice, -⟩ := hwritten.exists_body
  have hle : span.start ≤ span.stop := by
    by_contra hgt
    simp [Text.slice_of_le _ (Nat.le_of_not_le hgt)] at hslice
  have htake : ∀ {a b}, a ≤ b → r.chars.take b = r.chars.take a ++ Text.slice r.chars a b := by
    intro a b hab
    simpa [Text.slice] using (Text.slice_append_slice r.chars (Nat.zero_le a) hab).symm
  -- The last character of the comment is a slash, and all that stands behind it is blank.
  have hlast : r.chars.take span.stop =
      (r.chars.take span.start ++ '/' :: '*' :: (body ++ ['*'])) ++ ['/'] := by
    rw [htake hle, hslice]
    simp [DocComment.terminator]
  have htrim : Text.trimEnd (r.chars.take start) = r.chars.take span.stop := by
    rw [htake hstop, Text.trimEnd_append_of_eq_nil (Text.trimEnd_eq_nil hblank), hlast]
    exact Text.trimEnd_concat DocComment.isBlank_slash _
  rw [visibleStop, if_neg (Nat.not_lt.mpr hstart), htrim, List.length_take]
  omega

/-- The block comment before a position is the one with nothing but white space between it and
the position. -/
theorem blockCommentBefore_eq_some_iff (h : r.Collected) (hwritten : r.Written)
    (hstart : start ≤ r.chars.length) :
    r.blockCommentBefore start = some comment ↔
      comment ∈ r.comments.toList ∧ comment.isBlock = true ∧ comment.span.stop ≤ start ∧
        Text.BlankBetween r.chars comment.span.stop start := by
  rw [blockCommentBefore_eq h.inOrder, Option.filter_eq_some_iff, Bool.and_eq_true, beq_iff_eq]
  constructor
  · rintro ⟨hlast, hstop, hblock⟩
    have hmem := List.mem_of_mem_filter (List.mem_of_getLast? hlast)
    refine ⟨hmem, hblock, ?_, ?_⟩
    · rw [hstop]
      exact r.visibleStop_le start
    · rw [hstop]
      exact blankBetween_visibleStop hstart
  · rintro ⟨hmem, hblock, hstop, hblank⟩
    have hvisible := visibleStop_eq (hblock ▸ hwritten comment hmem) hstop hstart hblank
    refine ⟨?_, hvisible.symm, hblock⟩
    have hlt := h.nonempty comment.span (List.mem_map_of_mem hmem)
    have horder := List.pairwise_map.mp h.inOrder.pairwise_stop_le
    refine getLast?_of_pairwise (horder.filter _) ?_ fun other hother hafter => ?_
    · exact List.mem_filter.mpr ⟨hmem, by simpa [hvisible] using hlt⟩
    · -- A comment that starts before the visible end does not start behind this one.
      have hbefore : other.span.start < r.visibleStop start := by
        simpa using (List.mem_filter.mp hother).2
      omega

end Visible

section Walk

/-- Block comments and white space reach from one position to another. -/
inductive Filled (r : ReadText) : Nat → Nat → Prop
  | done {position : Nat} : Filled r position position
  | blank {front back : Nat} {c : Char} : r.chars[front]? = some c → isBlank c = true →
      Filled r (front + 1) back → Filled r front back
  | comment {comment : Comment} {back : Nat} : comment ∈ r.comments.toList →
      comment.isBlock = true → Filled r comment.span.stop back →
      Filled r comment.span.start back

namespace Filled

variable {a b c : Nat}

theorem trans (hab : r.Filled a b) (hbc : r.Filled b c) : r.Filled a c := by
  induction hab with
  | done => exact hbc
  | blank hchar hblank _ ih => exact .blank hchar hblank (ih hbc)
  | comment hmem hblock _ ih => exact .comment hmem hblock (ih hbc)

theorem of_blankBetween (hle : a ≤ b) (hb : b ≤ r.chars.length)
    (hblank : Text.BlankBetween r.chars a b) : r.Filled a b := by
  obtain ⟨size, rfl⟩ := Nat.exists_eq_add_of_le hle
  induction size generalizing a with
  | zero => exact .done
  | succ size ih =>
      have hchar := List.getElem?_eq_getElem (l := r.chars) (i := a) (by omega)
      have hslice := Text.slice_eq_cons hchar (b := a + (size + 1)) (by omega)
      rw [Text.BlankBetween, hslice, List.forall_mem_cons] at hblank
      refine .blank hchar hblank.1 ?_
      have hnext : a + (size + 1) = a + 1 + size := by omega
      rw [hnext] at hb hblank ⊢
      exact ih (Nat.le_add_right _ _) hb hblank.2

theorem le (h : r.Collected) (hfilled : r.Filled a b) : a ≤ b := by
  induction hfilled with
  | done => exact Nat.le_refl _
  | blank _ _ _ ih => exact Nat.le_of_succ_le ih
  | comment hmem _ _ ih =>
      have hlt := h.nonempty _ (List.mem_map_of_mem hmem)
      omega

/-- The text between two positions is a sequence of whole block comments and white space. -/
theorem isCommentRun (h : r.Collected) (hwritten : r.Written) (hfilled : r.Filled a b) :
    Text.IsCommentRun (Text.slice r.chars a b) := by
  induction hfilled with
  | done =>
      rw [Text.slice_of_le _ (Nat.le_refl _)]
      exact .nil
  | blank hchar hblank hrest ih =>
      rw [Text.slice_eq_cons hchar (hrest.le h)]
      exact .blank hblank ih
  | @comment comment back hmem hblock hrest ih =>
      have hlt := h.nonempty _ (List.mem_map_of_mem hmem)
      obtain ⟨body, hslice, hbody⟩ := (hblock ▸ hwritten comment hmem).exists_body
      rw [← Text.slice_append_slice r.chars (Nat.le_of_lt hlt) (hrest.le h), hslice]
      exact .comment hbody ih

/-- From where block comments and white space reach up to a position, white space leads to where
the walk from that position passes by. -/
theorem exists_passed (h : r.Collected) (hwritten : r.Written) (hfilled : r.Filled a b)
    (hb : b ≤ r.chars.length) :
    ∃ passed, a ≤ passed ∧ passed ≤ r.chars.length ∧ Text.BlankBetween r.chars a passed ∧
      r.extendOverBlockComments passed = r.extendOverBlockComments b := by
  induction hfilled with
  | @done position => exact ⟨position, Nat.le_refl _, hb, Text.blankBetween_self _ _, rfl⟩
  | blank hchar hblank hrest ih =>
      obtain ⟨passed, hle, hlength, hmore, hsame⟩ := ih hb
      refine ⟨passed, Nat.le_of_succ_le hle, hlength, ?_, hsame⟩
      rw [Text.BlankBetween, Text.slice_eq_cons hchar hle, List.forall_mem_cons]
      exact ⟨hblank, hmore⟩
  | @comment comment back hmem hblock hrest ih =>
      obtain ⟨passed, hle, hlength, hblank, hsame⟩ := ih hb
      have hlt := h.nonempty _ (List.mem_map_of_mem hmem)
      have hbefore := (blockCommentBefore_eq_some_iff h hwritten hlength).mpr
        ⟨hmem, hblock, hle, hblank⟩
      refine ⟨comment.span.start, Nat.le_refl _, by omega, Text.blankBetween_self _ _, ?_⟩
      rw [← hsame, extendOverBlockComments_of_some h.inOrder hbefore]

end Filled

/-- Where a walk over block comments can end. -/
def StartsWalk (r : ReadText) (start front : Nat) : Prop :=
  front = start ∨ ∃ comment ∈ r.comments.toList, comment.isBlock = true ∧
    comment.span.start = front

/-- What holds where a walk ends: block comments and white space were passed over, the last thing
passed over was a block comment, and none is in front. -/
theorem extendOverBlockComments_spec (h : r.Collected) (hwritten : r.Written)
    (hstart : start ≤ r.chars.length) :
    r.Filled (r.extendOverBlockComments start) start ∧
      r.StartsWalk start (r.extendOverBlockComments start) ∧
      r.blockCommentBefore (r.extendOverBlockComments start) = none := by
  induction start using Nat.strongRecOn with
  | ind start ih =>
      cases hcomment : r.blockCommentBefore start with
      | none =>
          rw [extendOverBlockComments_of_none hcomment]
          exact ⟨.done, .inl rfl, hcomment⟩
      | some comment =>
          have hlt := start_lt_of_blockCommentBefore h.inOrder hcomment
          obtain ⟨hmem, hblock, hstop, hblank⟩ :=
            (blockCommentBefore_eq_some_iff h hwritten hstart).mp hcomment
          obtain ⟨hfilled, hwalk, hnone⟩ := ih _ hlt (by omega)
          rw [extendOverBlockComments_of_some h.inOrder hcomment]
          refine ⟨hfilled.trans (.comment hmem hblock (.of_blankBetween hstop hstart hblank)),
            ?_, hnone⟩
          rcases hwalk with heq | hother
          · exact .inr ⟨comment, hmem, hblock, heq.symm⟩
          · exact .inr hother

theorem extendOverBlockComments_le (h : r.Collected) (hwritten : r.Written)
    (hstart : start ≤ r.chars.length) : r.extendOverBlockComments start ≤ start :=
  (extendOverBlockComments_spec h hwritten hstart).1.le h

/-- A walk goes as far as block comments and white space reach. -/
theorem extendOverBlockComments_le_of_filled (h : r.Collected) (hwritten : r.Written)
    (hstart : start ≤ r.chars.length) {front : Nat} (hfilled : r.Filled front start)
    (hwalk : r.StartsWalk start front) : r.extendOverBlockComments start ≤ front := by
  rcases hwalk with rfl | ⟨comment, hmem, hblock, rfl⟩
  · exact extendOverBlockComments_le h hwritten hstart
  · obtain ⟨passed, hle, hlength, hblank, hsame⟩ := hfilled.exists_passed h hwritten hstart
    rcases Nat.eq_or_lt_of_le hle with rfl | hlt
    · rw [← hsame]
      exact extendOverBlockComments_le h hwritten hlength
    · -- The slash at the start of a block comment is no white space.
      obtain ⟨body, hslice, -⟩ := (hblock ▸ hwritten comment hmem).exists_body
      have hslash : r.chars[comment.span.start]? = some '/' := by
        have hhead := congrArg List.head? hslice
        rw [Text.slice, List.head?_take, List.head?_drop] at hhead
        split at hhead
        · cases hhead
        · exact hhead
      have hfirst := hblank '/' (by rw [Text.slice_eq_cons hslash hlt]; simp)
      exact absurd hfirst (by decide)

end Walk

section Bytes

variable {offset : Nat}

/-- The block comment stands in front of the offset, with nothing but white space between. -/
structure Precedes (r : ReadText) (comment : Comment) (offset : Nat) : Prop where
  mem : comment ∈ r.comments.toList
  block : comment.isBlock = true
  blank : ∃ position, Text.position? r.chars offset = some position ∧
    comment.span.stop ≤ position ∧ Text.BlankBetween r.chars comment.span.stop position

/-- From `front` on, block comments and white space alone reach up to the offset.  The two are the
same, or a block comment starts at `front`. -/
structure FrontOf (r : ReadText) (offset front : Nat) : Prop where
  filled : front = offset ∨ ∃ a b, Text.position? r.chars front = some a ∧
    Text.position? r.chars offset = some b ∧ r.Filled a b
  start : front = offset ∨ ∃ comment ∈ r.comments.toList, comment.isBlock = true ∧
    (r.byteSpan comment.span).start = front

/-- What walking back from an offset is to find. -/
structure WalkedBack (r : ReadText) (offset front : Nat) : Prop where
  le : front ≤ offset
  isLeast : IsLeast {other | r.FrontOf offset other} front
  text : Text.IsCommentRun (r.textBetween ⟨front, offset⟩)
  ends : ∀ comment, ¬ r.Precedes comment front

theorem clampOffset_byteOffset {position : Nat} (h : position ≤ r.chars.length) :
    r.clampOffset (Text.byteOffset r.chars position) = Text.byteOffset r.chars position := by
  have hle := Text.byteOffset_le_byteOffset h (Nat.le_refl _)
  rw [clampOffset, byteSize, ← Text.byteOffset_length]
  exact Nat.min_eq_left hle

/-- The text between the offsets of two positions is the text between the positions. -/
theorem textBetween_byteOffset {a b : Nat} (ha : a ≤ r.chars.length) (hb : b ≤ r.chars.length) :
    r.textBetween ⟨Text.byteOffset r.chars a, Text.byteOffset r.chars b⟩ =
      Text.slice r.chars a b := by
  simp only [textBetween, clampOffset_byteOffset ha, clampOffset_byteOffset hb,
    Text.position?_byteOffset ha, Text.position?_byteOffset hb]

theorem textBetween_self (offset : Nat) : r.textBetween ⟨offset, offset⟩ = [] := by
  rw [textBetween]
  split
  · rename_i heq heq'
    rw [heq] at heq'
    rw [Option.some.inj heq', Text.slice_of_le _ (Nat.le_refl _)]
  · rfl

theorem extendBack_of_none (hnone : Text.position? r.chars offset = none) :
    r.extendBack offset = offset := by
  rw [extendBack, hnone]

theorem extendBack_byteOffset (hstart : start ≤ r.chars.length) :
    r.extendBack (Text.byteOffset r.chars start) =
      Text.byteOffset r.chars (r.extendOverBlockComments start) := by
  rw [extendBack, Text.position?_byteOffset hstart]

/-- Nothing is in front of an offset that belongs to no position. -/
theorem walkedBack_of_none (hnone : Text.position? r.chars offset = none) :
    r.WalkedBack offset offset where
  le := Nat.le_refl _
  isLeast := by
    refine ⟨⟨.inl rfl, .inl rfl⟩, fun other hother => ?_⟩
    rcases hother.filled with rfl | ⟨a, b, -, hoffset, -⟩
    · exact Nat.le_refl _
    · rw [hnone] at hoffset
      cases hoffset
  text := by
    rw [textBetween_self]
    exact .nil
  ends := by
    rintro comment ⟨-, -, position, hposition, -⟩
    rw [hnone] at hposition
    cases hposition

/-- Walking back from the offset of a position. -/
theorem walkedBack_of_position (h : r.Collected) (hwritten : r.Written)
    (hstart : start ≤ r.chars.length) :
    r.WalkedBack (Text.byteOffset r.chars start)
      (Text.byteOffset r.chars (r.extendOverBlockComments start)) := by
  obtain ⟨hfilled, hwalk, hnone⟩ := extendOverBlockComments_spec h hwritten hstart
  have hle := hfilled.le h
  have hfront := Nat.le_trans hle hstart
  constructor
  · exact Text.byteOffset_le_byteOffset hle hstart
  · refine ⟨⟨.inr ⟨_, _, Text.position?_byteOffset hfront, Text.position?_byteOffset hstart,
      hfilled⟩, ?_⟩, fun other hother => ?_⟩
    · rcases hwalk with heq | ⟨comment, hmem, hblock, heq⟩
      · exact .inl (congrArg _ heq)
      · exact .inr ⟨comment, hmem, hblock, congrArg (Text.byteOffset r.chars) heq⟩
    · rcases hother.filled with rfl | ⟨a, b, hother_position, hstart_position, hfilled_other⟩
      · exact Text.byteOffset_le_byteOffset hle hstart
      · obtain ⟨ha, rfl⟩ := Text.position?_eq_some_iff.mp hother_position
        obtain rfl : start = b := by
          rw [Text.position?_byteOffset hstart] at hstart_position
          exact Option.some.inj hstart_position
        have hwalk_other : r.StartsWalk start a := by
          rcases hother.start with heq | ⟨comment, hmem, hblock, heq⟩
          · exact .inl (Text.byteOffset_injOn ha hstart heq)
          · have hstop := h.inside _ (List.mem_map_of_mem hmem)
            have hlt := h.nonempty _ (List.mem_map_of_mem hmem)
            exact .inr ⟨comment, hmem, hblock, Text.byteOffset_injOn (by omega) ha heq⟩
        exact Text.byteOffset_le_byteOffset
          (extendOverBlockComments_le_of_filled h hwritten hstart hfilled_other hwalk_other) ha
  · rw [textBetween_byteOffset hfront hstart]
    exact hfilled.isCommentRun h hwritten
  · rintro comment ⟨hmem, hblock, position, hposition, hstop, hblank⟩
    rw [Text.position?_byteOffset hfront] at hposition
    obtain rfl := Option.some.inj hposition
    rw [(blockCommentBefore_eq_some_iff h hwritten hfront).mpr ⟨hmem, hblock, hstop, hblank⟩]
      at hnone
    cases hnone

/-- Walking back over block comments.  Each step goes from a position to an earlier one, and the
walk is what its steps make it.  From every offset it finds the least one from which block
comments and white space alone reach up to there, and from that one it goes no further. -/
theorem extendBack_walkedBack (h : r.Collected) (hwritten : r.Written) :
    (∀ start, r.extendOverBlockComments start =
        match r.blockCommentBefore start with
        | some comment => r.extendOverBlockComments comment.span.start
        | none => start) ∧
      (∀ start comment, r.blockCommentBefore start = some comment →
        comment.span.start < start) ∧
      (∀ offset, r.WalkedBack offset (r.extendBack offset)) ∧
      ∀ offset, r.extendBack (r.extendBack offset) = r.extendBack offset := by
  have hloop : ∀ start, r.extendOverBlockComments start =
      match r.blockCommentBefore start with
      | some comment => r.extendOverBlockComments comment.span.start
      | none => start := by
    intro start
    split
    · rename_i comment hcomment
      exact extendOverBlockComments_of_some h.inOrder hcomment
    · rename_i hnone
      exact extendOverBlockComments_of_none hnone
  refine ⟨hloop, fun start comment => start_lt_of_blockCommentBefore h.inOrder,
    fun offset => ?_, fun offset => ?_⟩
  · cases hposition : Text.position? r.chars offset with
    | none =>
        rw [extendBack_of_none hposition]
        exact walkedBack_of_none hposition
    | some start =>
        obtain ⟨hstart, rfl⟩ := Text.position?_eq_some_iff.mp hposition
        rw [extendBack_byteOffset hstart]
        exact walkedBack_of_position h hwritten hstart
  · cases hposition : Text.position? r.chars offset with
    | none => rw [extendBack_of_none hposition, extendBack_of_none hposition]
    | some start =>
        obtain ⟨hstart, rfl⟩ := Text.position?_eq_some_iff.mp hposition
        obtain ⟨hfilled, -, hnone⟩ := extendOverBlockComments_spec h hwritten hstart
        have hfront := Nat.le_trans (hfilled.le h) hstart
        rw [extendBack_byteOffset hstart, extendBack_byteOffset hfront,
          extendOverBlockComments_of_none hnone]

/-- Walks in a text with two block comments in front of a statement and a line comment that ends
like a block comment: from the statement, from behind the line comment, from inside of a character
and from past the end. -/
theorem extendBack_walkedBack_statement :
    ∃ r, ofText? 0 commentedText = some r ∧ r.Collected ∧ r.Written ∧
      r.WalkedBack 13 0 ∧ r.WalkedBack 22 22 ∧ r.WalkedBack 3 3 ∧ r.WalkedBack 100 100 ∧
      r.extendBack 0 = 0 := by
  have hfound : (ofText? 0 commentedText).map (fun r => [13, 22, 3, 100].map r.extendBack) =
      some [0, 22, 3, 100] := by decide +kernel
  obtain ⟨r, hread, hoffsets⟩ := Option.map_eq_some_iff.mp hfound
  simp only [List.map_cons, List.map_nil, List.cons.injEq, and_true] at hoffsets
  obtain ⟨hfrom, hline, hinside, hpast⟩ := hoffsets
  have hcollected := collected_of_ofText? hread
  have hwritten := written_of_ofText? hread
  obtain ⟨-, -, hwalk, hagain⟩ := extendBack_walkedBack hcollected hwritten
  refine ⟨_, hread, hcollected, hwritten, ?_, ?_, ?_, ?_, ?_⟩
  · simpa only [hfrom] using hwalk 13
  · simpa only [hline] using hwalk 22
  · simpa only [hinside] using hwalk 3
  · simpa only [hpast] using hwalk 100
  · simpa only [hfrom] using hagain 13

end Bytes

end ReadText

end Typings
