import Typings.Syntax.Gap

/-!
# What a gap holds

A gap is a stretch of spaces and comments.  Its reading stops at a character that is no
space, or at the end of the text, and the comments that it meets follow one another
without touching anything outside of the gap.

**Order.**  `InOrder lo spans hi` says that spans follow one another between two positions
and that none of them is empty.
-/

namespace Typings

/-- Spans that are not empty and follow one another from `lo` to `hi`. -/
inductive InOrder : Nat → List Span → Nat → Prop
  | nil {lo hi : Nat} : lo ≤ hi → InOrder lo [] hi
  | cons {lo hi : Nat} {span : Span} {rest : List Span} :
      lo ≤ span.start → span.start < span.stop → InOrder span.stop rest hi →
      InOrder lo (span :: rest) hi

namespace InOrder

variable {lo mid hi : Nat} {spans others : List Span}

theorem le (h : InOrder lo spans hi) : lo ≤ hi := by
  induction h with
  | nil hle => exact hle
  | cons hstart hlt _ ih => omega

theorem widen {lo' hi' : Nat} (h : InOrder lo spans hi) (hlo : lo' ≤ lo) (hhi : hi ≤ hi') :
    InOrder lo' spans hi' := by
  induction h generalizing lo' with
  | nil hle => exact .nil (by omega)
  | cons hstart hlt _ ih => exact .cons (by omega) hlt (ih (Nat.le_refl _) hhi)

theorem append (h : InOrder lo spans mid) (h' : InOrder mid others hi) :
    InOrder lo (spans ++ others) hi := by
  induction h with
  | nil hle => exact h'.widen hle (Nat.le_refl _)
  | cons hstart hlt _ ih => exact .cons hstart hlt (ih h')

/-- One more span at the end. -/
theorem concat (h : InOrder lo spans mid) (span : Span) (hstart : mid ≤ span.start)
    (hlt : span.start < span.stop) (hstop : span.stop ≤ hi) :
    InOrder lo (spans ++ [span]) hi :=
  h.append (.cons hstart hlt (.nil hstop))

theorem bounds {span : Span} (h : InOrder lo spans hi) (hmem : span ∈ spans) :
    lo ≤ span.start ∧ span.start < span.stop ∧ span.stop ≤ hi := by
  induction h with
  | nil hle => simp at hmem
  | cons hstart hlt hrest ih =>
      have hle := hrest.le
      rcases List.mem_cons.mp hmem with rfl | hmem
      · exact ⟨hstart, hlt, hle⟩
      · obtain ⟨h1, h2, h3⟩ := ih hmem
        exact ⟨by omega, h2, h3⟩

/-- Of two of the spans, the earlier one ends before the later one starts. -/
theorem pairwise_stop_le (h : InOrder lo spans hi) :
    spans.Pairwise fun a b => a.stop ≤ b.start := by
  induction h with
  | nil hle => exact List.Pairwise.nil
  | cons hstart hlt hrest ih => exact List.Pairwise.cons (fun b hb => (hrest.bounds hb).1) ih

/-- Of two of the spans, the earlier one starts first. -/
theorem pairwise (h : InOrder lo spans hi) :
    spans.Pairwise fun a b => a.start < b.start := by
  induction h with
  | nil hle => exact List.Pairwise.nil
  | cons hstart hlt hrest ih =>
      exact List.Pairwise.cons (fun b hb => Nat.lt_of_lt_of_le hlt (hrest.bounds hb).1) ih

end InOrder

namespace Syntax

/-- A gap in the text `t`, which starts at position `pos`, whose comments follow one another
from `lo` on. -/
structure Gap.Reads (gap : Gap) (t : Text) (pos lo : Nat) : Prop where
  start_le : pos ≤ gap.stop
  stop_le : gap.stop ≤ pos + t.length
  rest_eq : gap.rest = t.drop (gap.stop - pos)
  /-- No space comes after the gap. -/
  nonspace : ∀ c rest, gap.rest = c :: rest → isSpace c = false
  inOrder : InOrder lo (gap.met.map MetComment.span) gap.stop

namespace Gap

/-- A gap may start one character earlier. -/
theorem Reads.cons {gap : Gap} {t : Text} {pos lo : Nat} (c : Char)
    (h : gap.Reads t (pos + 1) lo) : gap.Reads (c :: t) pos lo where
  start_le := by have := h.start_le; omega
  stop_le := by have := h.stop_le; simp only [List.length_cons]; omega
  rest_eq := by
    have hle := h.start_le
    have hsub : gap.stop - pos = (gap.stop - (pos + 1)) + 1 := by omega
    rw [h.rest_eq, hsub, List.drop_succ_cons]
  nonspace := h.nonspace
  inOrder := h.inOrder

/-- Where the comment starts that the reader is inside of, or else the position. -/
def Inside.start (inside : Inside) (pos : Nat) : Nat :=
  match inside with
  | .space => pos
  | .line start _ => start
  | .block start _ => start

/-- Whether the reader is at a position that its comment can have reached. -/
def Inside.Fits (inside : Inside) (pos : Nat) : Prop :=
  match inside with
  | .space => True
  | .line start _ => start < pos
  | .block start _ => start < pos

/-- Reading on in a gap. -/
theorem reads_readFrom {t : Text} {pos lo : Nat} {inside : Inside} {sawBreak : Bool}
    {met : List MetComment} (hinside : inside.Fits pos)
    (hmet : InOrder lo (met.reverse.map MetComment.span) (inside.start pos)) :
    (readFrom t pos inside sawBreak met).Reads t pos lo := by
  -- The comments that were met end before the one that the reader is inside of.
  fun_induction readFrom t pos inside sawBreak met with
  | case1 pos sawBreak met =>
      exact ⟨by simp, by simp, by simp, by simp, hmet⟩
  | case2 pos sawBreak met start afterBreak =>
      refine ⟨by simp, by simp, by simp, by simp, ?_⟩
      simpa using hmet.concat ⟨start, pos⟩ (Nat.le_refl _) hinside (Nat.le_refl _)
  | case3 pos sawBreak met start afterBreak =>
      refine ⟨by simp, by simp, by simp, by simp, ?_⟩
      exact hmet.widen (Nat.le_refl _) (Nat.le_of_lt hinside)
  | case4 rest pos sawBreak met ih =>
      exact ((ih (by simp [Inside.Fits]) hmet).cons '/').cons '/'
  | case5 rest pos sawBreak met ih =>
      exact ((ih (by simp [Inside.Fits]) hmet).cons '*').cons '/'
  | case6 rest pos start afterBreak sawBreak met ih =>
      have hlt : start < pos := hinside
      have hnext := hmet.concat ⟨start, pos + 2⟩ (Nat.le_refl _)
        (show start < pos + 2 by omega) (Nat.le_refl _)
      exact ((ih trivial (by simpa [Inside.start] using hnext)).cons '/').cons '*'
  | case7 c rest pos sawBreak met _ _ hbreak ih =>
      exact (ih trivial (hmet.widen (Nat.le_refl _) (Nat.le_succ _))).cons c
  | case8 c rest pos sawBreak met _ _ hbreak hspace ih =>
      exact (ih trivial (hmet.widen (Nat.le_refl _) (Nat.le_succ _))).cons c
  | case9 c rest pos sawBreak met _ _ hbreak hspace =>
      refine ⟨by simp, by simp, by simp, ?_, hmet⟩
      intro d others heq
      obtain ⟨rfl, rfl⟩ : c = d ∧ rest = others := by simpa using heq
      simpa using hspace
  | case10 c rest pos start afterBreak sawBreak met hbreak ih =>
      have hnext := hmet.concat ⟨start, pos⟩ (Nat.le_refl _) hinside (Nat.le_succ pos)
      exact (ih trivial (by simpa [Inside.start] using hnext)).cons c
  | case11 c rest pos start afterBreak sawBreak met hbreak ih =>
      exact (ih (Nat.lt_succ_of_lt hinside) hmet).cons c
  | case12 c rest pos start afterBreak sawBreak met _ ih =>
      exact (ih (Nat.lt_succ_of_lt hinside) hmet).cons c

/-- The gap at the front of a text. -/
theorem reads_read (t : Text) (pos : Nat) (sawBreak : Bool) :
    (read t pos sawBreak).Reads t pos pos :=
  reads_readFrom trivial (.nil (Nat.le_refl _))

/-- The comments of a gap stand where they were met. -/
theorem comments_map_span (gap : Gap) (before : TokenKind) (next : Option Nat) :
    (gap.comments before next).map Comment.span = gap.met.map MetComment.span := by
  simp [comments]

/-- A comment of a gap leads nothing but the token after the gap. -/
theorem leads_of_mem_comments {gap : Gap} {before : TokenKind} {next : Option Nat}
    {comment : Comment} {position : Nat} (h : comment ∈ gap.comments before next)
    (hleads : comment.leads = some position) : next = some position := by
  obtain ⟨met, _, rfl⟩ := List.mem_map.mp h
  simp only at hleads
  split at hleads
  · exact hleads
  · simp at hleads

end Gap
end Syntax
end Typings
