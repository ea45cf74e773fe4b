import Typings.Proofs.Reading.Extent

/-!
# Positions counted from another place

Reading does not depend on where positions are counted from: a cursor that is moved, with other
comments before it, moves past the same stretches to places that are moved as far.  So the reading
of a document, which counts from the first token, is a reading of the text from its start.

**Gaps.**  A gap is read in the same way wherever it stands, which carries over to the token that
follows it, to every move, and to every place that is reached.
-/

namespace Typings
namespace Syntax

variable {n : Nat}

section Twice

theorem Span.moved_moved (m n : Nat) (span : Span) :
    (span.moved m).moved n = span.moved (m + n) := by
  simp [Span.moved, Nat.add_assoc]

theorem Comment.moved_moved (m n : Nat) (comment : Comment) :
    (comment.moved m).moved n = comment.moved (m + n) := by
  simp [Comment.moved, Span.moved_moved, Function.comp_def, Nat.add_assoc]

end Twice

section Gaps

def MetComment.moved (n : Nat) (comment : MetComment) : MetComment :=
  { comment with span := comment.span.moved n }

namespace Gap

def Inside.moved (n : Nat) : Inside → Inside
  | .space => .space
  | .line start afterBreak => .line (start + n) afterBreak
  | .block start afterBreak => .block (start + n) afterBreak

/-- The same gap `n` characters further on, with other comments met before it, the latest of
them first. -/
def moved (n : Nat) (earlier : List MetComment) (gap : Gap) : Gap :=
  { gap with
    met := earlier.reverse ++ gap.met.map (MetComment.moved n)
    stop := gap.stop + n }

theorem readFrom_moved (n : Nat) (earlier : List MetComment) (t : Text) (pos : Nat)
    (inside : Inside) (sawBreak : Bool) (met : List MetComment) :
    readFrom t (pos + n) (inside.moved n) sawBreak (met.map (MetComment.moved n) ++ earlier) =
      (readFrom t pos inside sawBreak met).moved n earlier := by
  fun_induction readFrom t pos inside sawBreak met with
  | case1 pos sawBreak met => simp [readFrom, Inside.moved, moved]
  | case2 pos sawBreak met start afterBreak =>
      simp [readFrom, Inside.moved, moved, MetComment.moved, Span.moved]
  | case3 pos sawBreak met start afterBreak => simp [readFrom, Inside.moved, moved]
  | case4 rest pos sawBreak met ih =>
      rw [← ih]
      simp only [readFrom, Inside.moved, Nat.add_right_comm]
  | case5 rest pos sawBreak met ih =>
      rw [← ih]
      simp only [readFrom, Inside.moved, Nat.add_right_comm]
  | case6 rest pos start afterBreak sawBreak met ih =>
      rw [← ih]
      simp only [readFrom, Inside.moved, Nat.add_right_comm, List.map_cons, List.cons_append,
        MetComment.moved, Span.moved]
  | case7 c rest pos sawBreak met hline hblock hbreak ih =>
      rw [← ih]
      simp only [readFrom, Inside.moved, Nat.add_right_comm, hbreak, if_true]
  | case8 c rest pos sawBreak met hline hblock hbreak hspace ih =>
      rw [← ih]
      simp only [readFrom, Inside.moved, Nat.add_right_comm, hbreak, hspace, if_true, if_false,
        Bool.false_eq_true]
  | case9 c rest pos sawBreak met hline hblock hbreak hspace =>
      simp only [readFrom, Inside.moved, hbreak, hspace, if_false, moved, List.map_reverse,
        List.reverse_append, Bool.false_eq_true]
  | case10 c rest pos start afterBreak sawBreak met hbreak ih =>
      rw [← ih]
      simp only [readFrom, Inside.moved, Nat.add_right_comm, hbreak, if_true, List.map_cons,
        List.cons_append, MetComment.moved, Span.moved]
  | case11 c rest pos start afterBreak sawBreak met hbreak ih =>
      rw [← ih]
      simp only [readFrom, Inside.moved, Nat.add_right_comm, hbreak, if_false, Bool.false_eq_true]
  | case12 c rest pos start afterBreak sawBreak met hblock ih =>
      rw [← ih]
      simp only [readFrom, Inside.moved, Nat.add_right_comm]

/-- A gap is read in the same way wherever it stands. -/
theorem read_moved (n : Nat) (t : Text) (pos : Nat) (sawBreak : Bool) :
    read t (pos + n) sawBreak = (read t pos sawBreak).moved n [] :=
  readFrom_moved n [] t pos .space sawBreak []

theorem comments_moved (n : Nat) (gap : Gap) (before : TokenKind) (next : Option Nat) :
    (gap.moved n []).comments before (next.map (· + n)) =
      (gap.comments before next).map (Comment.moved n) := by
  simp only [comments, moved, List.map_map, List.reverse_nil, List.nil_append]
  apply List.map_congr_left
  intro comment _
  have hleads : leadsNext before (comment.moved n) = leadsNext before comment := rfl
  simp only [Function.comp_apply, hleads]
  by_cases hnext : leadsNext before comment = true
  · simp only [hnext, if_true]
    rfl
  · simp only [hnext, if_false, Bool.false_eq_true]
    rfl

end Gap

end Gaps

namespace Cursor

variable {c d : Cursor} {before : List Comment}

/-- The same place `n` characters further on, with other comments before it. -/
def moved (n : Nat) (before : List Comment) (c : Cursor) : Cursor where
  token := ⟨c.token.kind, c.token.span.moved n, c.token.afterBreak⟩
  here := c.here
  lastStop := c.lastStop + n
  comments := c.comments.map (Comment.moved n) ++ before

@[simp] theorem moved_position : (c.moved n before).position = c.position + n := rfl

@[simp] theorem moved_span : (c.moved n before).token.span = c.token.span.moved n := rfl

@[simp] theorem moved_comments_reverse :
    (c.moved n before).comments.reverse =
      before.reverse ++ c.comments.reverse.map (Comment.moved n) := by
  simp [moved]

section Moves

variable (n : Nat) (before : List Comment)

theorem following_moved (size : Nat) (kind : TokenKind) (stop : Nat) (rest : Text)
    (sawBreak : Bool) (comments : List Comment) :
    following size kind (stop + n) rest sawBreak (comments.map (Comment.moved n) ++ before) =
      (following size kind stop rest sawBreak comments).moved n before := by
  unfold following
  rw [Gap.read_moved]
  generalize Gap.read rest stop sawBreak = gap
  have hcomments : ∀ taken : TokenKind,
      (gap.moved n []).comments kind
          (if taken == .finish then none else some (gap.moved n []).stop) =
        (gap.comments kind (if taken == .finish then none else some gap.stop)).map
          (Comment.moved n) := by
    intro taken
    rw [← Gap.comments_moved]
    split <;> rfl
  simp only [hcomments, moved, Cursor.mk.injEq, Token.mk.injEq, List.map_append, List.map_reverse,
    List.append_assoc]
  refine ⟨⟨rfl, ?_, rfl⟩, rfl, trivial, rfl⟩
  simp only [Span.moved, Gap.moved, Nat.add_right_comm]
  rfl

theorem past_moved (size : Nat) (kind : TokenKind) (length : Nat) (c : Cursor) :
    (c.moved n before).past size kind length = (c.past size kind length).moved n before := by
  have hposition : c.position + n + length = c.position + length + n := by omega
  simp only [past, moved_position, hposition, ← following_moved]
  rfl

variable {n before}

theorem moved_le (h : c ≤ d) : c.moved n before ≤ d.moved n before := by
  change c.Reaches d at h
  induction h with
  | refl c => exact le_rfl
  | @step c d size kind length hold _ ih =>
      refine .step size kind length hold ?_
      rw [past_moved]
      exact ih

theorem moved_lt (h : c < d) : c.moved n before < d.moved n before := by
  refine lt_of_le_of_ne (moved_le h.le) fun heq => ?_
  have hposition : c.position + n = d.position + n := congrArg position heq
  have hlt := position_lt h
  omega

end Moves

/-- A token ends no earlier than it starts. -/
theorem position_le_span_stop (t : Text) : (first t).position ≤ (first t).token.span.stop := by
  unfold first
  split <;> exact Nat.le_add_right _ _

/-- Moved back, the place from which a document is read is the start of the text. -/
theorem moved_rebased_atStart (t : Text) :
    (atStart t).rebased.moved (atStart t).position (atStart t).comments = atStart t := by
  have hstop := position_le_span_stop t
  have hposition : (atStart t).position = (first t).position := rfl
  have hspan : (⟨0, (first t).token.span.stop - (first t).position⟩ : Span).moved
      (first t).position = (first t).token.span := by
    simp only [Span.moved, Nat.zero_add, Nat.sub_add_cancel hstop]
    rfl
  simp only [moved, rebased, atStart, hposition, Nat.zero_add, List.map_nil, List.nil_append] at *
  rw [hspan]

end Cursor

section Entries

variable {a b c d : Cursor} {before : List Comment} {entry : Outline} {entries : List Outline}

@[simp] theorem Outline.moved_name (entry : Outline) : (entry.moved n).name = entry.name := by
  cases entry
  rfl

@[simp] theorem Outline.moved_exported (entry : Outline) :
    (entry.moved n).exported = entry.exported := by
  cases entry
  rfl

@[simp] theorem Outline.moved_span (entry : Outline) :
    (entry.moved n).span = entry.span.moved n := by
  cases entry
  rfl

@[simp] theorem Outline.moved_form (entry : Outline) :
    (entry.moved n).form = entry.form.moved n := by
  cases entry
  rfl

theorem Form.moved_moved (m n : Nat) (form : Form) :
    (form.moved m).moved n = form.moved (m + n) := by
  cases form with
  | function signature =>
      obtain ⟨typeParams, params, result⟩ := signature
      simp [Form.moved, SignatureSpans.moved, Function.comp_def, Span.moved_moved]
  | «variable» ascription => simp [Form.moved, Function.comp_def, Span.moved_moved]
  | _ => rfl

mutual

theorem Outline.moved_moved (m n : Nat) (entry : Outline) :
    (entry.moved m).moved n = entry.moved (m + n) := by
  obtain ⟨form, name, exported, span, bodyFrom, children⟩ := entry
  simp only [Outline.moved, Form.moved_moved, Span.moved_moved,
    Outline.movedAll_movedAll m n children, Option.map_map, Function.comp_def, Nat.add_assoc]

theorem Outline.movedAll_movedAll (m n : Nat) (entries : List Outline) :
    Outline.movedAll n (Outline.movedAll m entries) = Outline.movedAll (m + n) entries := by
  cases entries with
  | nil => rfl
  | cons entry rest =>
      simp only [Outline.movedAll, Outline.moved_moved m n entry,
        Outline.movedAll_movedAll m n rest]

end

/-- A form without spans comes from itself alone. -/
theorem Form.eq_of_moved_eq {form other : Form}
    (hfunction : ∀ signature, other ≠ .function signature)
    (hvariable : ∀ ascription, other ≠ .variable ascription) (h : form.moved n = other) :
    form = other := by
  subst h
  cases form with
  | function signature => exact absurd rfl (hfunction _)
  | «variable» ascription => exact absurd rfl (hvariable _)
  | _ => rfl

theorem Enclosed.moved {o o' e : Cursor} (h : Enclosed o o' entries e b) :
    Enclosed (o.moved n before) (o'.moved n before) (Outline.movedAll n entries)
      (e.moved n before) (b.moved n before) where
  opened := congrArg (· + n) h.opened
  first := by
    have hfirst := congrArg (· + n) h.first
    cases entries with
    | nil => exact hfirst
    | cons entry rest => simpa [Outline.movedAll, Span.moved] using hfirst
  brace := h.brace
  lt := Cursor.moved_lt h.lt
  closed := congrArg (· + n) h.closed

mutual

/-- What was read between two places is read between the same places further on. -/
theorem Covers.moved {a b : Cursor} {entry : Outline} (h : Covers a entry b) :
    Covers (a.moved n before) (entry.moved n) (b.moved n before) := by
  cases h with
  | plain hform hlt hall =>
      exact .plain (fun heq => hform (Form.eq_of_moved_eq (by simp) (by simp) heq))
        (Cursor.moved_lt hlt) (CoversAll.moved hall)
  | @braced _ m _ _ _ _ _ _ _ _ ha hn hmark hlt hall hb hinterface =>
      refine Covers.braced (n := m.moved n before) (Cursor.moved_le ha) (Cursor.moved_le hn) hmark
        (Cursor.moved_lt hlt) (CoversAll.moved hall) (Cursor.moved_le hb) ?_
      intro heq
      obtain ⟨rfl, henclosed⟩ := hinterface (Form.eq_of_moved_eq (by simp) (by simp) heq)
      exact ⟨rfl, henclosed.moved⟩

theorem CoversAll.moved {c d : Cursor} {entries : List Outline} (h : CoversAll c entries d) :
    CoversAll (c.moved n before) (Outline.movedAll n entries) (d.moved n before) := by
  cases h with
  | nil hle => exact .nil (Cursor.moved_le hle)
  | cons hle hentry hrest => exact .cons (Cursor.moved_le hle) hentry.moved hrest.moved

end

theorem Within.moved (h : Within c entry d) :
    Within (c.moved n before) (entry.moved n) (d.moved n before) := by
  obtain ⟨a, b, ha, hcovers, hb⟩ := h
  exact ⟨_, _, Cursor.moved_le ha, hcovers.moved, Cursor.moved_le hb⟩

end Entries

end Syntax
end Typings
