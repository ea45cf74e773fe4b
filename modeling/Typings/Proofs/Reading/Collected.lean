import Typings.Proofs.Documentation.Closing
import Typings.Proofs.Reading.Nodes

/-!
# The comments of a text

The comments that a text is read with are sorted, lie inside the text, and are neither empty nor
do they overlap.  Each of them is one whole comment: a line comment holds no line feed, and a
block comment ends at its first terminator.

**Order.**  Sorted spans that are not empty and do not overlap follow one another, so that each
one ends before the next one starts.

**Shape.**  The reader of a gap is always at the end of a comment that has begun well.  What it
closes is then a comment.
-/

namespace Typings

open Syntax

/-- What nothing comes after in an ordered list is its last element. -/
theorem getLast?_of_pairwise {α : Type} {R : α → α → Prop} {l : List α} {a : α}
    (h : l.Pairwise R) (ha : a ∈ l) (hlast : ∀ b ∈ l, ¬ R a b) : l.getLast? = some a := by
  obtain ⟨others, last, rfl⟩ := (List.eq_nil_or_concat' l).resolve_left (List.ne_nil_of_mem ha)
  rw [List.getLast?_concat]
  rcases List.mem_append.mp ha with hearlier | hlater
  · have hafter := (List.pairwise_append.mp h).2.2 a hearlier last (by simp)
    exact absurd hafter (hlast last (by simp))
  · rw [List.mem_singleton.mp hlater]

/-- Spans follow one another if each of them ends before all later ones start. -/
theorem InOrder.of_pairwise {lo hi : Nat} {spans : List Span} (hle : lo ≤ hi)
    (horder : spans.Pairwise fun a b => a.stop ≤ b.start)
    (hspans : ∀ span ∈ spans, lo ≤ span.start ∧ span.start < span.stop ∧ span.stop ≤ hi) :
    InOrder lo spans hi := by
  induction spans generalizing lo with
  | nil => exact .nil hle
  | cons span rest ih =>
      obtain ⟨hlater, hrest⟩ := List.pairwise_cons.mp horder
      obtain ⟨hstart, hlt, hstop⟩ := hspans span (List.mem_cons_self ..)
      refine .cons hstart hlt (ih hstop hrest fun other hmem => ?_)
      exact ⟨hlater other hmem, (hspans other (List.mem_cons_of_mem _ hmem)).2⟩

namespace Syntax

/-- A comment stands at the span, and it is a block comment exactly if it is said to be one. -/
structure WrittenAt (t : Text) (span : Span) (isBlock : Bool) : Prop where
  raw : DocComment.IsRawComment (Text.slice t span.start span.stop)
  opens : isBlock = true ↔ "/*".toList <+: Text.slice t span.start span.stop

namespace WrittenAt

variable {t text body : Text} {span : Span}

theorem of_line (h : Text.slice t span.start span.stop = '/' :: '/' :: text)
    (hbreak : '\n' ∉ text) : WrittenAt t span false :=
  ⟨h ▸ .line hbreak, by simp [h]⟩

theorem of_block (h : Text.slice t span.start span.stop = '/' :: '*' :: (body ++ ['*', '/']))
    (hbody : ¬ DocComment.terminator <:+: body) : WrittenAt t span true :=
  ⟨h ▸ .block hbody, by simp [h]⟩

/-- What is said to be a block comment is written as one. -/
theorem exists_body (h : WrittenAt t span true) :
    ∃ body, Text.slice t span.start span.stop =
        '/' :: '*' :: (body ++ DocComment.terminator) ∧
      ¬ DocComment.terminator <:+: body := by
  have hraw := h.raw
  have hopens := h.opens.mp rfl
  generalize Text.slice t span.start span.stop = written at hraw hopens
  cases hraw with
  | line => simp at hopens
  | block hbody => exact ⟨_, rfl, hbody⟩

end WrittenAt

namespace Gap

variable {w t : Text} {pos start : Nat}

/-- The stretch of a text up to a character, with that character. -/
theorem slice_concat {c : Char} {rest : Text} (hle : start ≤ pos) (h : w.drop pos = c :: rest) :
    Text.slice w start (pos + 1) = Text.slice w start pos ++ [c] := by
  have hnext : Text.slice w pos (pos + 1) = [c] := by
    rw [Text.slice, h, Nat.add_sub_cancel_left, List.take_succ_cons, List.take_zero]
  rw [← Text.slice_append_slice w hle (Nat.le_succ pos), hnext]

/-- What the reader is inside of has begun well: it can still become a comment. -/
def Inside.Begun (w : Text) (pos : Nat) : Inside → Prop
  | .space => True
  | .line start _ =>
      start ≤ pos ∧ ∃ text, Text.slice w start pos = '/' :: '/' :: text ∧ '\n' ∉ text
  | .block start _ =>
      start ≤ pos ∧ ∃ body, Text.slice w start pos = '/' :: '*' :: body ∧
        ¬ DocComment.terminator <:+: body ∧
        (body.getLast? = some '*' → (w.drop pos).head? ≠ some '/')

/-- A comment begins with the two characters that open it. -/
theorem slice_opening {c d : Char} {rest : Text} (h : w.drop pos = c :: d :: rest) :
    Text.slice w pos (pos + 2) = [c, d] := by
  rw [Text.slice, h, Nat.add_sub_cancel_left]
  rfl

theorem drop_succ_of_cons {c : Char} {rest : Text} (h : w.drop pos = c :: rest) :
    w.drop (pos + 1) = rest := by
  rw [← List.drop_drop, h]
  rfl

/-- The comments that are met are written in the text. -/
theorem written_readFrom {inside : Inside} {sawBreak : Bool} {met : List MetComment}
    (htext : w.drop pos = t) (hinside : inside.Begun w pos)
    (hmet : ∀ comment ∈ met, WrittenAt w comment.span comment.isBlock) :
    ∀ comment ∈ (readFrom t pos inside sawBreak met).met,
      WrittenAt w comment.span comment.isBlock := by
  -- What has begun well goes on well with each character, until the reader closes it.
  fun_induction readFrom t pos inside sawBreak met with
  | case1 pos sawBreak met => simpa using hmet
  | case2 pos sawBreak met start afterBreak =>
      obtain ⟨-, text, hslice, hbreak⟩ := hinside
      simpa [or_imp, forall_and] using ⟨hmet, WrittenAt.of_line hslice hbreak⟩
  | case3 pos sawBreak met start afterBreak => simpa using hmet
  | case4 rest pos sawBreak met ih =>
      have hrest := drop_succ_of_cons (drop_succ_of_cons htext)
      exact ih hrest ⟨Nat.le_add_right _ _, [], slice_opening htext, by simp⟩ hmet
  | case5 rest pos sawBreak met ih =>
      have hrest := drop_succ_of_cons (drop_succ_of_cons htext)
      refine ih hrest ⟨Nat.le_add_right _ _, [], slice_opening htext, ?_, by simp⟩ hmet
      simp [DocComment.terminator]
  | case6 rest pos start afterBreak sawBreak met ih =>
      obtain ⟨hle, body, hslice, hbody, -⟩ := hinside
      have hnext := drop_succ_of_cons htext
      have hwhole : Text.slice w start (pos + 2) = '/' :: '*' :: (body ++ ['*', '/']) := by
        rw [slice_concat (Nat.le_succ_of_le hle) hnext, slice_concat hle htext, hslice]
        simp
      refine ih (drop_succ_of_cons hnext) trivial fun comment hmem => ?_
      rcases List.mem_cons.mp hmem with rfl | hmem
      · exact .of_block hwhole hbody
      · exact hmet comment hmem
  | case7 c rest pos sawBreak met _ _ hbreak ih => exact ih (drop_succ_of_cons htext) trivial hmet
  | case8 c rest pos sawBreak met _ _ hbreak hspace ih =>
      exact ih (drop_succ_of_cons htext) trivial hmet
  | case9 c rest pos sawBreak met _ _ hbreak hspace => simpa using hmet
  | case10 c rest pos start afterBreak sawBreak met hbreak ih =>
      obtain ⟨-, text, hslice, hfeed⟩ := hinside
      refine ih (drop_succ_of_cons htext) trivial fun comment hmem => ?_
      rcases List.mem_cons.mp hmem with rfl | hmem
      · exact .of_line hslice hfeed
      · exact hmet comment hmem
  | case11 c rest pos start afterBreak sawBreak met hbreak ih =>
      obtain ⟨hle, text, hslice, hfeed⟩ := hinside
      have hc : c ≠ '\n' := by
        rintro rfl
        exact hbreak (by decide)
      refine ih (drop_succ_of_cons htext) ⟨Nat.le_succ_of_le hle, text ++ [c], ?_, ?_⟩ hmet
      · rw [slice_concat hle htext, hslice]
        simp
      · simp [hfeed, hc.symm]
  | case12 c rest pos start afterBreak sawBreak met hclose ih =>
      obtain ⟨hle, body, hslice, hbody, hlast⟩ := hinside
      have hnext := drop_succ_of_cons htext
      refine ih hnext ⟨Nat.le_succ_of_le hle, body ++ [c], ?_, ?_, ?_⟩ hmet
      · rw [slice_concat hle htext, hslice]
        simp
      · have happart : body.getLast? ≠ some '*' ∨ [c].head? ≠ some '/' := by
          rw [htext] at hlast
          exact Decidable.not_or_of_imp hlast
        rw [DocComment.terminator_infix_append happart]
        simp [hbody, DocComment.terminator_infix_cons, DocComment.terminator_ne_nil]
      · rw [List.getLast?_concat, hnext, Option.some.injEq]
        intro hstar hslash
        obtain ⟨others, hrest⟩ := List.head?_eq_some_iff.mp hslash
        exact hclose others hstar hrest

/-- The comments of a gap are written in the text. -/
theorem written_read (htext : w.drop pos = t) (sawBreak : Bool) :
    ∀ comment ∈ (read t pos sawBreak).met, WrittenAt w comment.span comment.isBlock :=
  written_readFrom htext (show Inside.Begun w pos .space from trivial) (by simp)

end Gap

namespace Cursor

variable {t : Text} {c d : Cursor}

/-- The comments up to a place are written in the text. -/
def Written (t : Text) (c : Cursor) : Prop :=
  ∀ comment ∈ c.comments, WrittenAt t comment.span comment.isBlock

/-- The comments of the gap that follows a stretch are written in the text like those before. -/
theorem written_following {rest : Text} {size stop : Nat} {before : TokenKind} {sawBreak : Bool}
    {comments : List Comment} (hrest : rest = t.drop stop)
    (hcomments : ∀ comment ∈ comments, WrittenAt t comment.span comment.isBlock) :
    (following size before stop rest sawBreak comments).Written t := by
  intro comment hmem
  simp only [following, List.mem_append, List.mem_reverse] at hmem
  rcases hmem with hmem | hmem
  · obtain ⟨met, hmet, rfl⟩ := List.mem_map.mp hmem
    exact Gap.written_read hrest.symm sawBreak met hmet
  · exact hcomments comment hmem

theorem Written.of_le (hwritten : c.Written t) (hsound : c.Sound t) (h : c ≤ d) :
    d.Written t := by
  have hreaches : c.Reaches d := h
  induction hreaches with
  | refl => exact hwritten
  | @step c d size kind length hold hrest ih =>
      have hpast : (c.past size kind length).Sound t := hsound.of_le (lt_past hold).le
      refine ih (written_following ?_ hwritten) hpast hrest
      rw [hsound.here_eq, List.drop_drop]

theorem written_atStart (t : Text) : (atStart t).Written t := by
  obtain ⟨stop, -, hfirst⟩ := exists_first_eq t
  have hwritten : (first t).Written t := hfirst ▸ written_following rfl (by simp)
  exact hwritten

end Cursor

end Syntax

namespace ReadText

variable {r : ReadText}

/-- The spans of the comments, in the order in which they were collected. -/
def spans (r : ReadText) : List Span :=
  r.comments.toList.map Comment.span

/-- The comments are sorted by where they start, and they are not empty, do not overlap and lie
inside the text. -/
structure Collected (r : ReadText) : Prop where
  sorted : r.spans.Pairwise fun a b => a.start ≤ b.start
  nonempty : ∀ span ∈ r.spans, span.start < span.stop
  disjoint : r.spans.Pairwise fun a b => a.stop ≤ b.start ∨ b.stop ≤ a.start
  inside : ∀ span ∈ r.spans, span.stop ≤ r.chars.length

/-- Every comment is written in the text as the kind of comment that it is. -/
def Written (r : ReadText) : Prop :=
  ∀ comment ∈ r.comments.toList, WrittenAt r.chars comment.span comment.isBlock

/-- Comments that were collected follow one another. -/
theorem Collected.inOrder (h : r.Collected) : InOrder 0 r.spans r.chars.length := by
  have hapart := (h.sorted.and h.disjoint).imp_of_mem (S := fun a b => a.stop ≤ b.start) (by
    intro a b ha hb ⟨hstart, hdisjoint⟩
    have hlt := h.nonempty b hb
    omega)
  refine .of_pairwise (Nat.zero_le _) hapart fun span hmem => ?_
  exact ⟨Nat.zero_le _, h.nonempty span hmem, h.inside span hmem⟩

theorem collected_of_inOrder {hi : Nat} (h : InOrder 0 r.spans hi) (hhi : hi ≤ r.chars.length) :
    r.Collected where
  sorted := h.pairwise.imp Nat.le_of_lt
  nonempty _ hmem := (h.bounds hmem).2.1
  disjoint := h.pairwise_stop_le.imp .inl
  inside _ hmem := Nat.le_trans (h.bounds hmem).2.2 hhi

/-- Every text that is read has its comments collected. -/
theorem collected_of_ofText? {reading : Nat} {t : Text} (h : ofText? reading t = some r) :
    r.Collected := by
  obtain ⟨-, z, hr⟩ := readTo_of_ofText? h
  exact collected_of_inOrder hr.inOrder
    ((Cursor.sound_atStart _).of_le hr.covers.le).position_le

/-- Every text that is read has its comments written in it. -/
theorem written_of_ofText? {reading : Nat} {t : Text} (h : ofText? reading t = some r) :
    r.Written := by
  obtain ⟨-, z, hr⟩ := readTo_of_ofText? h
  intro comment hmem
  rw [hr.comments, List.mem_reverse] at hmem
  exact (Cursor.written_atStart _).of_le (Cursor.sound_atStart _) hr.covers.le comment hmem

section Sample

/-- Two block comments in front of a statement, with a character of two bytes in the first one, and
a line comment that ends like a block comment. -/
def commentedText : Text :=
  "/*é*/ /*b*/ ; // c */\n".toList

end Sample

end ReadText

end Typings
