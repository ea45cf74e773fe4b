import Typings.Proofs.Reading.Gap
import Typings.Syntax.Parser
import Mathlib.Order.Basic

/-!
# What a move keeps

A cursor is moved past stretches of text that are not empty, and that makes the places of
a text an order.  Two places of the order also tell where comments are: a comment lies
before the earlier place, between the two, or after the later one.

**Soundness.**  `Cursor.Sound t c` says that `c` is a place of the text `t`: its token
starts where it says, is no space, and its comments are those before it, in order.  The
start of a text is sound, and every move keeps soundness.

**Between places.**  `Cursor.between_comments` gives the comments from one place to a later
one, none of which leads a token up to the earlier place.
-/

namespace Typings
namespace Syntax

section Tokens

/-- The token is a number, big or not. -/
def IsNumber (kind : TokenKind) : Prop :=
  ∃ literal, kind = .number literal ∨ kind = .bigint literal

theorem isNumber_of_closeNumber {t : Text} {length : Nat} {whole : Bool} {taken : Taken TokenKind}
    (h : closeNumber t length whole = some taken) : IsNumber taken.value := by
  simp only [closeNumber] at h
  split at h <;> split at h <;> simp only [Option.some.injEq, reduceCtorEq] at h <;>
    simp [← h, IsNumber]

theorem isNumber_of_readDecimal {t : Text} {taken : Taken TokenKind}
    (h : readDecimal t = some taken) : IsNumber taken.value := by
  rw [readDecimal] at h
  split at h
  · contradiction
  split at h
  · contradiction
  dsimp only at h
  split at h <;> split at h <;> try contradiction
  all_goals
    obtain ⟨exponent, _, h⟩ := Option.bind_eq_some_iff.mp h
    exact isNumber_of_closeNumber h

theorem isNumber_of_readNumber {t : Text} {taken : Taken TokenKind}
    (h : readNumber t = some taken) : IsNumber taken.value := by
  have hbased : ∀ base, readBased base t = some taken → IsNumber taken.value := by
    intro base h
    simp only [readBased] at h
    split at h
    · exact isNumber_of_closeNumber h
    · simp at h
  simp only [readNumber] at h
  split at h
  all_goals first | exact hbased _ h | exact isNumber_of_readDecimal h

/-- A reading of a number gives no mark and no word. -/
theorem isNumber_of_getD_readNumber {t : Text} {taken : Taken TokenKind} {kind : TokenKind}
    (hunknown : kind ≠ taken.value) (h : ((readNumber t).getD taken).value = kind) :
    IsNumber kind := by
  cases hnumber : readNumber t with
  | none => exact absurd h.symm (by simpa [hnumber] using hunknown)
  | some number =>
      rw [hnumber, Option.getD_some] at h
      exact h ▸ isNumber_of_readNumber hnumber

/-- A mark other than a question mark stands in the text as it is written. -/
theorem readMark_spelled {afterBreak : Bool} {t : Text} {taken : Taken String}
    (h : readMark afterBreak t = some taken) :
    taken.value = "?" ∨ taken.value = "?." ∨
      taken.value.toList <+: t ∧ taken.length = taken.value.toList.length := by
  simp only [readMark] at h
  split at h
  · simp at h
  · split at h
    · split at h <;> simp only [Option.some.injEq] at h <;> simp [← h]
    · obtain ⟨mark, hfind, rfl⟩ := Option.map_eq_some_iff.mp h
      obtain ⟨text, _, rfl⟩ := List.mem_map.mp (List.mem_of_find?_eq_some hfind)
      have hopens := List.find?_some hfind
      exact .inr (.inr ⟨List.isPrefixOf_iff_prefix.mp hopens, rfl⟩)

/-- A token that is a mark other than a question mark is that mark. -/
theorem readToken_mark {fuel : Nat} {afterBreak : Bool} {t : Text} {text : String}
    (h : (readToken fuel afterBreak t).value = .mark text) :
    text = "?" ∨ text = "?." ∨
      text.toList <+: t ∧ (readToken fuel afterBreak t).length = text.toList.length := by
  have hnumber : ¬ IsNumber (.mark text) := by simp [IsNumber]
  simp only [readToken] at h ⊢
  split at h
  · simp at h
  · rename_i c rest
    split at h
    · cases hs : readString fuel c rest <;> simp [hs, Taken.map, Taken.after] at h
    rename_i hquote
    split at h
    · exact absurd (isNumber_of_getD_readNumber (by simp) h) hnumber
    rename_i hdigit
    split at h
    · exact absurd (isNumber_of_getD_readNumber (by simp) h) hnumber
    rename_i hpoint
    split at h
    · cases hw : readWord fuel (c :: rest) <;> simp [hw, Taken.map] at h
    · rename_i hname
      cases hm : readMark afterBreak (c :: rest) with
      | none => simp [hm] at h
      | some taken =>
          obtain rfl : taken.value = text := by simpa [hm, Taken.map] using h
          rw [if_neg hquote, if_neg hdigit, if_neg hpoint, if_neg hname]
          exact readMark_spelled hm

/-- Where the token is an opening brace, the text starts with one. -/
theorem readToken_leftBrace {fuel : Nat} {afterBreak : Bool} {t : Text}
    (h : (readToken fuel afterBreak t).value = .mark leftBrace) : t.head? = some '{' := by
  rcases readToken_mark h with hq | hq | ⟨⟨others, heq⟩, -⟩
  · exact absurd hq (by decide)
  · exact absurd hq (by decide)
  · rw [← heq]
    rfl

end Tokens

namespace Cursor

section Following

variable (size : Nat) (before : TokenKind) (stop : Nat) (rest : Text) (sawBreak : Bool)
  (comments : List Comment)

@[simp] theorem following_lastStop :
    (following size before stop rest sawBreak comments).lastStop = stop := rfl

@[simp] theorem following_position :
    (following size before stop rest sawBreak comments).position =
      (Gap.read rest stop sawBreak).stop := rfl

@[simp] theorem following_here :
    (following size before stop rest sawBreak comments).here =
      (Gap.read rest stop sawBreak).rest := rfl

/-- A token follows after the gap. -/
theorem stop_le_following :
    stop ≤ (following size before stop rest sawBreak comments).position :=
  (Gap.reads_read rest stop sawBreak).start_le

/-- The comments of the gap come after those before, and lead the token that follows or
none. -/
theorem following_comments :
    ∃ met : List Comment,
      (following size before stop rest sawBreak comments).comments.reverse =
        comments.reverse ++ met ∧
      InOrder stop (met.map Comment.span)
        (following size before stop rest sawBreak comments).position ∧
      ∀ comment ∈ met, ∀ position, comment.leads = some position →
        position = (following size before stop rest sawBreak comments).position := by
  refine ⟨(following size before stop rest sawBreak []).comments.reverse, ?_, ?_, ?_⟩
  · simp [following]
  · simp only [following, List.append_nil, List.reverse_reverse, Gap.comments_map_span]
    exact (Gap.reads_read rest stop sawBreak).inOrder
  · intro comment hmem position hleads
    simp only [following, List.append_nil, List.reverse_reverse] at hmem
    have hnext := Gap.leads_of_mem_comments hmem hleads
    simp only [Option.ite_none_left_eq_some, Option.some.injEq] at hnext
    exact hnext.2.symm

end Following

section Order

/-- Moving past a stretch of text ends that stretch, and the next token comes after it. -/
theorem position_lt_past {c : Cursor} {length : Nat} (h : c.holds length) (size : Nat)
    (kind : TokenKind) :
    c.position < (c.past size kind length).lastStop ∧
      (c.past size kind length).lastStop ≤ (c.past size kind length).position := by
  have hlength : 0 < length := by
    simp only [holds, Bool.and_eq_true, decide_eq_true_eq] at h
    exact h.1
  constructor
  · simp only [past, following_lastStop]
    omega
  · exact stop_le_following ..

/-- A place that is reached is the same place or comes after it. -/
theorem eq_or_position_lt {c d : Cursor} (h : c ≤ d) :
    c = d ∨ c.position < d.lastStop ∧ d.lastStop ≤ d.position := by
  change c.Reaches d at h
  induction h with
  | refl => exact .inl rfl
  | @step c d size kind length hold _ ih =>
      have hpast := position_lt_past hold size kind
      rcases ih with rfl | ih
      · exact .inr hpast
      · exact .inr (by omega)

instance : PartialOrder Cursor where
  le_refl c := .refl c
  le_trans _ _ _ h h' := Reaches.trans h h'
  le_antisymm c d h h' := by
    rcases eq_or_position_lt h with heq | hlt
    · exact heq
    · rcases eq_or_position_lt h' with heq | hlt'
      · exact heq.symm
      · omega

variable {c d : Cursor}

/-- A later place comes after the token of an earlier one has begun. -/
theorem position_lt_lastStop (h : c < d) : c.position < d.lastStop ∧ d.lastStop ≤ d.position :=
  (eq_or_position_lt h.le).resolve_left h.ne

theorem position_lt (h : c < d) : c.position < d.position := by
  have := position_lt_lastStop h
  omega

/-- Moving past a stretch of text comes to a later place. -/
theorem lt_past {size length : Nat} {kind : TokenKind} (h : c.holds length) :
    c < c.past size kind length := by
  refine lt_of_le_of_ne (.step size kind length h (.refl _)) fun heq => ?_
  have hlt := position_lt_past h size kind
  rw [← heq] at hlt
  omega

/-- The second place comes next: the token of the first one stands right before it. -/
def Next (c d : Cursor) : Prop :=
  ∃ size length, c.holds length = true ∧ c.position + length = c.token.span.stop ∧
    d = c.past size c.token.kind length

theorem Next.lt (h : c.Next d) : c < d := by
  obtain ⟨size, length, hhold, -, rfl⟩ := h
  exact lt_past hhold

theorem Next.lastStop (h : c.Next d) : d.lastStop = c.token.span.stop := by
  obtain ⟨size, length, -, hstop, rfl⟩ := h
  exact hstop

theorem position_le (h : c ≤ d) : c.position ≤ d.position := by
  rcases eq_or_position_lt h with rfl | hlt
  · exact Nat.le_refl _
  · omega

theorem lastStop_le (h : c ≤ d) (hc : c.lastStop ≤ c.position) : c.lastStop ≤ d.lastStop := by
  rcases eq_or_position_lt h with rfl | hlt
  · exact Nat.le_refl _
  · omega

/-- The comments from one place to a later one follow those before.  They come after the
token of the earlier place has begun, and lead only tokens that come later. -/
theorem between_comments (h : c ≤ d) :
    ∃ met : List Comment,
      d.comments.reverse = c.comments.reverse ++ met ∧
      InOrder c.position (met.map Comment.span) d.position ∧
      ∀ comment ∈ met, c.position < comment.span.start ∧
        ∀ position, comment.leads = some position → c.position < position := by
  change c.Reaches d at h
  induction h with
  | refl c => exact ⟨[], by simp, .nil (Nat.le_refl _), by simp⟩
  | @step c d size kind length hold _ ih =>
      -- One move meets the comments of one gap, all of which come after the stretch moved past.
      obtain ⟨first, hfirst, horder, hleads⟩ :=
        following_comments size kind (c.position + length) (c.here.drop length) false c.comments
      obtain ⟨others, hothers, horder', hleads'⟩ := ih
      have hpast := position_lt_past hold size kind
      refine ⟨first ++ others, ?_, ?_, ?_⟩
      · rw [hothers, past, hfirst, List.append_assoc]
      · rw [List.map_append]
        exact (horder.widen (Nat.le_add_right _ _) (Nat.le_refl _)).append horder'
      · intro comment hmem
        rcases List.mem_append.mp hmem with hmem | hmem
        · have hstart := (horder.bounds (List.mem_map_of_mem hmem)).1
          refine ⟨?_, fun position hposition => ?_⟩
          · simp only [past, following_lastStop] at hpast
            omega
          · rw [hleads comment hmem position hposition]
            exact Nat.lt_of_lt_of_le hpast.1 hpast.2
        · obtain ⟨hstart, hlater⟩ := hleads' comment hmem
          refine ⟨by omega, fun position hposition => ?_⟩
          have := hlater position hposition
          omega

end Order

section Soundness

/-- A place of the text `t`. -/
structure Sound (t : Text) (c : Cursor) : Prop where
  here_eq : c.here = t.drop c.position
  position_le : c.position ≤ t.length
  lastStop_le : c.lastStop ≤ c.position
  /-- The next token starts with no space. -/
  nonspace : ∀ x rest, c.here = x :: rest → isSpace x = false
  /-- A brace is written as one. -/
  brace : c.token.kind = .mark leftBrace → c.here.head? = some '{'
  inOrder : InOrder 0 (c.comments.reverse.map Comment.span) c.position
  leads_le : ∀ comment ∈ c.comments, ∀ position, comment.leads = some position →
    position ≤ c.position

/-- The place that follows a stretch of `t` is a place of `t`. -/
theorem sound_following {t rest : Text} {size stop : Nat} {before : TokenKind}
    {sawBreak : Bool} {comments : List Comment} (hrest : rest = t.drop stop)
    (hstop : stop ≤ t.length)
    (horder : InOrder 0 (comments.reverse.map Comment.span) stop)
    (hleads : ∀ comment ∈ comments, ∀ position, comment.leads = some position →
      position ≤ stop) :
    (following size before stop rest sawBreak comments).Sound t := by
  subst hrest
  have hgap := Gap.reads_read (t.drop stop) stop sawBreak
  have hstart := hgap.start_le
  have hlength : stop + (t.drop stop).length = t.length := by
    rw [List.length_drop]
    omega
  obtain ⟨met, hmet, hmetOrder, hmetLeads⟩ :=
    following_comments size before stop (t.drop stop) sawBreak comments
  constructor
  · rw [following_here, following_position, hgap.rest_eq, List.drop_drop]
    congr 1
    omega
  · have := hgap.stop_le
    rw [following_position]
    omega
  · exact stop_le_following ..
  · exact hgap.nonspace
  · intro hkind
    rw [following_here]
    simp only [following] at hkind
    split at hkind
    · exact readToken_leftBrace hkind
    · simp at hkind
  · rw [hmet, List.map_append]
    exact horder.append hmetOrder
  · intro comment hmem position hposition
    rw [← List.mem_reverse, hmet, List.mem_append, List.mem_reverse] at hmem
    rcases hmem with hmem | hmem
    · exact Nat.le_trans (hleads comment hmem position hposition) (stop_le_following ..)
    · exact Nat.le_of_eq (hmetLeads comment hmem position hposition)

/-- The text before a place goes on for the stretch that the place is moved past. -/
theorem length_le_of_holds {length : Nat} {c : Cursor} (h : c.holds length) :
    length ≤ c.here.length := by
  simp only [holds, Bool.and_eq_true, decide_eq_true_eq, Bool.not_eq_true',
    List.isEmpty_eq_false_iff, ne_eq, List.drop_eq_nil_iff, Nat.not_le] at h
  omega

/-- Moves keep soundness. -/
theorem Sound.of_le {t : Text} {c d : Cursor} (hsound : c.Sound t) (h : c ≤ d) : d.Sound t := by
  change c.Reaches d at h
  induction h with
  | refl => exact hsound
  | @step c d size kind length hold _ ih =>
      have hlength := length_le_of_holds hold
      rw [hsound.here_eq, List.length_drop] at hlength
      have hposition := hsound.position_le
      refine ih (sound_following ?_ (by omega) ?_ ?_)
      · rw [hsound.here_eq, List.drop_drop]
      · exact hsound.inOrder.widen (Nat.le_refl _) (Nat.le_add_right _ _)
      · intro comment hmem position hleads
        exact Nat.le_trans (hsound.leads_le comment hmem position hleads) (Nat.le_add_right _ _)

/-- The first token follows what is passed over. -/
theorem exists_first_eq (t : Text) : ∃ stop, stop ≤ t.length ∧
    first t = following t.length .finish stop (t.drop stop) true [] := by
  unfold first
  split
  · rename_i rest
    have hline := (List.takeWhile_prefix (l := rest) fun c => !isLineBreak c).length_le
    refine ⟨_, ?_, congrArg (following _ _ _ · _ _) ?_⟩
    · simp only [List.length_cons]
      omega
    · rw [Nat.add_comm, ← List.drop_drop]
      rfl
  · exact ⟨0, Nat.zero_le _, rfl⟩

theorem sound_first (t : Text) : (first t).Sound t := by
  obtain ⟨stop, hstop, hfirst⟩ := exists_first_eq t
  rw [hfirst]
  exact sound_following rfl hstop (.nil (Nat.zero_le _)) (by simp)

/-- The start of a text is a place of it. -/
theorem sound_atStart (t : Text) : (atStart t).Sound t :=
  { sound_first t with lastStop_le := Nat.le_refl _ }

/-- A comment that leads a token comes after every token before that one. -/
theorem position_lt_start {t : Text} {a b z : Cursor} (ha : atStart t ≤ a) (hlt : a < b)
    (hb : b ≤ z) {comment : Comment} (hmem : comment ∈ z.comments)
    (hleads : comment.leads = some b.position) : a.position < comment.span.start := by
  obtain ⟨met, hmet, _, hlater⟩ := between_comments (hlt.le.trans hb)
  rw [← List.mem_reverse, hmet, List.mem_append, List.mem_reverse] at hmem
  rcases hmem with hmem | hmem
  · -- A comment that was met up to `a` leads no token after it.
    have hle := ((sound_atStart t).of_le ha).leads_le comment hmem _ hleads
    have := position_lt hlt
    omega
  · exact (hlater comment hmem).1

end Soundness

end Cursor
end Syntax
end Typings
