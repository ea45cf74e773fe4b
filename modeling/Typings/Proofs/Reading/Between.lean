import Typings.Proofs.Reading.Tokens
import Mathlib.Data.List.Pairwise

/-!
# What stands between two tokens

Between two tokens stand spaces and comments.  A gap is read up to the first character that is
neither, so that each of its characters is a space or stands in a comment that was met.

**Order.**  Once a line has ended in a gap, it has ended for every comment that is met later.  So
behind a token that keeps its comments, the comments that lead the next token are the last ones of
the gap.
-/

namespace Typings

/-- Of two spans that follow one another, the one that starts no later ends no later. -/
theorem InOrder.stop_le_stop {lo hi : Nat} {spans : List Span} {a b : Span}
    (h : InOrder lo spans hi) (ha : a ∈ spans) (hb : b ∈ spans) (hle : a.start ≤ b.start) :
    a.stop ≤ b.stop := by
  induction h with
  | nil => cases ha
  | cons hstart hlt hrest ih =>
      rcases List.mem_cons.mp ha with rfl | hafter
      · rcases List.mem_cons.mp hb with rfl | hlater
        · exact Nat.le_refl _
        · have hbounds := hrest.bounds hlater
          omega
      · rcases List.mem_cons.mp hb with rfl | hlater
        · have hbounds := hrest.bounds hafter
          omega
        · exact ih hafter hlater

namespace Syntax

theorem isSpace_of_isLineBreak {x : Char} (h : isLineBreak x = true) : isSpace x = true := by
  have hnewline : ∀ y : Char, x = y → isBlank y = true → isSpace x = true := by
    rintro y rfl hblank
    simp [isSpace, hblank]
  simp only [isLineBreak, Bool.or_eq_true, beq_iff_eq, or_assoc] at h
  rcases h with h | h | h | h
  · exact hnewline _ h (by decide)
  · exact hnewline _ h (by decide)
  · simp [isSpace, isBlank, h]
  · simp [isSpace, isBlank, h]

namespace Gap

/-- The gap keeps the comments met before, it closes the comment that its reader is inside of, and
each of its characters from `pos` on is a space or stands in a comment. -/
structure Fills (gap : Gap) (t : Text) (pos : Nat) (inside : Inside) (met : List MetComment) :
    Prop where
  kept : ∀ comment ∈ met, comment ∈ gap.met
  closes : inside ≠ .space →
    ∃ comment ∈ gap.met, comment.span.start = inside.start pos ∧ pos ≤ comment.span.stop
  blank : ∀ i x, t[i]? = some x → pos + i < gap.stop → isSpace x = true ∨
    ∃ comment ∈ gap.met, comment.span.start ≤ pos + i ∧ pos + i < comment.span.stop

variable {gap : Gap} {t : Text} {pos : Nat} {inside : Inside} {met : List MetComment} {c : Char}

/-- One more character, which is a space or stands in a comment. -/
theorem Fills.blank_cons (h : gap.Fills t (pos + 1) inside met)
    (hfirst : isSpace c = true ∨
      ∃ comment ∈ gap.met, comment.span.start ≤ pos ∧ pos < comment.span.stop) (i : Nat) (x : Char)
    (hx : (c :: t)[i]? = some x) (hlt : pos + i < gap.stop) : isSpace x = true ∨
      ∃ comment ∈ gap.met, comment.span.start ≤ pos + i ∧ pos + i < comment.span.stop := by
  cases i with
  | zero =>
      obtain rfl : c = x := by simpa using hx
      exact hfirst
  | succ i =>
      have hmore := h.blank i x (by simpa using hx)
      rw [Nat.add_right_comm, Nat.add_assoc] at hmore
      exact hmore hlt

/-- A character inside of a comment that goes on behind it. -/
theorem Fills.cons (h : gap.Fills t (pos + 1) inside met) (hinside : inside ≠ .space)
    (hfits : inside.Fits (pos + 1)) : gap.Fills (c :: t) pos inside met := by
  obtain ⟨comment, hmem, hstart, hstop⟩ := h.closes hinside
  have hle : inside.start (pos + 1) = inside.start pos ∧ inside.start pos ≤ pos := by
    cases inside with
    | space => exact absurd rfl hinside
    | line start afterBreak => exact ⟨rfl, Nat.le_of_lt_succ hfits⟩
    | block start afterBreak => exact ⟨rfl, Nat.le_of_lt_succ hfits⟩
  refine ⟨h.kept, fun _ => ⟨comment, hmem, hstart.trans hle.1, by omega⟩, ?_⟩
  exact h.blank_cons (.inr ⟨comment, hmem, by omega, by omega⟩)

/-- A gap that text comes after holds spaces and comments only. -/
theorem fills_readFrom {t : Text} {pos : Nat} {inside : Inside} {sawBreak : Bool}
    {met : List MetComment} (hfits : inside.Fits pos)
    (hrest : (readFrom t pos inside sawBreak met).rest ≠ []) :
    (readFrom t pos inside sawBreak met).Fills t pos inside met := by
  fun_induction readFrom t pos inside sawBreak met with
  | case1 | case2 | case3 => exact absurd rfl hrest
  | case4 rest pos sawBreak met ih =>
      have hline : Inside.line pos sawBreak ≠ .space := by simp
      have h := ih (by simp [Inside.Fits]) hrest
      have hslash := h.cons (c := '/') hline (show pos < pos + 1 + 1 by omega)
      obtain ⟨comment, hmem, hstart, hstop⟩ := h.closes hline
      simp only [Inside.start] at hstart
      refine ⟨h.kept, fun hspace => absurd rfl hspace, ?_⟩
      exact hslash.blank_cons (.inr ⟨comment, hmem, by omega, by omega⟩)
  | case5 rest pos sawBreak met ih =>
      have hblock : Inside.block pos sawBreak ≠ .space := by simp
      have h := ih (by simp [Inside.Fits]) hrest
      have hstar := h.cons (c := '*') hblock (show pos < pos + 1 + 1 by omega)
      obtain ⟨comment, hmem, hstart, hstop⟩ := h.closes hblock
      simp only [Inside.start] at hstart
      refine ⟨h.kept, fun hspace => absurd rfl hspace, ?_⟩
      exact hstar.blank_cons (.inr ⟨comment, hmem, by omega, by omega⟩)
  | case6 rest pos start afterBreak sawBreak met ih =>
      have h := ih trivial hrest
      have hmem := h.kept _ List.mem_cons_self
      have hlt : start < pos := hfits
      refine ⟨fun comment hmet => h.kept comment (List.mem_cons_of_mem _ hmet), fun _ =>
        ⟨_, hmem, rfl, Nat.le_add_right _ _⟩, ?_⟩
      intro i x hx hstop
      by_cases hnear : i < 2
      · exact .inr ⟨_, hmem, show start ≤ pos + i by omega, show pos + i < pos + 2 by omega⟩
      · obtain ⟨k, rfl⟩ : ∃ k, i = k + 2 := ⟨i - 2, by omega⟩
        have hmore := h.blank k x (by simpa using hx)
        rw [Nat.add_assoc, Nat.add_comm 2 k] at hmore
        exact hmore hstop
  | case7 c rest pos sawBreak met _ _ hbreak ih =>
      have h := ih trivial hrest
      exact ⟨h.kept, fun hspace => absurd rfl hspace,
        h.blank_cons (.inl (isSpace_of_isLineBreak hbreak))⟩
  | case8 c rest pos sawBreak met _ _ hbreak hspace ih =>
      have h := ih trivial hrest
      exact ⟨h.kept, fun hspace => absurd rfl hspace, h.blank_cons (.inl hspace)⟩
  | case9 c rest pos sawBreak met _ _ hbreak hspace =>
      refine ⟨by simp, fun hspace => absurd rfl hspace, ?_⟩
      intro i x _ hlt
      exact absurd hlt (Nat.not_lt.mpr (Nat.le_add_right _ _))
  | case10 c rest pos start afterBreak sawBreak met hbreak ih =>
      have h := ih trivial hrest
      refine ⟨fun comment hmet => h.kept comment (List.mem_cons_of_mem _ hmet), fun _ =>
        ⟨_, h.kept _ List.mem_cons_self, rfl, Nat.le_refl _⟩, ?_⟩
      exact h.blank_cons (.inl (isSpace_of_isLineBreak hbreak))
  | case11 c rest pos start afterBreak sawBreak met hbreak ih =>
      have hnext : (Inside.line start afterBreak).Fits (pos + 1) := Nat.lt_succ_of_lt hfits
      exact (ih hnext hrest).cons (by simp) hnext
  | case12 c rest pos start afterBreak sawBreak met _ ih =>
      have hnext : (Inside.block start afterBreak).Fits (pos + 1) := Nat.lt_succ_of_lt hfits
      exact (ih hnext hrest).cons (by simp) hnext

/-- Whether a line had ended where the comment starts that the reader is inside of, or else so
far. -/
def Inside.sawBreak (inside : Inside) (known : Bool) : Bool :=
  match inside with
  | .space => known
  | .line _ afterBreak => afterBreak
  | .block _ afterBreak => afterBreak

/-- Once a line has ended for a comment, it has ended for every later one. -/
def BreaksLast (met : List MetComment) : Prop :=
  met.Pairwise fun a b => a.afterBreak = true → b.afterBreak = true

/-- One more comment, which comes after all others. -/
theorem BreaksLast.concat (h : BreaksLast met.reverse) (comment : MetComment)
    (hknown : ∀ earlier ∈ met, earlier.afterBreak = true → comment.afterBreak = true) :
    BreaksLast (comment :: met).reverse := by
  rw [BreaksLast, List.reverse_cons, List.pairwise_append]
  refine ⟨h, List.pairwise_singleton _ _, ?_⟩
  intro a ha b hb
  rw [List.mem_singleton.mp hb]
  exact hknown a (List.mem_reverse.mp ha)

/-- The comments that come after the end of a line are the last ones of a gap. -/
theorem breaksLast_readFrom {t : Text} {pos : Nat} {inside : Inside} {sawBreak : Bool}
    {met : List MetComment} (hinside : inside.sawBreak sawBreak = true → sawBreak = true)
    (hmet : ∀ comment ∈ met, comment.afterBreak = true → inside.sawBreak sawBreak = true)
    (horder : BreaksLast met.reverse) : BreaksLast (readFrom t pos inside sawBreak met).met := by
  fun_induction readFrom t pos inside sawBreak met with
  | case1 | case3 | case9 => exact horder
  | case2 => exact horder.concat _ hmet
  | case4 rest pos sawBreak met ih => exact ih (fun h => h) hmet horder
  | case5 rest pos sawBreak met ih => exact ih (fun h => h) hmet horder
  | case6 rest pos start afterBreak sawBreak met ih =>
      refine ih (fun h => h) ?_ (horder.concat _ hmet)
      rw [List.forall_mem_cons]
      exact ⟨hinside, fun comment hmem hbreak => hinside (hmet comment hmem hbreak)⟩
  | case7 c rest pos sawBreak met _ _ hbreak ih => exact ih (fun h => h) (fun _ _ _ => rfl) horder
  | case8 c rest pos sawBreak met _ _ hbreak hspace ih => exact ih hinside hmet horder
  | case10 c rest pos start afterBreak sawBreak met hbreak ih =>
      exact ih (fun h => h) (fun _ _ _ => rfl) (horder.concat _ hmet)
  | case11 c rest pos start afterBreak sawBreak met hbreak ih => exact ih hinside hmet horder
  | case12 c rest pos start afterBreak sawBreak met _ ih =>
      refine ih (fun h => ?_) hmet horder
      rw [hinside h]
      rfl

/-- Behind a token that keeps its comments, a comment leads the next token if a line ended before
it. -/
theorem leadsNext_eq {before : TokenKind} (hblock : before.holdsBlockComment = true)
    (hline : before.passesLineComment = false) (comment : MetComment) :
    leadsNext before comment = comment.afterBreak := by
  simp [leadsNext, hblock, hline]

/-- Behind such a token, every comment after one that leads the next token leads it too. -/
theorem leads_of_start_lt {gap : Gap} {before : TokenKind} {next : Option Nat} {lo hi : Nat}
    (hblock : before.holdsBlockComment = true) (hline : before.passesLineComment = false)
    (horder : InOrder lo (gap.met.map MetComment.span) hi) (hbreaks : BreaksLast gap.met)
    {comment later : Comment} (hmem : comment ∈ gap.comments before next)
    (hlater : later ∈ gap.comments before next) (hlt : comment.span.start < later.span.start)
    {position : Nat} (hleads : comment.leads = some position) : later.leads = some position := by
  have hnext := leads_of_mem_comments hmem hleads
  obtain ⟨first, hfirst, rfl⟩ := List.mem_map.mp hmem
  obtain ⟨second, hsecond, rfl⟩ := List.mem_map.mp hlater
  simp only [leadsNext_eq hblock hline] at hleads hlt ⊢
  have hbreak : first.afterBreak = true := by
    by_contra hnot
    simp [hnot] at hleads
  -- The two comments were met in the order in which they start.
  have hstarts := List.pairwise_map.mp horder.pairwise
  have hknown : gap.met.Pairwise fun a b =>
      a.span.start < b.span.start → a.afterBreak = true → b.afterBreak = true := by
    refine List.Pairwise.imp ?_ hbreaks
    intro a b hbreak _
    exact hbreak
  have hsecondBreak := hknown.forall_of_forall_of_flip
    (fun _ _ hless => absurd hless (Nat.lt_irrefl _))
    (hstarts.imp fun h hless => absurd hless (Nat.lt_asymm h)) hfirst hsecond hlt hbreak
  rw [if_pos hsecondBreak, hnext]

end Gap

/-- From one position of `t` up to another stand spaces, comments and some marks only. -/
def Between (t : Text) (comments : List Comment) (marks : List Char) (lo hi : Nat) : Prop :=
  ∀ i x, lo ≤ i → i < hi → t[i]? = some x → isSpace x = true ∨ x ∈ marks ∨
    ∃ comment ∈ comments, comment.span.start ≤ i ∧ i < comment.span.stop

namespace Between

variable {t : Text} {comments : List Comment} {marks : List Char} {lo mid hi : Nat}

theorem append (h : Between t comments marks lo mid) (h' : Between t comments marks mid hi) :
    Between t comments marks lo hi := by
  intro i x hlo hhi hx
  rcases Nat.lt_or_ge i mid with hlt | hge
  · exact h i x hlo hlt hx
  · exact h' i x hge hhi hx

theorem mono {others : List Comment} {more : List Char} (h : Between t comments marks lo hi)
    (hcomments : ∀ comment ∈ comments, comment ∈ others) (hmarks : ∀ x ∈ marks, x ∈ more) :
    Between t others more lo hi := by
  intro i x hlo hhi hx
  rcases h i x hlo hhi hx with hspace | hmark | ⟨comment, hmem, hcovers⟩
  · exact .inl hspace
  · exact .inr (.inl (hmarks x hmark))
  · exact .inr (.inr ⟨comment, hcomments comment hmem, hcovers⟩)

/-- A mark of one character. -/
theorem singleton {x : Char} (hx : t[lo]? = some x) (hmem : x ∈ marks) :
    Between t comments marks lo (lo + 1) := by
  intro i y hlo hhi hy
  obtain rfl : i = lo := by omega
  rw [hx] at hy
  obtain rfl := Option.some.inj hy
  exact .inr (.inl hmem)

end Between

namespace Cursor

variable {t : Text} {a b c d z : Cursor}

/-- What stands in the gap before a token that there is. -/
theorem between_following {rest : Text} {size stop : Nat} {before : TokenKind} {sawBreak : Bool}
    {comments : List Comment} (hrest : rest = t.drop stop)
    (htext : (following size before stop rest sawBreak comments).here ≠ []) :
    Between t (following size before stop rest sawBreak comments).comments [] stop
      (following size before stop rest sawBreak comments).position := by
  subst hrest
  intro i x hlo hhi hx
  have hfills : (Gap.read (t.drop stop) stop sawBreak).Fills (t.drop stop) stop .space [] :=
    Gap.fills_readFrom trivial htext
  obtain ⟨k, rfl⟩ := Nat.exists_eq_add_of_le hlo
  rcases hfills.blank k x (by rwa [List.getElem?_drop]) hhi with hspace | ⟨met, hmem, hcovers⟩
  · exact .inl hspace
  · right
    right
    simp only [following, List.mem_append, List.mem_reverse]
    exact ⟨_, .inl (List.mem_map_of_mem hmem), hcovers⟩

/-- A comment that was met up to a place is met up to every later one. -/
theorem mem_comments_of_le (h : c ≤ d) {comment : Comment} (hmem : comment ∈ c.comments) :
    comment ∈ d.comments := by
  obtain ⟨met, hmet, -⟩ := between_comments h
  rw [← List.mem_reverse, hmet]
  exact List.mem_append_left _ (List.mem_reverse.mpr hmem)

/-- A place that is moved past has text. -/
theorem here_ne_nil (h : atStart t ≤ c) (hlt : c < d) : c.here ≠ [] := by
  have hsound := (sound_atStart t).of_le h
  have hnext := (sound_atStart t).of_le (h.trans hlt.le)
  have hposition := position_lt_lastStop hlt
  have hlength := hnext.position_le
  rw [hsound.here_eq]
  intro hnil
  have hle := List.drop_eq_nil_iff.mp hnil
  omega

/-- What stands between the token before a place and the token at the place. -/
theorem between_lastStop (hc : atStart t ≤ c) (hlt : c < d) (hd : d < z) :
    Between t d.comments [] d.lastStop d.position := by
  have htext := here_ne_nil (hc.trans hlt.le) hd
  obtain ⟨b, size, kind, length, hle, -, rfl⟩ := exists_past_of_lt hlt
  have hhere := ((sound_atStart t).of_le (hc.trans hle)).here_eq
  refine between_following ?_ htext
  rw [hhere, List.drop_drop]

/-- What stands before the first token of a text, from a position that all comments come after. -/
theorem between_atStart (hlt : atStart t < z) :
    ∃ lo, (∀ comment ∈ (atStart t).comments, lo ≤ comment.span.start) ∧
      Between t (atStart t).comments [] lo (atStart t).position := by
  have htext : (atStart t).here ≠ [] := here_ne_nil le_rfl hlt
  have hhere : (atStart t).here = (first t).here := rfl
  have hcomments : (atStart t).comments = (first t).comments := rfl
  have hposition : (atStart t).position = (first t).position := rfl
  obtain ⟨stop, -, hfirst⟩ := exists_first_eq t
  rw [hhere, hfirst] at htext
  rw [hcomments, hposition, hfirst]
  refine ⟨stop, fun comment hmem => ?_, between_following rfl htext⟩
  obtain ⟨met, hmet, horder, -⟩ :=
    following_comments t.length .finish stop (t.drop stop) true []
  rw [← List.mem_reverse, hmet] at hmem
  exact (horder.bounds (List.mem_map_of_mem (by simpa using hmem))).1

/-- A comment that starts before a token ends before it. -/
theorem stop_le_position (ha : atStart t ≤ a) (hle : a ≤ z) {comment : Comment}
    (hmem : comment ∈ z.comments) (hstart : comment.span.start < a.position) :
    comment.span.stop ≤ a.position := by
  obtain ⟨met, hmet, -, hlater⟩ := between_comments hle
  rw [← List.mem_reverse, hmet, List.mem_append] at hmem
  rcases hmem with hmem | hmem
  · have horder := ((sound_atStart t).of_le ha).inOrder
    exact (horder.bounds (List.mem_map_of_mem hmem)).2.2
  · have hafter := (hlater comment hmem).1
    omega

/-- A comment was met before a token, in the gap behind it, or later. -/
theorem mem_comments_past {size length : Nat} {kind : TokenKind}
    (hle : b.past size kind length ≤ z) :
    ∃ next, ∀ comment ∈ z.comments, comment ∈ b.comments ∨
      comment ∈ (Gap.read (b.here.drop length) (b.position + length) false).comments kind next ∨
        (b.past size kind length).position < comment.span.start ∧
          ∀ position, comment.leads = some position →
            (b.past size kind length).position < position := by
  obtain ⟨met, hmet, -, hlater⟩ := between_comments hle
  obtain ⟨next, hpast⟩ : ∃ next, (b.past size kind length).comments =
      ((Gap.read (b.here.drop length) (b.position + length) false).comments kind next).reverse ++
        b.comments := ⟨_, rfl⟩
  refine ⟨next, fun comment hmem => ?_⟩
  rw [← List.mem_reverse, hmet, List.mem_append, List.mem_reverse, hpast, List.mem_append,
    List.mem_reverse] at hmem
  rcases hmem with (hgap | hbefore) | hmem
  · exact .inr (.inl hgap)
  · exact .inl hbefore
  · exact .inr (.inr (hlater comment hmem))

/-- A comment that starts after a token has begun starts where that token ends or later. -/
theorem lastStop_le_start {size length : Nat} {kind : TokenKind} (hb : atStart t ≤ b)
    (hle : b.past size kind length ≤ z) {comment : Comment} (hmem : comment ∈ z.comments)
    (hstart : b.position ≤ comment.span.start) : b.position + length ≤ comment.span.start := by
  obtain ⟨next, hfound⟩ := mem_comments_past hle
  rcases hfound comment hmem with hbefore | hgap | ⟨hafter, -⟩
  · have horder := ((sound_atStart t).of_le hb).inOrder
    have hbounds := horder.bounds (List.mem_map_of_mem (List.mem_reverse.mpr hbefore))
    omega
  · have horder := (Gap.reads_read (b.here.drop length) (b.position + length) false).inOrder
    rw [← Gap.comments_map_span _ kind next] at horder
    exact (horder.bounds (List.mem_map_of_mem hgap)).1
  · have hstop := stop_le_following size kind (b.position + length) (b.here.drop length) false
      b.comments
    simp only [past] at hafter
    omega

/-- Behind a token that keeps its comments, every comment after one that leads the next token
leads it too. -/
theorem leads_of_start_lt {size length : Nat} {kind : TokenKind}
    (hblock : kind.holdsBlockComment = true) (hline : kind.passesLineComment = false)
    (hb : atStart t ≤ b) (hhold : b.holds length = true) (hle : b.past size kind length ≤ z)
    {comment later : Comment} (hmem : comment ∈ z.comments) (hlater : later ∈ z.comments)
    (hleads : comment.leads = some (b.past size kind length).position)
    (hlt : comment.span.start < later.span.start)
    (hstart : later.span.start < (b.past size kind length).position) :
    later.leads = some (b.past size kind length).position := by
  have hposition := position_lt_past hhold size kind
  have hsound := (sound_atStart t).of_le hb
  have hgap := Gap.reads_read (b.here.drop length) (b.position + length) false
  obtain ⟨next, hfound⟩ := mem_comments_past hle
  rcases hfound comment hmem with hbefore | hfirst | ⟨hafter, -⟩
  · have hle := hsound.leads_le comment hbefore _ hleads
    omega
  · have hspans := hgap.inOrder
    rw [← Gap.comments_map_span _ kind next] at hspans
    have hbounds := hspans.bounds (List.mem_map_of_mem hfirst)
    rcases hfound later hlater with hbefore | hsecond | ⟨hafter, -⟩
    · have horder := hsound.inOrder.bounds (List.mem_map_of_mem (List.mem_reverse.mpr hbefore))
      omega
    · exact Gap.leads_of_start_lt hblock hline hgap.inOrder
        (Gap.breaksLast_readFrom (fun h => h) (by simp) .nil) hfirst hsecond hlt hleads
    · omega
  · omega

end Cursor

end Syntax

end Typings
