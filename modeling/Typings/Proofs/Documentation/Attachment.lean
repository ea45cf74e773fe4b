import Typings.Proofs.Documentation.Walk
import Typings.Proofs.Reading.Between
import Typings.Proofs.Reading.Placing
import Typings.Proofs.Reading.Shape

/-!
# What stands between a comment and its node

The comment of a node is the last one of the gap in front of it, so that nothing but spaces and
tokens stands between the two.  The gap begins where the node before ends, and the only tokens that
can follow there are the separators of the body.

**Separators.**  A comment in front of a comma documents the next member of an enumeration, and one
in front of a semicolon the next member of a class.  The gap of the first member of an enumeration
may begin in front of the opening brace, at a brace that its text has further in front.

**Decorators.**  A statement begins behind its decorators, which are part of it.
-/

namespace Typings

open Syntax

section Strays

/-- Where the first token of the text in front of a node stands. -/
def Place.frontToken (place : Place) : Nat :=
  if place.leading.start = 0 then
    (Cursor.atStart place.chars).position
  else
    place.gapStop place.leading.start

/-- Where a node begins, with the decorators that may come in front of it. -/
def Place.opening (place : Place) (decorates : Bool) : Nat :=
  if decorates = true ∧ place.chars[place.frontToken]? = some '@' then
    place.frontToken
  else
    place.range.start

/-- What stands between the comment of a node and the node, spaces aside.  For a node without a
comment it is what stands in the text in front of the node. -/
def Place.strayText (place : Place) (decorates : Bool) : Text :=
  let start := (place.comment.map Span.stop).getD place.leading.start
  (place.between start (place.opening decorates)).filter fun x => !isSpace x

def Node.strayText (node : Node) (decorates : Bool) : Text :=
  match node.place? with
  | some place => place.strayText decorates
  | none => []

/-- The comment that documents a node. -/
def Node.comment? (node : Node) : Option Span :=
  node.place?.bind Place.comment

namespace DeclKind

/-- Whether decorators may come in front of the children of a node. -/
def decorates : DeclKind → Bool
  | .nameSpace => true
  | _ => false

/-- What may stand between the comment of the first child of a node and the child. -/
def openingMarks : DeclKind → List Char
  | .enumeration => ['{']
  | _ => []

/-- What may stand between the comment of any other child of a node and the child. -/
def separators : DeclKind → List Char
  | .classDef => [';']
  | .enumeration => [',']
  | _ => []

end DeclKind

/-- Between the comments of nodes in a row and the nodes stand only marks: the first ones in front
of the first node, if it has a comment, and the others in front of every other node. -/
structure Node.AttachAll (decorates : Bool) (opening separators : List Char) (nodes : List Node) :
    Prop where
  first : ∀ node ∈ nodes.head?, node.comment?.isSome →
    ∀ x ∈ node.strayText decorates, x ∈ opening
  later : ∀ node ∈ nodes.tail, ∀ x ∈ node.strayText decorates, x ∈ separators

/-- Between the comments of the children of a node and the children stand only the marks of its
kind. -/
def Node.Attaches (node : Node) : Prop :=
  AttachAll node.kind.decorates node.kind.openingMarks node.kind.separators node.children

end Strays

namespace Syntax

variable {t : Text} {marks : List Char} {b c d z : Cursor}

/-- Every comment that starts in front of the second position ends in front of the first one. -/
def EndBefore (comments : List Comment) (start stop : Nat) : Prop :=
  ∀ comment ∈ comments, comment.span.start < stop → comment.span.stop ≤ start

/-- Behind all comments in front of a position, only spaces and marks are left. -/
theorem Between.mem_marks {comments : List Comment} {lo start hi : Nat}
    (h : Between t comments marks lo hi) (hlo : lo ≤ start) (hends : EndBefore comments start hi) :
    ∀ x ∈ (Text.slice t start hi).filter fun x => !isSpace x, x ∈ marks := by
  intro x hx
  obtain ⟨hslice, hvisible⟩ := List.mem_filter.mp hx
  obtain ⟨i, hstart, hstop, hget⟩ := Text.exists_of_mem_slice hslice
  rcases h i x (hlo.trans hstart) hstop hget with hspace | hmark | ⟨comment, hmem, hle, hlt⟩
  · simp [hspace] at hvisible
  · exact hmark
  · have hends := hends comment hmem (lt_of_le_of_lt hle hstop)
    omega

/-- What stands between a token and the one behind the marks that follow it. -/
theorem Skips.between (h : Skips marks c d) (hmark : '?' ∉ marks) (hb : .atStart t ≤ b)
    (hlt : b < c) (hd : d < z) : Between t z.comments marks c.lastStop d.position := by
  induction h generalizing b with
  | refl c =>
      have hblank := Cursor.between_lastStop hb hlt hd
      exact hblank.mono (fun _ => Cursor.mem_comments_of_le hd.le) (by simp)
  | @step c d e text x hkind htext hx hnext hrest ih =>
      have hle := hrest.le.trans hd.le
      have hc : .atStart t ≤ c := hb.trans hlt.le
      have hblank := Cursor.between_lastStop hb hlt (lt_of_lt_of_le hnext.lt hle)
      have hquestion : x ≠ '?' := by
        rintro rfl
        exact hmark hx
      obtain ⟨hchar, hstop⟩ := Cursor.getElem?_of_mark hc hkind htext hquestion
      have hlast : d.lastStop = c.position + 1 := hnext.lastStop.trans hstop
      refine .append ?_ (.append (.singleton hchar hx) (hlast ▸ ih hc hnext.lt hd))
      exact hblank.mono (fun _ => Cursor.mem_comments_of_le (hnext.lt.le.trans hle)) (by simp)

theorem Skips.eq_of_nil (h : Skips [] c d) : c = d := by
  cases h with
  | refl => rfl
  | step _ _ hmem _ _ => cases hmem

/-- The token keeps every comment behind it, unless a line ends before the comment. -/
def TokenKind.KeepsComments (kind : TokenKind) : Prop :=
  kind.holdsBlockComment = true ∧ kind.passesLineComment = false

/-- Opening braces and semicolons keep their comments, and so does the last token of a brace and
the semicolons behind it. -/
theorem Skips.exists_next (h : Skips [';'] c d) (hnext : b.Next c)
    (hkeeps : b.token.kind.KeepsComments) :
    ∃ p, b ≤ p ∧ p.Next d ∧ p.token.kind.KeepsComments := by
  induction h generalizing b with
  | refl => exact ⟨b, le_rfl, hnext, hkeeps⟩
  | @step c _ _ text x hkind htext hx hstep _ ih =>
      obtain rfl := List.mem_singleton.mp hx
      obtain rfl : text = ";" := String.toList_inj.mp (htext.trans (by decide))
      have hsemicolon : c.token.kind.KeepsComments := by
        rw [hkind]
        exact ⟨by decide, by decide⟩
      obtain ⟨p, hle, hp, hlast⟩ := ih hstep hsemicolon
      exact ⟨p, hnext.lt.le.trans hle, hp, hlast⟩

theorem Opens.position_le {decorates : Bool} {entry : Outline} (h : Opens decorates c entry) :
    c.position ≤ entry.span.start := by
  rcases h with hstart | ⟨-, -, hle⟩
  · exact hstart.ge
  · exact hle

end Syntax

namespace ReadText

variable {r : ReadText} {a b c d e z : Cursor} {gap : Option Nat} {parent : Option Text}
variable {node : Node} {entry : Outline} {entries : List Outline} {decorates : Bool}
variable {marks : List Char}

/-- The statements of the text follow one another up to the place `z`. -/
structure LaidTo (r : ReadText) (z : Cursor) : Prop where
  follows : Follows true [] (.atStart r.chars) r.outline z
  comments : r.comments.toList = z.comments.reverse

theorem laidTo_of_ofText? {reading : Nat} {t : Text} (h : ofText? reading t = some r) :
    ∃ z, r.LaidTo z := by
  obtain ⟨⟨entries, comments⟩, hread, rfl⟩ := Option.map_eq_some_iff.mp h
  obtain ⟨z, hfollows, rfl⟩ := readDocument_follows hread
  exact ⟨z, hfollows, rfl⟩

namespace LaidTo

theorem sound (hr : r.LaidTo z) : z.Sound r.chars :=
  (Cursor.sound_atStart _).of_le hr.follows.le

theorem inOrder (hr : r.LaidTo z) :
    InOrder 0 (r.comments.toList.map Comment.span) z.position := by
  rw [hr.comments]
  exact hr.sound.inOrder

theorem mem_comments (hr : r.LaidTo z) {comment : Comment} :
    comment ∈ r.comments.toList ↔ comment ∈ z.comments := by
  rw [hr.comments, List.mem_reverse]

theorem mem_spans (hr : r.LaidTo z) {comment : Comment} (hmem : comment ∈ z.comments) :
    comment.span ∈ r.comments.toList.map Comment.span :=
  List.mem_map_of_mem (hr.mem_comments.mpr hmem)

end LaidTo

section Comments

/-- The comment of a node with a known gap is the last one of the gap. -/
theorem endBefore_commentOf (hr : r.LaidTo z) (hc : .atStart r.chars ≤ c) (hcz : c ≤ z)
    {g position : Nat} (hle : c.position ≤ position) {span : Span}
    (h : r.commentOf (some g) position = some span) :
    span ∈ z.comments.map Comment.span ∧ g ≤ span.start ∧ span.start < span.stop ∧
      EndBefore z.comments span.stop c.position := by
  have hfound : (r.commentsWithin ⟨g, position⟩).getLast? = some span :=
    (Option.filter_eq_some_iff.mp h).1
  obtain ⟨hmem, hstart, -⟩ := (mem_commentsWithin hr.inOrder).mp (List.mem_of_getLast? hfound)
  have hlt := (hr.inOrder.bounds hmem).2.1
  refine ⟨by simpa [hr.comments] using hmem, hstart, hlt, fun comment hcomment hbefore => ?_⟩
  refine hr.inOrder.stop_le_stop (hr.mem_spans hcomment) hmem ?_
  rcases Nat.lt_or_ge comment.span.start g with hearly | hlate
  · exact hearly.le.trans hstart
  · have hstop := Cursor.stop_le_position hc hcz hcomment hbefore
    exact start_le_of_getLast? hr.inOrder hfound
      ((mem_commentsWithin hr.inOrder).mpr ⟨hr.mem_spans hcomment, hlate, hstop.trans hle⟩)

/-- Where a node has no comment, no comment starts in its gap. -/
theorem endBefore_gap (hr : r.LaidTo z) (hb : .atStart r.chars ≤ b) (hlt : b < c) (hcd : c ≤ d)
    (hd : d ≤ z) {position : Nat} (hle : d.position ≤ position)
    (h : r.commentOf (some c.lastStop) position = none) :
    EndBefore z.comments c.lastStop d.position := by
  intro comment hcomment hbefore
  rcases Nat.lt_or_ge comment.span.start c.lastStop with hearly | hlate
  · obtain ⟨b', size, kind, length, hle', hhold, rfl⟩ := Cursor.exists_past_of_lt hlt
    have hb' := hb.trans hle'
    have hpast : b' < b'.past size kind length := Cursor.lt_past hhold
    -- Neither does a comment start inside of the token in front of the gap.
    have hstart : comment.span.start < b'.position := by
      by_contra hnot
      have hbehind := Cursor.lastStop_le_start hb' (hcd.trans hd) hcomment (Nat.le_of_not_lt hnot)
      exact absurd hearly (Nat.not_lt.mpr hbehind)
    have hstop := Cursor.stop_le_position hb' (hpast.le.trans (hcd.trans hd)) hcomment hstart
    exact hstop.trans (Cursor.position_lt_lastStop hpast).1.le
  · have hstop := Cursor.stop_le_position (hb.trans (hlt.le.trans hcd)) hd hcomment hbefore
    have hmem : comment.span ∈ r.commentsWithin ⟨c.lastStop, position⟩ :=
      (mem_commentsWithin hr.inOrder).mpr ⟨hr.mem_spans hcomment, hlate, hstop.trans hle⟩
    obtain ⟨last, hlast⟩ := Option.isSome_iff_exists.mp (List.getLast?_isSome.mpr
      (List.ne_nil_of_mem hmem))
    have hends := ((mem_commentsWithin hr.inOrder).mp (List.mem_of_getLast? hlast)).2.2
    have hsome : r.commentOf (some c.lastStop) position = some last :=
      Option.filter_eq_some_iff.mpr ⟨hlast, by simpa using hends⟩
    rw [hsome] at h
    cases h

/-- The comment of the first member of a class is the last one in front of its first token, where
the token before keeps its comments. -/
theorem endBefore_commentOf_none (hr : r.LaidTo z) (hb : .atStart r.chars ≤ b) (hnext : b.Next c)
    (hc : c ≤ z) (hkeeps : b.token.kind.KeepsComments) {span : Span}
    (h : r.commentOf none c.position = some span) :
    c.lastStop ≤ span.start ∧ span.start < span.stop ∧
      EndBefore z.comments span.stop c.position := by
  obtain ⟨last, hlast, rfl⟩ := Option.map_eq_some_iff.mp (Option.filter_eq_some_iff.mp h).1
  obtain ⟨hmem, hleads⟩ := List.mem_filter.mp (List.mem_of_getLast? hlast)
  rw [hr.mem_comments] at hmem
  have hspan := hr.mem_spans hmem
  have hleads : last.leads = some c.position := by simpa using hleads
  have hstart := Cursor.position_lt_start hb hnext.lt hc hmem hleads
  obtain ⟨size, length, hhold, -, rfl⟩ := hnext
  have hstop := Cursor.lastStop_le_start hb hc hmem hstart.le
  refine ⟨hstop, (hr.inOrder.bounds hspan).2.1, fun comment hcomment hbefore => ?_⟩
  refine hr.inOrder.stop_le_stop (hr.mem_spans hcomment) hspan ?_
  by_contra hnot
  have hlater := Cursor.leads_of_start_lt hkeeps.1 hkeeps.2 hb hhold hc hmem hcomment hleads
    (Nat.lt_of_not_le hnot) hbefore
  -- So the comment leads the token as well, and comes no later than the last one that does.
  exact hnot (start_le_of_getLast?_leading hr.inOrder hlast (hr.mem_comments.mpr hcomment) hlater)

end Comments

section Nodes

variable {membersAt : Option Nat}

/-- An entry begins with the first of its tokens, decorators included. -/
theorem opening_placeOf (hc : .atStart r.chars ≤ c) (hopens : Opens decorates c entry)
    (hfront : decorates = true →
      (r.placeOf gap entry.span membersAt).frontToken = c.position) :
    (r.placeOf gap entry.span membersAt).opening decorates = c.position := by
  rw [Place.opening]
  split
  · rename_i hdecorated
    exact hfront hdecorated.1
  · rename_i hplain
    rcases hopens with hstart | ⟨rfl, hmark, -⟩
    · exact hstart
    · rw [hfront rfl] at hplain
      exact absurd ⟨rfl, (Cursor.getElem?_of_mark hc hmark rfl (by decide)).1⟩ hplain

/-- Where a known gap begins, the first token behind it opens the text in front of an entry. -/
theorem frontToken_placeOf (hb : .atStart r.chars ≤ b) (hlt : b < c)
    (hopens : Opens decorates c entry) :
    (r.placeOf (some c.lastStop) entry.span membersAt).frontToken = c.position := by
  have hposition := Cursor.position_lt_lastStop hlt
  have hstart : (r.placeOf (some c.lastStop) entry.span membersAt).leading.start = c.lastStop :=
    Nat.min_eq_left (hposition.2.trans hopens.position_le)
  rw [Place.frontToken, hstart, if_neg (by omega)]
  exact (Cursor.position_eq_read hb hlt).symm

/-- Where the text behind the comment of an entry begins, or else the text in front of the entry. -/
def restOf (r : ReadText) (gap : Option Nat) (position : Nat) : Nat :=
  ((r.commentOf gap position).map Span.stop).getD (r.frontOf gap position)

theorem comment?_nodeOf :
    (r.nodeOf parent gap entry).comment? = r.commentOf gap entry.span.start := by
  rw [Node.comment?, place?_nodeOf]
  rfl

/-- Only marks stand between the comment of an entry and the entry. -/
theorem mem_strayText {lo : Nat} (hc : .atStart r.chars ≤ c) (hopens : Opens decorates c entry)
    (hfront : decorates = true → ∀ membersAt,
      (r.placeOf gap entry.span membersAt).frontToken = c.position)
    (hbetween : Between r.chars z.comments marks lo c.position)
    (hlo : r.restOf gap entry.span.start < c.position → lo ≤ r.restOf gap entry.span.start)
    (hends : EndBefore z.comments (r.restOf gap entry.span.start) c.position) :
    ∀ x ∈ (r.nodeOf parent gap entry).strayText decorates, x ∈ marks := by
  rw [Node.strayText, place?_nodeOf]
  intro x hx
  simp only [Place.strayText, opening_placeOf hc hopens fun h => hfront h _] at hx
  change x ∈ (Text.slice r.chars (r.restOf gap entry.span.start) c.position).filter _ at hx
  rcases Nat.lt_or_ge (r.restOf gap entry.span.start) c.position with hbefore | hbehind
  · exact hbetween.mem_marks (hlo hbefore) hends x hx
  · rw [Text.slice_of_le _ hbehind] at hx
    cases hx

/-- Only marks stand in front of an entry with a known gap and a comment. -/
theorem mem_strayText_some {g lo : Nat} (hr : r.LaidTo z) (hc : .atStart r.chars ≤ c)
    (hcz : c ≤ z) (hopens : Opens decorates c entry)
    (hfront : decorates = true → ∀ membersAt,
      (r.placeOf (some g) entry.span membersAt).frontToken = c.position)
    (hbetween : Between r.chars z.comments marks lo c.position)
    (hlo : ∀ comment ∈ z.comments, g ≤ comment.span.start → comment.span.start < c.position →
      lo ≤ comment.span.start)
    (hsome : (r.commentOf (some g) entry.span.start).isSome) :
    ∀ x ∈ (r.nodeOf parent (some g) entry).strayText decorates, x ∈ marks := by
  obtain ⟨span, hspan⟩ := Option.isSome_iff_exists.mp hsome
  obtain ⟨hmem, hg, hlt, hends⟩ := endBefore_commentOf hr hc hcz hopens.position_le hspan
  have hrest : r.restOf (some g) entry.span.start = span.stop := by rw [restOf, hspan]; rfl
  refine mem_strayText hc hopens hfront hbetween ?_ (hrest ▸ hends)
  rw [hrest]
  intro hbefore
  obtain ⟨comment, hcomment, rfl⟩ := List.mem_map.mp hmem
  have hstart := hlo comment hcomment hg (hlt.trans hbefore)
  exact hstart.trans hlt.le

/-- Only marks stand in front of an entry whose gap begins with them. -/
theorem mem_strayText_behind (hr : r.LaidTo z) (hb : .atStart r.chars ≤ b) (hlt : b < c)
    (hskips : Skips marks c d) (hopens : Opens decorates d entry) (hdz : d < z)
    (hmark : '?' ∉ marks) (hnone : decorates = true → marks = []) :
    ∀ x ∈ (r.nodeOf parent (some c.lastStop) entry).strayText decorates, x ∈ marks := by
  have hd := hb.trans (hlt.le.trans hskips.le)
  have hbetween := hskips.between hmark hb hlt hdz
  have hfront : decorates = true → ∀ membersAt,
      (r.placeOf (some c.lastStop) entry.span membersAt).frontToken = d.position := by
    intro hdecorates membersAt
    obtain rfl := hnone hdecorates
    obtain rfl := hskips.eq_of_nil
    exact frontToken_placeOf hb hlt hopens
  cases hcomment : r.commentOf (some c.lastStop) entry.span.start with
  | some span =>
      exact mem_strayText_some hr hd hdz.le hopens hfront hbetween (fun _ _ hg _ => hg)
        (by simp [hcomment])
  | none =>
      have hle := (Cursor.position_lt_lastStop hlt).2.trans (Cursor.position_le hskips.le)
      have hrest : r.restOf (some c.lastStop) entry.span.start = c.lastStop := by
        rw [restOf, hcomment]
        exact frontOf_some (hle.trans hopens.position_le)
      have hends := endBefore_gap hr hb hlt hskips.le hdz.le hopens.position_le hcomment
      exact mem_strayText hd hopens hfront hbetween (fun _ => hrest.ge) (hrest.symm ▸ hends)

/-- Entries that follow one another have only the marks between them in front. -/
theorem mem_strayText_of_follows (hr : r.LaidTo z) (hb : .atStart r.chars ≤ b) (hlt : b < c)
    (hskips : Skips marks c d) (h : Follows decorates marks d entries e) (he : e ≤ z)
    (hmark : '?' ∉ marks) (hnone : decorates = true → marks = [])
    (hnode : node ∈ r.nodesOf parent (some c.lastStop) entries) :
    ∀ x ∈ node.strayText decorates, x ∈ marks := by
  induction entries generalizing b c d with
  | nil => cases hnode
  | cons entry rest ih =>
      cases h with
      | cons hopens hlt' hstop _ hskips' hrest =>
          have hdz : d < z := lt_of_lt_of_le hlt' (hskips'.le.trans (hrest.le.trans he))
          rw [nodesOf, List.mem_cons] at hnode
          rcases hnode with rfl | hnode
          · exact mem_strayText_behind hr hb hlt hskips hopens hdz hmark hnone
          · rw [hstop] at hnode
            exact ih (hb.trans (hlt.le.trans hskips.le)) hlt' hskips' hrest hnode

end Nodes

section Bodies

variable {o o' n : Cursor}

theorem openBrace_next (ho : .atStart r.chars ≤ o) (hmark : o.token.kind = .mark leftBrace)
    (hnext : o.Next c) : r.openBrace o.position = some c.lastStop := by
  obtain ⟨m, hm, hlow, hhigh, -⟩ := r.openBrace_eq ho le_rfl hmark
  have hstop := hnext.lastStop.trans (Cursor.getElem?_of_mark ho hmark rfl (by decide)).2
  rw [hm, hstop]
  congr 1
  omega

/-- Nothing stands between the comment of the first member of a class and the member. -/
theorem mem_strayText_classDef (hr : r.LaidTo z) (ho : .atStart r.chars ≤ o)
    (hmark : o.token.kind = .mark leftBrace) (hnext : o.Next o') (hskips : Skips [';'] o' c)
    (hopens : Opens false c entry) (hcz : c < z)
    (hsome : (r.commentOf none entry.span.start).isSome) :
    ∀ x ∈ (r.nodeOf parent none entry).strayText false, x ∈ [] := by
  have hkeeps : o.token.kind.KeepsComments := by
    rw [hmark]
    exact ⟨by decide, by decide⟩
  obtain ⟨p, hop, hlast, hkeeps⟩ := hskips.exists_next hnext hkeeps
  have hp := ho.trans hop
  have hstart : entry.span.start = c.position := by simpa [Opens] using hopens
  have hnone : Skips [] c c := .refl c
  have hbetween := hnone.between (by simp) hp hlast.lt hcz
  obtain ⟨span, hspan⟩ := Option.isSome_iff_exists.mp hsome
  have hrest : r.restOf none entry.span.start = span.stop := by rw [restOf, hspan]; rfl
  rw [hstart] at hspan
  obtain ⟨hstop, hlt, hends⟩ := endBefore_commentOf_none hr hp hlast hcz.le hkeeps hspan
  refine mem_strayText (hp.trans hlast.lt.le) hopens (by simp) hbetween ?_ (hrest ▸ hends)
  rw [hrest]
  exact fun _ => hstop.trans hlt.le

/-- Only the brace can stand between the comment of the first member of an enumeration and the
member. -/
theorem mem_strayText_enumeration {m : Nat} (hr : r.LaidTo z) (hn : .atStart r.chars ≤ n)
    (hname : n.Next o) (hmark : o.token.kind = .mark leftBrace) (hnext : o.Next c)
    (hopens : Opens false c entry) (hcz : c < z) (hm : n.position < m)
    (hsome : (r.commentOf (some m) entry.span.start).isSome) :
    ∀ x ∈ (r.nodeOf parent (some m) entry).strayText false, x ∈ ['{'] := by
  have hbrace : Skips ['{'] o c := .step hmark (x := '{') rfl (by simp) hnext (.refl c)
  have hbetween := hbrace.between (by decide) hn hname.lt hcz
  have hc := hn.trans (hname.lt.le.trans hnext.lt.le)
  refine mem_strayText_some hr hc hcz.le hopens (by simp) hbetween ?_ hsome
  intro comment hmem hg _
  have hoz := hnext.lt.le.trans hcz.le
  obtain ⟨size, length, -, -, rfl⟩ := hname
  exact Cursor.lastStop_le_start hn hoz hmem (by omega)

theorem kind_nodeOf (parent : Option Text) (gap : Option Nat) (entry : Outline) :
    (r.nodeOf parent gap entry).kind = r.kindOf entry.form := by
  obtain ⟨⟩ := entry
  rfl

theorem decorates_kindOf (form : Form) : (r.kindOf form).decorates = form.decorates := by
  cases form <;> rfl

theorem openingMarks_kindOf {form : Form} (h : form ≠ .enumeration) :
    (r.kindOf form).openingMarks = [] := by
  cases form <;> simp_all [kindOf, DeclKind.openingMarks]

theorem separators_kindOf {form : Form} (hclass : form ≠ .classDef) (henum : form ≠ .enumeration) :
    (r.kindOf form).separators = [] := by
  cases form <;> simp_all [kindOf, DeclKind.separators]

/-- Entries that follow one another keep their comments, if the first one does. -/
theorem attachAll_nodesOf {opening : List Char} (hr : r.LaidTo z) (hc : .atStart r.chars ≤ c)
    (h : Follows decorates marks c entries e) (he : e ≤ z) (hmark : '?' ∉ marks)
    (hnone : decorates = true → marks = [])
    (hfirst : ∀ entry, Opens decorates c entry → c < z →
      (r.commentOf gap entry.span.start).isSome →
      ∀ x ∈ (r.nodeOf parent gap entry).strayText decorates, x ∈ opening) :
    Node.AttachAll decorates opening marks (r.nodesOf parent gap entries) := by
  cases h with
  | nil => exact ⟨nofun, nofun⟩
  | cons hopens hlt hstop _ hskips hrest =>
      have hcz : c < z := lt_of_lt_of_le hlt (hskips.le.trans (hrest.le.trans he))
      constructor
      · rintro node ⟨⟩ hsome
        rw [comment?_nodeOf] at hsome
        exact hfirst _ hopens hcz hsome
      · intro node hnode
        rw [nodesOf, List.tail_cons, hstop] at hnode
        exact mem_strayText_of_follows hr hc hlt hskips hrest he hmark hnone hnode

/-- Only the marks of its kind stand in front of the children of an entry. -/
theorem attaches_nodeOf (hr : r.LaidTo z) (h : Laid a entry b) (ha : .atStart r.chars ≤ a)
    (hb : b ≤ z) (parent : Option Text) (gap : Option Nat) :
    (r.nodeOf parent gap entry).Attaches := by
  rw [Node.Attaches, children_nodeOf, kind_nodeOf, decorates_kindOf]
  cases h with
  | leaf => exact ⟨nofun, nofun⟩
  | body hclass henum hle hmark hnext hall he =>
      have ho := ha.trans hle
      rw [openingMarks_kindOf henum, separators_kindOf hclass henum, Option.bind_some,
        openBrace_next ho hmark hnext]
      exact attachAll_nodesOf hr (ho.trans hnext.lt.le) hall (he.trans hb) (by simp)
        (fun _ => rfl) fun _ hopens hcz _ =>
          mem_strayText_behind hr ho hnext.lt (.refl _) hopens hcz (by simp) fun _ => rfl
  | classDef hle hmark hnext hskips hall he =>
      have ho := ha.trans hle
      have hc := ho.trans (hnext.lt.le.trans hskips.le)
      change Node.AttachAll false [] [';'] _
      exact attachAll_nodesOf hr hc hall (he.trans hb) (by decide) (by simp)
        fun _ hopens hcz => mem_strayText_classDef hr ho hmark hnext hskips hopens hcz
  | enumeration hle hname hmark hnext hall he =>
      have hn := ha.trans hle
      have hc := hn.trans (hname.lt.le.trans hnext.lt.le)
      obtain ⟨m, hm, hlow, -⟩ := r.openBrace_eq hn hname.lt.le hmark
      rw [Option.bind_some, hm]
      change Node.AttachAll false ['{'] [','] _
      exact attachAll_nodesOf hr hc hall (he.trans hb) (by decide) (by simp)
        fun _ hopens hcz => mem_strayText_enumeration hr hn hname hmark hnext hopens hcz hlow

mutual

theorem attaches_of_mem_walk (hr : r.LaidTo z) (entry : Outline) {a b : Cursor}
    (h : Laid a entry b) (ha : .atStart r.chars ≤ a) (hb : b ≤ z) (parent : Option Text)
    (gap : Option Nat) (hnode : node ∈ (r.nodeOf parent gap entry).walk) : node.Attaches := by
  rw [Node.walk_eq, List.mem_cons] at hnode
  rcases hnode with rfl | hnode
  · exact attaches_nodeOf hr h ha hb parent gap
  · obtain ⟨form, name, exported, span, bodyFrom, children⟩ := entry
    cases h with
    | leaf => cases hnode
    | body _ _ hle _ hnext hall he =>
        exact attaches_of_mem_walkAll hr children hall (ha.trans (hle.trans hnext.lt.le))
          (he.trans hb) _ _ hnode
    | classDef hle _ hnext hskips hall he =>
        exact attaches_of_mem_walkAll hr children hall
          (ha.trans (hle.trans (hnext.lt.le.trans hskips.le))) (he.trans hb) _ _ hnode
    | enumeration hle hname _ hnext hall he =>
        exact attaches_of_mem_walkAll hr children hall
          (ha.trans (hle.trans (hname.lt.le.trans hnext.lt.le))) (he.trans hb) _ _ hnode

/-- Every node of a walk has only the marks of its kind in front of its children. -/
theorem attaches_of_mem_walkAll (hr : r.LaidTo z) (entries : List Outline) {decorates : Bool}
    {marks : List Char} {c d : Cursor} (h : Follows decorates marks c entries d)
    (hc : .atStart r.chars ≤ c) (hd : d ≤ z) (parent : Option Text) (gap : Option Nat)
    (hnode : node ∈ Node.walkAll (r.nodesOf parent gap entries)) : node.Attaches := by
  cases entries with
  | nil => cases hnode
  | cons entry rest =>
      cases h with
      | cons _ hlt _ hlaid hskips hrest =>
          rw [nodesOf, Node.walkAll, List.mem_append] at hnode
          rcases hnode with hnode | hnode
          · exact attaches_of_mem_walk hr entry hlaid hc (hskips.le.trans (hrest.le.trans hd)) _ _
              hnode
          · exact attaches_of_mem_walkAll hr rest hrest (hc.trans (hlt.le.trans hskips.le)) hd _ _
              hnode

end

/-- Nothing stands between the comment of the first statement of the text and the statement. -/
theorem mem_strayText_document (hr : r.LaidTo z) (hopens : Opens true (.atStart r.chars) entry)
    (hz : .atStart r.chars < z) (hsome : (r.commentOf (some 0) entry.span.start).isSome) :
    ∀ x ∈ (r.nodeOf parent (some 0) entry).strayText true, x ∈ [] := by
  obtain ⟨lo, hlo, hbetween⟩ := Cursor.between_atStart hz
  have hbetween : Between r.chars z.comments [] lo (Cursor.atStart r.chars).position :=
    hbetween.mono (fun _ => Cursor.mem_comments_of_le hz.le) (by simp)
  have hfront : ∀ membersAt, (r.placeOf (some 0) entry.span membersAt).frontToken =
      (Cursor.atStart r.chars).position := by
    intro membersAt
    exact if_pos (Nat.zero_min _)
  refine mem_strayText_some hr le_rfl hz.le hopens (fun _ => hfront) hbetween ?_ hsome
  intro comment hmem _ hbefore
  -- A comment in front of the first token was met there.
  obtain ⟨met, hmet, -, hlater⟩ := Cursor.between_comments hz.le
  rw [← List.mem_reverse, hmet, List.mem_append, List.mem_reverse] at hmem
  rcases hmem with hmem | hmem
  · exact hlo comment hmem
  · have hafter := (hlater comment hmem).1
    omega

/-- Nothing stands between the comments of the statements of the text and the statements. -/
theorem attachAll_statements (hr : r.LaidTo z) :
    Node.AttachAll true [] [] (r.nodesOf none (some 0) r.outline) :=
  attachAll_nodesOf hr le_rfl hr.follows le_rfl (by simp) (fun _ => rfl)
    fun _ hopens hz => mem_strayText_document hr hopens hz

end Bodies

end ReadText

namespace Document

variable {reading : Nat} {name t : Text} {document : Document}

/-- **What comments document.**  Nothing but spaces stands between the comment of a statement and
the statement with its decorators.  The same holds of the children of every node, except that the
brace or a comma may stand there for a member of an enumeration, and a semicolon for a member of a
class that is not its first one.  No comment is passed over between two nodes: where the second one
has no comment, nothing else stands in all of the text in front of it.  The index holds under each
name the comment of a node of that name. -/
theorem attaches_of_ofText (h : ofText reading name t = .ok document) :
    Node.AttachAll true [] [] document.statements ∧
    (∀ node ∈ Node.walkAll document.statements, node.Attaches) ∧
    ∀ name doc, document.index.get? name = some doc →
      ∃ node ∈ Node.walkAll document.statements,
        node.qualifiedName = some name ∧ node.commentDoc = some doc := by
  have hindex : ∀ name doc, document.index.get? name = some doc →
      ∃ node ∈ Node.walkAll document.statements,
        node.qualifiedName = some name ∧ node.commentDoc = some doc := by
    intro name doc hdoc
    rw [get?_index_eq] at hdoc
    obtain ⟨node, hnode, hcomment⟩ := List.mem_filterMap.mp (List.mem_of_getLast? hdoc)
    obtain ⟨hmem, hname⟩ := List.mem_filter.mp hnode
    exact ⟨node, hmem, by simpa using hname, hcomment⟩
  simp only [ofText] at h
  split at h
  · rename_i r hread
    obtain rfl : r.document name = document := Except.ok.inj h
    obtain ⟨z, hr⟩ := ReadText.laidTo_of_ofText? hread
    refine ⟨ReadText.attachAll_statements hr, fun node hnode => ?_, hindex⟩
    exact ReadText.attaches_of_mem_walkAll hr r.outline hr.follows le_rfl le_rfl _ _ hnode
  · cases h

/-- Decorators behind a comment, and comments in front of a semicolon and a comma. -/
theorem attaches_of_ofText_bodies :
    ∃ (t : Text) (document : Document), ofText 0 [] t = .ok document ∧
      document.index.names.length = 4 ∧
      Node.AttachAll true [] [] document.statements ∧
      (∀ node ∈ Node.walkAll document.statements, node.Attaches) ∧
      ∀ name doc, document.index.get? name = some doc →
        ∃ node ∈ Node.walkAll document.statements,
          node.qualifiedName = some name ∧ node.commentDoc = some doc := by
  obtain ⟨document, hread, hlength⟩ := exists_ofText 0 []
    ("/* a */ @d export class A ".toList ++ "\x7b x; /* b */ ; y \x7d\n".toList ++
      "namespace N \x7b enum E \x7b ".toList ++ "/* c */ P /* d */, Q \x7d \x7d\n".toList)
    (fun document => document.index.names.length = 4) (by decide +kernel)
  exact ⟨_, document, hread, hlength, attaches_of_ofText hread⟩

/-- A comment in front of a comma documents the member behind the comma. -/
theorem strayText_enumeration :
    ∃ document : Document, ofText 0 [] "enum E \x7b A /* x */, B \x7d".toList = .ok document ∧
      (Node.walkAll document.statements).map
          (fun node => (node.qualifiedName, node.strayText false)) =
        [(some "E".toList, []), (some "E.A".toList, []), (some "E.B".toList, [','])] ∧
      document.index.entries = [("E.B".toList, .line "x".toList)] :=
  exists_ofText _ _ _ _ (by decide +kernel)

end Document

end Typings
