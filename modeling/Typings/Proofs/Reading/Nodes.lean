import Typings.Proofs.Layout.Tiling
import Typings.Proofs.Reading.Comments
import Typings.Proofs.Reading.Statements

/-!
# The nodes of a text that was read

An entry that was read between two places becomes a node that stands there.  The text in
front of it begins where the node before ends, or behind the brace of the node around.

**Classes.**  The first member of a class has no known gap, and its comment is found by the
token that it leads.  That token comes after the first token of the class, and so does
every comment that leads it.
-/

namespace Typings

open Syntax

/-- A character that stands somewhere in a text is found there or before. -/
theorem Text.indexOf?_le {t : Text} {x : Char} {k : Nat} (h : t[k]? = some x) :
    ∃ i, indexOf? t x = some i ∧ i ≤ k ∧ t[i]? = some x := by
  obtain ⟨hk, hx⟩ := List.getElem?_eq_some_iff.mp h
  obtain ⟨i, hi⟩ := Option.isSome_iff_exists.mp (show (indexOf? t x).isSome by
    rw [indexOf?, List.findIdx?_isSome, List.any_eq_true]
    exact ⟨x, hx ▸ List.getElem_mem hk, by simp⟩)
  obtain ⟨hlt, hchar, hfirst⟩ := List.findIdx?_eq_some_iff_getElem.mp hi
  refine ⟨i, hi, Nat.le_of_not_lt fun hki => hfirst k hki (by simp [hx]), ?_⟩
  rw [List.getElem?_eq_getElem hlt]
  simpa using hchar

namespace ReadText

variable {r : ReadText} {a b c d z : Cursor} {gap : Option Nat}

/-- The reading of the text ended at the place `z`. -/
structure ReadTo (r : ReadText) (z : Cursor) : Prop where
  covers : CoversAll (.atStart r.chars) r.outline z
  comments : r.comments.toList = z.comments.reverse

/-- A text that is well formed was read to some place. -/
theorem readTo_of_ofText? {reading : Nat} {t : Text} (h : ofText? reading t = some r) :
    r.source = ⟨reading, Text.unixLines t⟩ ∧ ∃ z, r.ReadTo z := by
  obtain ⟨⟨entries, comments⟩, hread, rfl⟩ := Option.map_eq_some_iff.mp h
  obtain ⟨z, hcovers, rfl⟩ := readDocument_covers hread
  exact ⟨rfl, z, hcovers, rfl⟩

namespace ReadTo

theorem inOrder (hr : r.ReadTo z) :
    InOrder 0 (r.comments.toList.map Comment.span) z.position := by
  rw [hr.comments]
  exact ((Cursor.sound_atStart _).of_le hr.covers.le).inOrder

end ReadTo

section Places

/-- The comment that documents a node at a position. -/
def commentOf (r : ReadText) (gap : Option Nat) (position : Nat) : Option Span :=
  (r.significantComment position (gap.map fun g => ⟨g, position⟩)).filter
    fun span => span.stop ≤ position

/-- Where the text in front of a node at a position begins. -/
def frontOf (r : ReadText) (gap : Option Nat) (position : Nat) : Nat :=
  min ((gap <|> (r.commentOf gap position).map Span.start).getD position) position

theorem frontOf_some {g position : Nat} (h : g ≤ position) : r.frontOf (some g) position = g := by
  simp [frontOf, h]

/-- The comment that documents a node stands in the text in front of it. -/
theorem commentOf_some (hr : r.ReadTo z) {position : Nat} {span : Span}
    (h : r.commentOf gap position = some span) :
    r.frontOf gap position ≤ span.start ∧ span.start < span.stop ∧ span.stop ≤ position := by
  have hfound := Option.filter_eq_some_iff.mp h
  have hstop : span.stop ≤ position := by simpa using hfound.2
  cases gap with
  | some g =>
      obtain ⟨hstart, hlt, _⟩ := significantComment_some hr.inOrder hfound.1
      exact ⟨Nat.le_trans (Nat.min_le_left _ _) hstart, hlt, hstop⟩
  | none =>
      obtain ⟨comment, hlast, rfl⟩ := Option.map_eq_some_iff.mp hfound.1
      have hmem := (List.mem_filter.mp (List.mem_of_getLast? hlast)).1
      have hlt := (hr.inOrder.bounds (List.mem_map_of_mem hmem)).2.1
      exact ⟨by simp [frontOf, h], hlt, hstop⟩

/-- The text in front of the first member of a class begins after the first token. -/
theorem position_lt_frontOf (hr : r.ReadTo z) (ha : .atStart r.chars ≤ a) (hlt : a < b)
    (hb : b ≤ z) : a.position < r.frontOf none b.position := by
  have hposition := Cursor.position_lt hlt
  cases h : r.commentOf none b.position with
  | none => simpa [frontOf, h] using hposition
  | some span =>
      obtain ⟨comment, hlast, rfl⟩ :=
        Option.map_eq_some_iff.mp (Option.filter_eq_some_iff.mp h).1
      obtain ⟨hmem, hleads⟩ := List.mem_filter.mp (List.mem_of_getLast? hlast)
      have hstart := Cursor.position_lt_start ha hlt hb (by simpa [hr.comments] using hmem)
        (by simpa using hleads)
      have hfront : r.frontOf none b.position = min comment.span.start b.position := by
        simp [frontOf, h]
      omega

/-- A token that is moved past starts with a character that is not blank. -/
theorem visible_position (ha : .atStart r.chars ≤ a) (hlt : a < b) :
    ∃ x, r.chars[a.position]? = some x ∧ isBlank x = false := by
  have hsound := (Cursor.sound_atStart r.chars).of_le ha
  have hb := (Cursor.sound_atStart r.chars).of_le (ha.trans hlt.le)
  have hlength : a.position < r.chars.length := by
    have := Cursor.position_lt_lastStop hlt
    have := hb.position_le
    omega
  refine ⟨_, List.getElem?_eq_getElem hlength, ?_⟩
  have hspace := hsound.nonspace _ _
    (hsound.here_eq.trans (List.drop_eq_getElem_cons hlength))
  simp only [isSpace, Bool.or_eq_false_iff] at hspace
  exact hspace.1.1.1

/-- An entry that was read between two places stands there. -/
theorem stands_placeOf (hr : r.ReadTo z) (ha : .atStart r.chars ≤ a) (hlt : a < b)
    {membersAt : Option Nat} :
    (r.placeOf gap ⟨a.position, b.lastStop⟩ membersAt).Stands r.source
      (r.frontOf gap a.position) where
  source_eq := rfl
  leading_start := rfl
  lo_le := Nat.min_le_right _ _
  comment _ hspan := commentOf_some hr hspan
  lt := (Cursor.position_lt_lastStop hlt).1
  stop_le := by
    have hsound := (Cursor.sound_atStart r.chars).of_le (ha.trans hlt.le)
    exact Nat.le_trans hsound.lastStop_le hsound.position_le
  visible := visible_position ha hlt

/-- The first opening brace from a place on, where the token at a later place is one. -/
theorem openBrace_eq (hc : .atStart r.chars ≤ c) (hle : c ≤ d)
    (hmark : d.token.kind = .mark leftBrace) :
    ∃ m, r.openBrace c.position = some m ∧ c.position < m ∧ m ≤ d.position + 1 ∧
      r.chars[m - 1]? = some '{' := by
  have hsound := (Cursor.sound_atStart r.chars).of_le (hc.trans hle)
  have hposition := Cursor.position_le hle
  have hbrace : (r.chars.drop c.position)[d.position - c.position]? = some '{' := by
    have hhead := hsound.brace hmark
    rw [hsound.here_eq, List.head?_drop] at hhead
    rw [List.getElem?_drop, ← hhead]
    congr 1
    omega
  obtain ⟨i, hfound, hle, hchar⟩ := Text.indexOf?_le hbrace
  refine ⟨c.position + i + 1, by simp [openBrace, hfound], by omega, by omega, ?_⟩
  rwa [Nat.add_sub_cancel, ← List.getElem?_drop]

end Places

section Trees

/-- Where the last of the entries ends, or else the position. -/
def lastStopOf (position : Nat) (entries : List Outline) : Nat :=
  (entries.getLast?.map fun entry => entry.span.stop).getD position

theorem lastStopOf_cons (position : Nat) (entry : Outline) (rest : List Outline) :
    lastStopOf position (entry :: rest) = lastStopOf entry.span.stop rest := by
  cases rest <;> simp [lastStopOf, List.getLast?_cons]

theorem lastStopOf_le {g : Nat} {entries : List Outline} (h : CoversAll c entries d)
    (hg : g ≤ d.lastStop) : lastStopOf g entries ≤ d.lastStop := by
  induction entries generalizing c g with
  | nil => exact hg
  | cons entry rest ih =>
      cases h with
      | cons hle hentry hrest =>
          rw [lastStopOf_cons, hentry.span_eq]
          have hstop := (Cursor.position_lt_lastStop hentry.lt).2
          exact ih hrest (Cursor.lastStop_le hrest.le hstop)

/-- Only the kind of an interface is that of an interface. -/
theorem kindOf_eq_interface {form : Form} : r.kindOf form = .interface ↔ form = .interface := by
  cases form <;> simp [kindOf]

mutual

/-- The node of an entry that was read between two places. -/
theorem tiles_nodeOf (hr : r.ReadTo z) (entry : Outline) {a b : Cursor} (h : Covers a entry b)
    (ha : .atStart r.chars ≤ a) (hb : b ≤ z) (parent : Option Text) (gap : Option Nat) :
    Node.Tiles r.source (r.frontOf gap a.position) (r.nodeOf parent gap entry) b.lastStop := by
  obtain ⟨form, name, exported, span, bodyFrom, children⟩ := entry
  cases h with
  | plain hform hlt hall =>
      -- No brace is looked for, so the gap of the first child is not known.
      obtain ⟨inner, last, hinner, hlast, htiles⟩ := tileAll_nodesOf_none hr children hall ha hlt
        hb (if qualifiesMembers form then name else none)
      refine .mk (stands_placeOf hr ha (lt_of_lt_of_le hlt hall.le)) ⟨hinner, ?_, ?_, ?_⟩ htiles
        hlast
      · simp [placeOf, kindOf_eq_interface, hform]
      · exact fun hkind => absurd (kindOf_eq_interface.mp hkind) hform
      · exact fun hkind => absurd (kindOf_eq_interface.mp hkind) hform
  | @braced _ n o o' e _ _ _ _ _ han hno hmark hlt hall hlast hinterface =>
      -- The brace that is found may stand before the one that was read, but not after it.
      obtain ⟨m, hm, hlow, hhigh, hbrace⟩ := r.openBrace_eq (ha.trans han) hno hmark
      have hstart := Cursor.position_le han
      have hnext := Cursor.position_lt hlt
      have hstop := Cursor.position_lt_lastStop (lt_of_lt_of_le hlt hall.le)
      have htiles := tileAll_nodesOf hr children hall (ha.trans (han.trans (hno.trans hlt.le)))
        (hlast.trans hb) (if qualifiesMembers form then name else none)
        (show m ≤ o'.position by omega)
      have hab := lt_of_le_of_lt (han.trans hno) (lt_of_lt_of_le hlt (hall.le.trans hlast))
      simp only [nodeOf, Option.bind_some, hm]
      refine .mk (stands_placeOf hr ha hab) ⟨?_, ?_, fun _ => hbrace, ?_⟩ htiles
        (Nat.le_trans (lastStopOf_le hall (by omega)) (Cursor.lastStop_le hlast hstop.2))
      · simp only [placeOf]
        omega
      · simp [placeOf, kindOf_eq_interface]
      · intro hkind
        obtain ⟨-, henclosed⟩ := hinterface (kindOf_eq_interface.mp hkind)
        have hclose := henclosed.lt
        have hoe := Cursor.position_le hall.le
        have heb := Cursor.position_lt_lastStop hclose
        have hbefore : .atStart r.chars ≤ e :=
          ha.trans (han.trans (hno.trans (hlt.le.trans hall.le)))
        obtain ⟨x, hx, hblank⟩ := visible_position hbefore hclose
        exact ⟨e.position, x, by omega, heb.1, hx, hblank⟩

/-- The nodes of entries that were read one after the other, where their gap is known. -/
theorem tileAll_nodesOf (hr : r.ReadTo z) (entries : List Outline) {c d : Cursor}
    (h : CoversAll c entries d) (hc : .atStart r.chars ≤ c) (hd : d ≤ z) (parent : Option Text)
    {g : Nat} (hg : g ≤ c.position) :
    Node.TileAll r.source g (r.nodesOf parent (some g) entries) (lastStopOf g entries) := by
  cases entries with
  | nil => exact .nil
  | cons entry rest =>
      cases h with
      | @cons _ a b _ _ _ hle hentry hrest =>
          have hfront := r.frontOf_some (Nat.le_trans hg (Cursor.position_le hle))
          have hnode := tiles_nodeOf hr entry hentry (hc.trans hle) (hrest.le.trans hd) parent
            (some g)
          have hstop := (Cursor.position_lt_lastStop hentry.lt).2
          rw [hfront] at hnode
          rw [lastStopOf_cons]
          refine .cons hnode ?_
          rw [hentry.span_eq]
          exact tileAll_nodesOf hr rest hrest (hc.trans (hle.trans hentry.lt.le)) hd parent hstop

/-- The nodes of entries that were read one after the other, where their gap is not known. -/
theorem tileAll_nodesOf_none (hr : r.ReadTo z) (entries : List Outline) {a c d : Cursor}
    (h : CoversAll c entries d) (ha : .atStart r.chars ≤ a) (hlt : a < c) (hd : d ≤ z)
    (parent : Option Text) :
    ∃ lo last, a.position < lo ∧ last ≤ d.lastStop ∧
      Node.TileAll r.source lo (r.nodesOf parent none entries) last := by
  cases entries with
  | nil =>
      have hstop := (Cursor.position_lt_lastStop (lt_of_lt_of_le hlt h.le)).1
      exact ⟨_, _, hstop, Nat.le_refl _, .nil⟩
  | cons entry rest =>
      cases h with
      | @cons _ a' b _ _ _ hle hentry hrest =>
          have hnext := lt_of_lt_of_le hlt hle
          have hstop := (Cursor.position_lt_lastStop hentry.lt).2
          have hnode := tiles_nodeOf hr entry hentry (ha.trans hnext.le) (hrest.le.trans hd) parent
            none
          have hnodes := tileAll_nodesOf hr rest hrest
            (ha.trans (hnext.le.trans hentry.lt.le)) hd parent hstop
          refine ⟨_, _, position_lt_frontOf hr ha hnext (hentry.lt.le.trans (hrest.le.trans hd)),
            lastStopOf_le hrest (Cursor.lastStop_le hrest.le hstop), .cons hnode ?_⟩
          rw [hentry.span_eq]
          exact hnodes

end

end Trees

/-- The statements of a document that was read tile its text up to the last one, and what
follows is the trailing text. -/
theorem tileAll_document {reading : Nat} {t : Text} (h : ofText? reading t = some r)
    (name : Text) :
    Node.TileAll r.source 0 (r.document name).statements r.outlineStop := by
  obtain ⟨_, z, hr⟩ := readTo_of_ofText? h
  exact tileAll_nodesOf hr r.outline hr.covers (le_refl _) (le_refl _) none (Nat.zero_le _)

end ReadText

end Typings
