import Typings.Proofs.Documentation.Records
import Typings.Proofs.Layout.Copy
import Typings.Proofs.Reading.Tokens

/-!
# The shape of a document that was read

Every node of a document that was read, however deep, has a place in the text.  The text in front
of it ends where the node begins, and holds the comment that documents it.  Its children follow one
another inside of it, each from where the one before ends.

**Bodies.**  An interface, and nothing else, has a position for new members.  It stands right behind
the opening brace of the body: only spaces and comments come between it and the first member, or
the closing brace of an interface without members.

**Text.**  The statements tile the text, from its start up to the trailing text.
-/

namespace Typings

open Syntax

section Shapes

/-- Where a node stands in the text that it was read from. -/
structure Place.Bounded (place : Place) (source : SourceText) : Prop where
  source_eq : place.source = source
  leading_le : place.leading.start ≤ place.leading.stop
  leading_stop : place.leading.stop = place.range.start
  lt : place.range.start < place.range.stop
  stop_le : place.range.stop ≤ source.chars.length
  comment : ∀ span, place.comment = some span →
    place.leading.start ≤ span.start ∧ span.start < span.stop ∧ span.stop ≤ place.leading.stop

/-- The position where the gap after the position ends. -/
def Place.gapStop (place : Place) (position : Nat) : Nat :=
  (Gap.read (place.chars.drop position) position false).stop

/-- The position stands right behind the brace that opens the body with the members. -/
structure Place.OpensBody (place : Place) (members : List Node) (position : Nat) : Prop where
  lt : place.range.start < position
  brace : place.chars[position - 1]? = some '{'
  first : ∀ member ∈ members.head?, ∃ inner, member.place? = some inner ∧
    inner.leading.start = position ∧ inner.range.start = place.gapStop position
  closed : members = [] → place.chars[place.gapStop position]? = some '}' ∧
    place.range.stop = place.gapStop position + 1

/-- The text in front of the second node begins where the first one ends. -/
def Node.Precedes (node next : Node) : Prop :=
  ∃ place following, node.place? = some place ∧ next.place? = some following ∧
    following.leading.start = place.range.stop

/-- What the members of a node have for their parent. -/
def Node.memberParent (node : Node) : Option Text :=
  match node.kind with
  | .interface | .classDef | .enumeration => node.name
  | _ => none

/-- The node stands at the place, and its children stand in it. -/
structure Node.Shaped (node : Node) (source : SourceText) (place : Place) : Prop where
  place?_eq : node.place? = some place
  bounded : place.Bounded source
  inside : ∀ child ∈ node.children, ∃ inner, child.place? = some inner ∧
    place.range.start < inner.leading.start ∧ inner.range.stop ≤ place.range.stop
  isChain : node.children.IsChain Node.Precedes
  parent : ∀ child ∈ node.children, child.parent = node.memberParent
  membersAt : place.membersAt.isSome ↔ node.kind = .interface
  body : ∀ position ∈ place.membersAt, place.OpensBody node.children position

/-- The node as it was read, with the text in front of it. -/
def Node.copied (node : Node) : Text :=
  match node.place? with
  | some place => place.between place.leading.start place.leading.stop ++ place.text
  | none => []

end Shapes

section Tilings

variable {source : SourceText} {lo hi : Nat} {node : Node} {nodes : List Node}

/-- A node that tiles a stretch stands there, and its children tile a stretch in it. -/
theorem Node.Tiles.exists_place (h : Node.Tiles source lo node hi) :
    ∃ place, node.place? = some place ∧ place.Stands source lo ∧ place.range.stop = hi ∧
      ∃ inner last, place.Opens node.kind inner ∧ Node.TileAll source inner node.children last ∧
        last ≤ hi := by
  cases h with
  | mk hstands hopens hchildren hlast =>
      exact ⟨_, rfl, hstands, rfl, _, _, hopens, hchildren, hlast⟩

theorem Node.TileAll.isChain (h : Node.TileAll source lo nodes hi) :
    nodes.IsChain Node.Precedes := by
  induction nodes generalizing lo with
  | nil => exact .nil
  | cons node rest ih =>
      cases h with
      | cons hnode hrest =>
          cases rest with
          | nil => exact .singleton node
          | cons next others =>
              have hnext := ih hrest
              cases hrest with
              | cons hfollowing _ =>
                  obtain ⟨place, hplace, -, rfl, -⟩ := hnode.exists_place
                  obtain ⟨following, heq, hstands, -⟩ := hfollowing.exists_place
                  exact .cons_cons ⟨place, following, hplace, heq, hstands.leading_start⟩ hnext

/-- The text in front of the first of the nodes begins where the stretch does. -/
theorem Node.TileAll.leading_start_head (h : Node.TileAll source lo nodes hi) :
    ∀ place ∈ nodes.head?.bind Node.place?, place.leading.start = lo := by
  intro place hplace
  cases h with
  | nil => cases hplace
  | cons hnode _ =>
      obtain ⟨first, hfirst, hstands, -⟩ := hnode.exists_place
      obtain rfl := Option.some.inj (hfirst.symm.trans hplace)
      exact hstands.leading_start

/-- Nodes that tile a stretch stand in it. -/
theorem Node.TileAll.exists_place_of_mem (h : Node.TileAll source lo nodes hi)
    (hmem : node ∈ nodes) :
    ∃ place, node.place? = some place ∧ lo ≤ place.leading.start ∧ place.range.stop ≤ hi := by
  induction nodes generalizing lo with
  | nil => cases hmem
  | cons first rest ih =>
      cases h with
      | cons hfirst hrest =>
          obtain ⟨place, hplace, hstands, rfl, -⟩ := hfirst.exists_place
          rcases List.mem_cons.mp hmem with rfl | hmem
          · exact ⟨place, hplace, hstands.leading_start.ge, hrest.le⟩
          · obtain ⟨inner, hinner, hlo, hstop⟩ := ih hrest hmem
            have hle := hstands.lo_le
            have hlt := hstands.lt
            exact ⟨inner, hinner, by omega, hstop⟩

/-- The texts of nodes that tile a stretch, with the texts in front of them, make it up. -/
theorem Node.TileAll.flatMap_copied (h : Node.TileAll source lo nodes hi)
    (hleading : ∀ node ∈ nodes, ∀ place, node.place? = some place →
      place.leading.stop = place.range.start) :
    nodes.flatMap Node.copied = Text.slice source.chars lo hi := by
  induction nodes generalizing lo with
  | nil =>
      cases h with
      | nil => exact (Text.slice_self _ _).symm
  | cons node rest ih =>
      cases h with
      | cons hnode hrest =>
          obtain ⟨place, hplace, hstands, rfl, -⟩ := hnode.exists_place
          have hcopied : node.copied = Text.slice source.chars lo place.range.stop := by
            have hstop := hleading node List.mem_cons_self place hplace
            have hjoin := Text.slice_append_slice source.chars hstands.lo_le hstands.lt.le
            simp only [Node.copied, hplace]
            rw [hstop, hstands.leading_start, ← hjoin, ← hstands.source_eq]
            rfl
          have hle := hstands.lo_le
          have hlt := hstands.lt
          rw [List.flatMap_cons, hcopied,
            ih hrest fun other hother => hleading other (List.mem_cons_of_mem _ hother)]
          exact Text.slice_append_slice _ (by omega) hrest.le

end Tilings

namespace ReadText

variable {r : ReadText} {a b c d z : Cursor} {gap : Option Nat} {parent : Option Text}
variable {node : Node} {entry : Outline} {entries : List Outline}

section Nodes

/-- The nodes of entries come from them, one by one. -/
theorem exists_entry_of_mem (h : node ∈ r.nodesOf parent gap entries) :
    ∃ gap, ∃ entry ∈ entries, node = r.nodeOf parent gap entry := by
  induction entries generalizing gap with
  | nil => cases h
  | cons entry rest ih =>
      rw [nodesOf, List.mem_cons] at h
      rcases h with rfl | h
      · exact ⟨gap, entry, List.mem_cons_self, rfl⟩
      · obtain ⟨gap, other, hmem, hnode⟩ := ih h
        exact ⟨gap, other, List.mem_cons_of_mem _ hmem, hnode⟩

theorem parent_nodeOf (parent : Option Text) (gap : Option Nat) (entry : Outline) :
    (r.nodeOf parent gap entry).parent = parent := by
  obtain ⟨⟩ := entry
  rfl

theorem place?_nodeOf (parent : Option Text) (gap : Option Nat) (entry : Outline) :
    (r.nodeOf parent gap entry).place? = some (r.placeOf gap entry.span
      (if entry.form == .interface then entry.bodyFrom.bind r.openBrace else none)) := by
  obtain ⟨⟩ := entry
  rfl

theorem children_nodeOf (parent : Option Text) (gap : Option Nat) (entry : Outline) :
    (r.nodeOf parent gap entry).children =
      r.nodesOf (if qualifiesMembers entry.form then entry.name else none)
        (entry.bodyFrom.bind r.openBrace) entry.children := by
  obtain ⟨⟩ := entry
  rfl

/-- The members of a node have the parent that the node gives them. -/
theorem parent_of_mem_children (h : node ∈ (r.nodeOf parent gap entry).children) :
    node.parent = (r.nodeOf parent gap entry).memberParent := by
  rw [children_nodeOf] at h
  obtain ⟨inner, child, -, rfl⟩ := exists_entry_of_mem h
  obtain ⟨form, name, exported, span, bodyFrom, children⟩ := entry
  rw [parent_nodeOf]
  cases form <;> rfl

mutual

/-- Every node of a walk was read between two places. -/
theorem exists_covers_of_mem_walk (entry : Outline) {a b : Cursor} (h : Covers a entry b)
    (ha : .atStart r.chars ≤ a) (hb : b ≤ z) (parent : Option Text) (gap : Option Nat)
    (hmem : node ∈ (r.nodeOf parent gap entry).walk) :
    ∃ parent gap entry a b, node = r.nodeOf parent gap entry ∧ Covers a entry b ∧
      .atStart r.chars ≤ a ∧ b ≤ z := by
  rw [Node.walk_eq, List.mem_cons] at hmem
  rcases hmem with rfl | hmem
  · exact ⟨parent, gap, entry, a, b, rfl, h, ha, hb⟩
  · obtain ⟨form, name, exported, span, bodyFrom, children⟩ := entry
    cases h with
    | plain _ hlt hall =>
        exact exists_covers_of_mem_walkAll children hall (ha.trans hlt.le) hb _ _ hmem
    | braced han hno _ hlt hall hlast _ =>
        exact exists_covers_of_mem_walkAll children hall
          (ha.trans (han.trans (hno.trans hlt.le))) (hlast.trans hb) _ _ hmem

theorem exists_covers_of_mem_walkAll (entries : List Outline) {c d : Cursor}
    (h : CoversAll c entries d) (hc : .atStart r.chars ≤ c) (hd : d ≤ z)
    (parent : Option Text) (gap : Option Nat)
    (hmem : node ∈ Node.walkAll (r.nodesOf parent gap entries)) :
    ∃ parent gap entry a b, node = r.nodeOf parent gap entry ∧ Covers a entry b ∧
      .atStart r.chars ≤ a ∧ b ≤ z := by
  cases entries with
  | nil => cases hmem
  | cons entry rest =>
      cases h with
      | cons hle hentry hrest =>
          rw [nodesOf, Node.walkAll, List.mem_append] at hmem
          rcases hmem with hmem | hmem
          · exact exists_covers_of_mem_walk entry hentry (hc.trans hle) (hrest.le.trans hd) _ _ hmem
          · exact exists_covers_of_mem_walkAll rest hrest (hc.trans (hle.trans hentry.lt.le)) hd _ _
              hmem

end

end Nodes

section Bodies

/-- The position for new members of an interface stands right behind its brace. -/
theorem opensBody_placeOf (ha : .atStart r.chars ≤ a) (h : Covers a entry b)
    (hform : entry.form = .interface) :
    ∃ position, entry.bodyFrom.bind r.openBrace = some position ∧
      (r.placeOf gap entry.span (some position)).OpensBody (r.nodeOf parent gap entry).children
        position := by
  cases h with
  | plain hplain _ _ => exact absurd hform hplain
  | @braced _ n o o' e _ _ name _ entries han hno hmark hlt hall hlast hinterface =>
      obtain ⟨rfl, henclosed⟩ := hinterface hform
      have hn : .atStart r.chars ≤ n := ha.trans han
      have he : .atStart r.chars ≤ e := hn.trans (hlt.le.trans hall.le)
      have hstart := Cursor.position_le han
      obtain ⟨m, hm, hlow, hhigh, hbrace⟩ := r.openBrace_eq hn le_rfl hmark
      -- The brace that is found is the one that was read.
      have hopened : o'.lastStop = m := by
        rw [henclosed.opened, (Cursor.getElem?_of_mark hn hmark rfl (by decide)).2]
        omega
      have hgap := Cursor.position_eq_read hn hlt
      rw [hopened] at hgap
      refine ⟨m, hm, ?_, hbrace, ?_, ?_⟩
      · simp only [placeOf]
        omega
      · intro member hmember
        rw [children_nodeOf] at hmember
        cases entries with
        | nil => cases hmember
        | cons first rest =>
            obtain rfl := Option.some.inj hmember
            have hfirst : first.span.start = o'.position := henclosed.first.symm
            have hle : m ≤ first.span.start := by
              have := Cursor.position_lt_lastStop hlt
              omega
            refine ⟨_, place?_nodeOf _ _ first, ?_, hfirst.trans hgap⟩
            simp only [placeOf, hm, Option.bind_some]
            simpa using hle
      · intro hnil
        rw [children_nodeOf] at hnil
        cases entries with
        | cons first rest => cases hnil
        | nil =>
            have hlast : o'.position = e.position := henclosed.first
            obtain ⟨hchar, hstop⟩ :=
              Cursor.getElem?_of_mark he henclosed.brace rfl (by decide)
            have hclose : (r.placeOf gap ⟨a.position, b.lastStop⟩ (some m)).gapStop m = e.position :=
              hgap.symm.trans hlast
            rw [hclose]
            exact ⟨hchar, henclosed.closed.trans hstop⟩

/-- The node of an entry that was read between two places has its shape. -/
theorem shaped_nodeOf (hr : r.ReadTo z) (h : Covers a entry b) (ha : .atStart r.chars ≤ a)
    (hb : b ≤ z) (parent : Option Text) (gap : Option Nat) :
    ∃ place, (r.nodeOf parent gap entry).Shaped r.source place := by
  obtain ⟨place, hplace, hstands, hstop, inner, last, hopens, hchildren, hlast⟩ :=
    (tiles_nodeOf hr entry h ha hb parent gap).exists_place
  have heq := Option.some.inj (hplace.symm.trans (place?_nodeOf parent gap entry))
  have hleading : place.leading.stop = place.range.start := by rw [heq, placeOf]
  have hkind : (r.nodeOf parent gap entry).kind = .interface ↔ entry.form = .interface := by
    obtain ⟨⟩ := entry
    exact kindOf_eq_interface
  refine ⟨place, hplace, ⟨hstands.source_eq, ?_, hleading, hstands.lt, hstands.stop_le, ?_⟩, ?_,
    hchildren.isChain, fun child hchild => parent_of_mem_children hchild, ?_, ?_⟩
  · rw [hleading, hstands.leading_start]
    exact hstands.lo_le
  · rw [hleading, hstands.leading_start]
    exact hstands.comment
  · intro child hchild
    obtain ⟨other, hother, hlo, hle⟩ := hchildren.exists_place_of_mem hchild
    exact ⟨other, hother, Nat.lt_of_lt_of_le hopens.lt hlo, by omega⟩
  · rw [hopens.membersAt]
    split
    · rename_i hinterface
      simp [hinterface]
    · rename_i hother
      simp [hother]
  · intro position hposition
    have hform : entry.form = .interface := by
      rw [hopens.membersAt] at hposition
      split at hposition
      · exact hkind.mp ‹_›
      · cases hposition
    obtain ⟨m, hm, hbody⟩ := r.opensBody_placeOf ha h hform
    rw [hform, hm] at heq
    subst heq
    obtain rfl := Option.some.inj hposition
    exact hbody

end Bodies

end ReadText

namespace Document

variable {reading : Nat} {name t : Text} {document : Document}

/-- Every node of a document that was read comes from an entry that was read between two
places. -/
theorem exists_nodeOf_of_mem_walkAll (h : ofText reading name t = .ok document) {node : Node}
    (hnode : node ∈ Node.walkAll document.statements) :
    ∃ (r : ReadText) (z : Cursor) (parent : Option Text) (gap : Option Nat) (entry : Outline)
      (a b : Cursor), r.source = ⟨reading, Text.unixLines t⟩ ∧ r.ReadTo z ∧
        node = r.nodeOf parent gap entry ∧ Covers a entry b ∧ .atStart r.chars ≤ a ∧ b ≤ z := by
  simp only [ofText] at h
  split at h
  · rename_i r hread
    obtain rfl : r.document name = document := Except.ok.inj h
    obtain ⟨hsource, z, hr⟩ := ReadText.readTo_of_ofText? hread
    obtain ⟨parent, gap, entry, a, b, hnodeOf, hcovers, ha, hb⟩ :=
      ReadText.exists_covers_of_mem_walkAll r.outline hr.covers le_rfl le_rfl none (some 0) hnode
    exact ⟨r, z, parent, gap, entry, a, b, hsource, hr, hnodeOf, hcovers, ha, hb⟩
  · cases h

/-- Every node of a document that was read has its shape. -/
theorem shaped_of_mem_walkAll (h : ofText reading name t = .ok document) {node : Node}
    (hnode : node ∈ Node.walkAll document.statements) :
    ∃ place, node.Shaped ⟨reading, Text.unixLines t⟩ place := by
  obtain ⟨r, z, parent, gap, entry, a, b, hsource, hr, rfl, hcovers, ha, hb⟩ :=
    exists_nodeOf_of_mem_walkAll h hnode
  exact hsource ▸ ReadText.shaped_nodeOf hr hcovers ha hb parent gap

/-- No node of a document that was read has documentation. -/
theorem doc_of_mem_walkAll (h : ofText reading name t = .ok document) {node : Node}
    (hnode : node ∈ Node.walkAll document.statements) : node.doc = none := by
  obtain ⟨r, -, parent, gap, ⟨⟩, -, -, -, -, rfl, -⟩ := exists_nodeOf_of_mem_walkAll h hnode
  rfl

theorem parent_of_ofText (h : ofText reading name t = .ok document) {node : Node}
    (hnode : node ∈ document.statements) : node.parent = none := by
  simp only [ofText] at h
  split at h
  · obtain rfl := Except.ok.inj h
    obtain ⟨gap, entry, -, rfl⟩ := ReadText.exists_entry_of_mem hnode
    exact ReadText.parent_nodeOf none gap entry
  · cases h

/-- **The shape of a document that was read.**  Every node, however deep, has its place in the text
and its children in it.  The statements have no parent, and tile the text from its start up to the
trailing text. -/
theorem shaped_of_ofText (h : ofText reading name t = .ok document) :
    (∀ node ∈ Node.walkAll document.statements,
      ∃ place, node.Shaped ⟨reading, Text.unixLines t⟩ place) ∧
    (∀ node ∈ document.statements, node.parent = none) ∧
    (∀ place ∈ document.statements.head?.bind Node.place?, place.leading.start = 0) ∧
    document.statements.IsChain Node.Precedes ∧
    document.statements.flatMap Node.copied ++ document.trailing = Text.unixLines t := by
  obtain ⟨stop, htiles, htrailing, -⟩ := tileAll_of_ofText (bare_of_ofText h ▸ h)
  refine ⟨fun node hnode => shaped_of_mem_walkAll h hnode,
    fun node hnode => parent_of_ofText h hnode, htiles.leading_start_head, htiles.isChain, ?_⟩
  have hleading : ∀ node ∈ document.statements, ∀ place, node.place? = some place →
      place.leading.stop = place.range.start := by
    intro node hnode place hplace
    obtain ⟨other, hshaped⟩ := shaped_of_mem_walkAll h (Node.mem_walkAll_of_mem hnode)
    obtain rfl := Option.some.inj (hshaped.place?_eq.symm.trans hplace)
    exact hshaped.bounded.leading_stop
  rw [htiles.flatMap_copied hleading, htrailing]
  exact Text.slice_append_drop _ (Nat.zero_le _)

/-- Bodies of every kind, with a brace in front of a body and one in a comment behind it. -/
theorem shaped_of_ofText_bodies :
    ∃ (t : Text) (document : Document), ofText 0 [] t = .ok document ∧
      (Node.walkAll document.statements).length = 13 ∧
      (∀ node ∈ Node.walkAll document.statements,
        ∃ place, node.Shaped ⟨0, Text.unixLines t⟩ place) ∧
      (∀ node ∈ document.statements, node.parent = none) ∧
      (∀ place ∈ document.statements.head?.bind Node.place?, place.leading.start = 0) ∧
      document.statements.IsChain Node.Precedes ∧
      document.statements.flatMap Node.copied ++ document.trailing = Text.unixLines t := by
  obtain ⟨document, hread, hlength⟩ := exists_ofText 0 []
    ("/** a */\ninterface A<T = \x7b\x7d> \x7b /* \x7b */ x: T;".toList ++
      " get y(): 1 \x7d\nnamespace N \x7b\n  class B \x7b y; z \x7d\n".toList ++
      "  enum E \x7b P, Q \x7d\n\x7d\ninterface F \x7b\x7d\n".toList ++
      "type C = \x7b k: 1 \x7d;\n// end\n".toList)
    (fun document => (Node.walkAll document.statements).length = 13) (by decide +kernel)
  exact ⟨_, document, hread, hlength, shaped_of_ofText hread⟩

end Document

end Typings
