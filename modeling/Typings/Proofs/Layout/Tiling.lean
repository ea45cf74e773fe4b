import Typings.Declaration.Basic

/-!
# Nodes that tile a text

The nodes of a text that was read follow one another through it.  Each has a text in front
of it, which begins where the node before ends, and then its own text, in which its children
follow one another in the same way.

**Braces.**  The children of a node come after its first character.  Those of an interface
come right after its opening brace, which is where new members are put.
-/

namespace Typings

/-- A place of `source` with a text in front of it that begins at `lo`. -/
structure Place.Stands (place : Place) (source : SourceText) (lo : Nat) : Prop where
  source_eq : place.source = source
  leading_start : place.leading.start = lo
  lo_le : lo ≤ place.range.start
  comment : ∀ span, place.comment = some span →
    lo ≤ span.start ∧ span.start < span.stop ∧ span.stop ≤ place.range.start
  lt : place.range.start < place.range.stop
  stop_le : place.range.stop ≤ source.chars.length
  /-- The node starts with a character that is not blank. -/
  visible : ∃ x, source.chars[place.range.start]? = some x ∧ isBlank x = false

/-- Where the children of a node begin: after its first character, and for an interface
right after the brace. -/
structure Place.Opens (place : Place) (kind : DeclKind) (inner : Nat) : Prop where
  lt : place.range.start < inner
  membersAt : place.membersAt = if kind = .interface then some inner else none
  brace : kind = .interface → place.source.chars[inner - 1]? = some '{'
  /-- Something visible closes an interface. -/
  closed : kind = .interface →
    ∃ i x, inner ≤ i ∧ i < place.range.stop ∧ place.source.chars[i]? = some x ∧ isBlank x = false

mutual

/-- The node and the text in front of it make up the stretch of `source` between two
positions, and so do its children within it. -/
inductive Node.Tiles (source : SourceText) : Nat → Node → Nat → Prop
  | mk {lo inner last : Nat} {kind : DeclKind} {name parent : Option Text} {exported : Bool}
      {doc : Option DocComment} {children : List Node} {place : Place} :
      place.Stands source lo → place.Opens kind inner →
      Node.TileAll source inner children last → last ≤ place.range.stop →
      Node.Tiles source lo ⟨kind, name, parent, exported, doc, children, .placed place⟩
        place.range.stop

/-- Nodes that follow one another between two positions. -/
inductive Node.TileAll (source : SourceText) : Nat → List Node → Nat → Prop
  | nil {lo : Nat} : Node.TileAll source lo [] lo
  | cons {lo mid hi : Nat} {node : Node} {rest : List Node} :
      Node.Tiles source lo node mid → Node.TileAll source mid rest hi →
      Node.TileAll source lo (node :: rest) hi

end

theorem Node.TileAll.le {source : SourceText} {lo hi : Nat} {nodes : List Node}
    (h : Node.TileAll source lo nodes hi) : lo ≤ hi := by
  induction nodes generalizing lo with
  | nil =>
      cases h with
      | nil => exact Nat.le_refl _
  | cons node rest ih =>
      cases h with
      | cons hnode hrest =>
          cases hnode with
          | mk hstands _ _ _ =>
              have hle := ih hrest
              have hlo := hstands.lo_le
              have hlt := hstands.lt
              omega

/-- Nodes that tile a text end in it. -/
theorem Node.TileAll.le_length {source : SourceText} {lo hi : Nat} {nodes : List Node}
    (h : Node.TileAll source lo nodes hi) (hlo : lo ≤ source.chars.length) :
    hi ≤ source.chars.length := by
  induction nodes generalizing lo with
  | nil =>
      cases h with
      | nil => exact hlo
  | cons node rest ih =>
      cases h with
      | cons hnode hrest =>
          cases hnode with
          | mk hstands _ _ _ => exact ih hrest hstands.stop_le

/-- Nodes in front of others end where those begin. -/
theorem Node.TileAll.of_append {source : SourceText} {lo hi : Nat} {before after : List Node}
    (h : Node.TileAll source lo (before ++ after) hi) :
    ∃ mid, Node.TileAll source lo before mid ∧ Node.TileAll source mid after hi := by
  induction before generalizing lo with
  | nil => exact ⟨lo, .nil, h⟩
  | cons node rest ih =>
      cases h with
      | cons hnode hrest =>
          obtain ⟨mid, hbefore, hafter⟩ := ih hrest
          exact ⟨mid, .cons hnode hbefore, hafter⟩

end Typings
