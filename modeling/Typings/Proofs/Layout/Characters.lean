import Typings.Layout.Document
import Typings.Proofs.Documentation.Records
import Typings.Proofs.Text.Trimming

/-!
# The characters of a layout

A layout writes a few characters of its own: those of the comment delimiters, blanks and line
feeds.  Every other character of a document that is laid out stands in the source of one of its
nodes, in the text of a node that was made, in documentation, or in the trailing text.

**Absence.**  It is said of a character that is none of the layout's own: where it is missing from
all of these, it is missing from the text of the document.
-/

namespace Typings

/-- The characters that a layout writes by itself. -/
def layoutCharacters : Text :=
  ['/', '*', ' ', '\n']

variable {x : Char}

theorem not_mem_layoutCharacters_iff :
    x ∉ layoutCharacters ↔ x ≠ '/' ∧ x ≠ '*' ∧ x ≠ ' ' ∧ x ≠ '\n' := by
  simp [layoutCharacters]

theorem ne_blank (hx : x ∉ layoutCharacters) : x ≠ ' ' :=
  (not_mem_layoutCharacters_iff.mp hx).2.2.1

theorem ne_lineFeed (hx : x ∉ layoutCharacters) : x ≠ '\n' :=
  (not_mem_layoutCharacters_iff.mp hx).2.2.2

section Pieces

namespace Text

variable {t : Text}

theorem not_mem_slice (h : x ∉ t) (start stop : Nat) : x ∉ slice t start stop :=
  fun hmem => h (List.mem_of_mem_drop (List.mem_of_mem_take hmem))

theorem not_mem_trimEnd (h : x ∉ t) : x ∉ trimEnd t := by
  obtain ⟨back, ht, -⟩ := exists_trimEnd_append t
  rw [ht, List.mem_append, not_or] at h
  exact h.1

theorem not_mem_trimStart (h : x ∉ t) : x ∉ trimStart t :=
  fun hmem => h ((List.dropWhile_sublist isBlank).mem hmem)

theorem not_mem_lineBefore (h : x ∉ t) (position : Nat) : x ∉ lineBefore t position := by
  intro hmem
  rw [lineBefore, List.mem_reverse] at hmem
  have htake := List.mem_reverse.mp ((List.takeWhile_sublist _).mem hmem)
  exact h (List.mem_of_mem_take htake)

theorem not_mem_lineIndent (h : x ∉ t) (position : Nat) : x ∉ lineIndent t position :=
  fun hmem => not_mem_lineBefore h position ((List.takeWhile_sublist _).mem hmem)

theorem not_mem_ownLineIndent? (h : x ∉ t) (position : Nat) :
    ∀ indent ∈ ownLineIndent? t position, x ∉ indent := by
  intro indent hindent
  unfold ownLineIndent? at hindent
  dsimp only at hindent
  split at hindent
  · exact Option.some.inj hindent ▸ not_mem_lineBefore h position
  · cases hindent

end Text

/-- The character stands in no line of the documentation. -/
def DocComment.Lacks (x : Char) (doc : DocComment) : Prop :=
  ∀ line ∈ doc.lines, x ∉ line

/-- Documentation that lacks the character is rendered without it. -/
theorem DocComment.not_mem_render (hx : x ∉ layoutCharacters) {doc : DocComment} {indent : Text}
    (hindent : x ∉ indent) (hdoc : doc.Lacks x) : x ∉ doc.render indent := by
  obtain ⟨hslash, hstar, hblank, hfeed⟩ := not_mem_layoutCharacters_iff.mp hx
  have hmargin : ∀ content, x ∉ content → x ∉ marginLine indent content := by
    intro content hcontent
    simp only [marginLine]
    split <;> simp [hfeed, hindent, hblank, hstar, hcontent]
  cases doc with
  | line text =>
      have htext : x ∉ text := hdoc text (by simp [lines])
      simp [render_line, hslash, hstar, hblank, htext]
  | block several =>
      have hbody : x ∉ several.flatMap (marginLine indent) := by
        rw [List.mem_flatMap]
        rintro ⟨line, hline, hmem⟩
        exact hmargin line (hdoc line hline) hmem
      simp [render_block, hslash, hstar, hblank, hfeed, hindent, hbody]

end Pieces

section Places

namespace Place

variable {place : Place} {doc : Option DocComment}

theorem not_mem_leadingText (hx : x ∉ layoutCharacters) (h : x ∉ place.chars)
    (hdoc : ∀ comment ∈ doc, comment.Lacks x) : x ∉ place.leadingText doc := by
  have hslice : ∀ start stop, x ∉ place.between start stop := Text.not_mem_slice h
  have hindent : ∀ position, x ∉ Text.lineIndent place.chars position := Text.not_mem_lineIndent h
  have hfeed := ne_lineFeed hx
  cases doc with
  | none => exact hslice _ _
  | some comment =>
      have hrender : ∀ position, x ∉ comment.render (Text.lineIndent place.chars position) :=
        fun position => DocComment.not_mem_render hx (hindent position) (hdoc comment rfl)
      unfold leadingText
      cases place.comment with
      | none => simp [hslice, hrender, hindent, hfeed]
      | some span =>
          dsimp only
          split <;> simp [hslice, hrender, hindent, hfeed]

theorem not_mem_memberIndent (hx : x ∉ layoutCharacters) (h : x ∉ place.chars)
    (members : List Node) : x ∉ place.memberIndent members := by
  unfold memberIndent
  dsimp only
  cases hown : (members.filterMap place.innerPlace?).findSome? fun inner =>
      Text.ownLineIndent? place.chars inner.range.start with
  | none => simp [indent, Text.not_mem_lineIndent h, memberStep, ne_blank hx]
  | some own =>
      obtain ⟨inner, -, hinner⟩ := List.exists_of_findSome?_eq_some hown
      exact Text.not_mem_ownLineIndent? h _ own hinner

end Place

theorem not_mem_continued (hx : x ∉ layoutCharacters) {indent piece : Text}
    (hindent : x ∉ indent) (hpiece : x ∉ piece) (afterInsert : Bool) :
    x ∉ continued afterInsert indent piece := by
  have hfeed := ne_lineFeed hx
  unfold continued
  split <;> simp [hfeed, hindent, hpiece, Text.not_mem_trimStart hpiece]

theorem not_mem_insertedText (hx : x ∉ layoutCharacters) {indent body : Text}
    {doc : Option DocComment} (hindent : x ∉ indent) (hdoc : ∀ comment ∈ doc, comment.Lacks x)
    (hbody : x ∉ body) : x ∉ insertedText indent doc body := by
  have hfeed := ne_lineFeed hx
  cases doc with
  | none => simp [insertedText, hfeed, hindent, hbody]
  | some comment =>
      have hrender := DocComment.not_mem_render hx hindent (hdoc comment rfl)
      simp [insertedText, hfeed, hindent, hbody, hrender]

end Places

section Nodes

/-- The text that a node was read from, or that it was made of. -/
def Origin.chars : Origin → Text
  | .placed place => place.chars
  | .made text => text

namespace Node

/-- The character stands neither in the text that the node comes from nor in its
documentation. -/
structure Lacks (x : Char) (node : Node) : Prop where
  origin : x ∉ node.origin.chars
  doc : ∀ comment ∈ node.doc, comment.Lacks x

theorem origin_of_place? {node : Node} {place : Place} (h : node.place? = some place) :
    node.origin = .placed place := by
  unfold place? at h
  split at h
  · rename_i other heq
    exact Option.some.inj h ▸ heq
  · cases h

/-- A place inside a container is the place of its node. -/
theorem Lacks.innerPlace {node : Node} (h : node.Lacks x) {place inner : Place}
    (hinner : place.innerPlace? node = some inner) : x ∉ inner.chars := by
  have horigin := origin_of_place? (Option.filter_eq_some_iff.mp hinner).1
  have hchars := h.origin
  rwa [horigin] at hchars

mutual

/-- A node is laid out without a character that is missing from it and from all below. -/
theorem not_mem_bodyText (hx : x ∉ layoutCharacters) (node : Node)
    (h : ∀ other ∈ node.walk, other.Lacks x) : x ∉ node.bodyText := by
  obtain ⟨kind, name, parent, exported, doc, children, origin⟩ := node
  obtain ⟨hnode, hchildren⟩ := List.forall_mem_cons.mp h
  cases origin with
  | made text => exact hnode.origin
  | placed place =>
      rw [bodyText]
      split
      · exact Text.not_mem_slice hnode.origin _ _
      · exact not_mem_membersText hx children hchildren hnode.origin
          (Place.not_mem_memberIndent hx hnode.origin children) _ _

theorem not_mem_membersText (hx : x ∉ layoutCharacters) (nodes : List Node)
    (h : ∀ other ∈ walkAll nodes, other.Lacks x) {place : Place} (hplace : x ∉ place.chars)
    {indent : Text} (hindent : x ∉ indent) (position : Nat) (afterInsert : Bool) :
    x ∉ membersText place indent position afterInsert nodes := by
  have hslice : ∀ start stop, x ∉ place.between start stop := Text.not_mem_slice hplace
  cases nodes with
  | nil =>
      rw [membersText]
      exact not_mem_continued hx (Text.not_mem_lineIndent hplace _) (hslice _ _) _
  | cons node rest =>
      obtain ⟨hnode, hrest⟩ := List.forall_mem_append.mp h
      have hlacks := hnode node (walk_eq node ▸ List.mem_cons_self)
      have hbody := not_mem_bodyText hx node hnode
      rw [membersText]
      split
      · rename_i inner hinner
        have hleading := Place.not_mem_leadingText hx (hlacks.innerPlace hinner) hlacks.doc
        have hpiece : x ∉ place.between position inner.leading.start ++
            inner.leadingText node.doc := by simp [hslice, hleading]
        simp [not_mem_continued hx hindent hpiece, hbody,
          not_mem_membersText hx rest hrest hplace hindent]
      · simp [hslice, not_mem_insertedText hx hindent hlacks.doc hbody,
          not_mem_membersText hx rest hrest hplace hindent]

end

theorem not_mem_statementText (hx : x ∉ layoutCharacters) {node : Node}
    (h : ∀ other ∈ node.walk, other.Lacks x) : x ∉ node.statementText := by
  have hlacks := h node (walk_eq node ▸ List.mem_cons_self)
  have hbody := not_mem_bodyText hx node h
  have hfeed := ne_lineFeed hx
  obtain ⟨kind, name, parent, exported, doc, children, origin⟩ := node
  cases origin with
  | placed place =>
      simp [statementText, hbody, Place.not_mem_leadingText hx hlacks.origin hlacks.doc]
  | made text =>
      have htext : x ∉ text := hlacks.origin
      cases doc with
      | none => exact htext
      | some comment =>
          have hrender := DocComment.not_mem_render hx (List.not_mem_nil) (hlacks.doc comment rfl)
          simp [statementText, hfeed, htext, hrender]

end Node

end Nodes

section Documents

namespace Document

theorem not_mem_appendStatements (hx : x ∉ layoutCharacters) (nodes : List Node)
    (h : ∀ other ∈ Node.walkAll nodes, other.Lacks x) {written : Text} (hwritten : x ∉ written)
    (before : Option Node) : x ∉ appendStatements written before nodes := by
  induction nodes generalizing written before with
  | nil => exact hwritten
  | cons node rest ih =>
      obtain ⟨hnode, hrest⟩ := List.forall_mem_append.mp h
      have htext := Node.not_mem_statementText hx hnode
      have htrimmed := Text.not_mem_trimStart htext
      refine ih hrest ?_ _
      cases before with
      | none => simp [appendStatement, hwritten, htrimmed]
      | some before =>
          have hseparator : x ∉ separator before node := by
            have hfeed := ne_lineFeed hx
            unfold separator
            split <;> simp [hfeed]
          simp only [appendStatement]
          split
          · simp [hwritten, htext]
          · simp [Text.not_mem_trimEnd hwritten, hseparator, htrimmed]

/-- A character that a layout does not write by itself, and that is missing from all that the
document is made of, is missing from its text. -/
theorem not_mem_render (hx : x ∉ layoutCharacters) {document : Document}
    (h : ∀ other ∈ Node.walkAll document.statements, other.Lacks x)
    (htrailing : x ∉ document.trailing) : x ∉ document.render := by
  have hstatements := not_mem_appendStatements hx document.statements h List.not_mem_nil none
  have hfeed := ne_lineFeed hx
  have hall : x ∉ appendStatements [] none document.statements ++ document.trailing := by
    simp [hstatements, htrailing]
  simp [render, hfeed, Text.not_mem_trimEnd hall]

end Document

end Documents

end Typings
