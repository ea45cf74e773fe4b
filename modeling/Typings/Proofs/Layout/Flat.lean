import Mathlib.Data.List.Forall2
import Typings.Layout.Document
import Typings.Proofs.Layout.Edits
import Typings.Proofs.Layout.Tiling
import Typings.Proofs.Text.Indents
import Typings.Proofs.Text.Trimming

/-!
# Documentation as edits

Laying out nodes that tile a text copies that text, apart from one edit for each node with
documentation.  The edits follow one another, since a node comes before its children and
the text in front of a node ends where the node begins.

**Edits.**  Documentation takes the place of the comment in front of a node and of what
stands between the two, unless that holds a line feed.  A node without a comment keeps all
its text.  The documentation is indented like the line on which it begins.
-/

namespace Typings

namespace Place

/-- The edit writes documentation in front of a node that stands in the text. -/
inductive Writes (place : Place) (t : Text) (doc : DocComment) : Edit → Prop
  /-- A line ends between the comment and the node. -/
  | kept {comment : Span} {indent : Text} :
      place.comment = some comment → Text.IsIndentAt t comment.start indent →
      '\n' ∈ Text.slice t comment.stop place.range.start →
      Writes place t doc ⟨comment.start, place.range.start,
        doc.render indent ++ Text.slice t comment.stop place.range.start⟩
  | broken {comment : Span} {indent : Text} :
      place.comment = some comment → Text.IsIndentAt t comment.start indent →
      '\n' ∉ Text.slice t comment.stop place.range.start →
      Writes place t doc ⟨comment.start, place.range.start, doc.render indent ++ '\n' :: indent⟩
  /-- There is no comment. -/
  | added {indent : Text} :
      place.comment = none → Text.IsIndentAt t place.range.start indent →
      Writes place t doc
        ⟨place.range.start, place.range.start, doc.render indent ++ '\n' :: indent⟩

/-- The edit that writes documentation in front of the node. -/
def docEdit (place : Place) (doc : DocComment) : Edit :=
  match place.comment with
  | some comment =>
      let indent := Text.lineIndent place.chars comment.start
      let after := place.between comment.stop place.range.start
      ⟨comment.start, place.range.start,
        doc.render indent ++ if after.contains '\n' then after else '\n' :: indent⟩
  | none =>
      let indent := Text.lineIndent place.chars place.range.start
      ⟨place.range.start, place.range.start, doc.render indent ++ '\n' :: indent⟩

variable {place : Place} {source : SourceText} {lo : Nat}

theorem writes_docEdit (place : Place) (doc : DocComment) :
    place.Writes place.chars doc (place.docEdit doc) := by
  have hindent := Text.isIndentAt_lineIndent place.chars
  cases hspan : place.comment with
  | none =>
      simp only [docEdit, hspan]
      exact .added hspan (hindent _)
  | some comment =>
      simp only [docEdit, hspan]
      split
      · rename_i hbreak
        exact .kept hspan (hindent _) (by simpa [between] using hbreak)
      · rename_i hbreak
        exact .broken hspan (hindent _) (by simpa [between] using hbreak)

/-- No other edit writes the documentation. -/
theorem writes_iff {doc : DocComment} {edit : Edit} :
    place.Writes place.chars doc edit ↔ edit = place.docEdit doc := by
  constructor
  · intro h
    cases h with
    | kept hspan hindent hbreak =>
        obtain rfl := Text.isIndentAt_iff.mp hindent
        simp [docEdit, hspan, between, hbreak]
    | broken hspan hindent hbreak =>
        obtain rfl := Text.isIndentAt_iff.mp hindent
        simp [docEdit, hspan, between, hbreak]
    | added hspan hindent =>
        obtain rfl := Text.isIndentAt_iff.mp hindent
        simp [docEdit, hspan]
  · rintro rfl
    exact place.writes_docEdit doc

/-- The text in front of a node, up to the edit of its documentation. -/
theorem leadingText_eq (h : place.Stands source lo) (doc : Option DocComment) :
    Edits lo (doc.map place.docEdit).toList place.range.start ∧
      place.leadingText doc =
        Text.edited source.chars lo place.range.start (doc.map place.docEdit).toList := by
  obtain ⟨rfl, rfl, hle, hcomment, -, -, -⟩ := h
  cases doc with
  | none => exact ⟨.nil hle, rfl⟩
  | some doc =>
      cases hspan : place.comment with
      | none =>
          refine ⟨.cons ?_ ?_ (.nil ?_), ?_⟩
          all_goals simp [leadingText, docEdit, hspan, Text.edited, between, chars, hle]
      | some span =>
          obtain ⟨hlo, hlt, hstop⟩ := hcomment span hspan
          refine ⟨.cons ?_ ?_ (.nil ?_), ?_⟩
          all_goals simp [leadingText, docEdit, hspan, Text.edited, between, chars, hlo]
          omega

end Place

namespace Node

mutual

/-- The places of the nodes that have documentation, with that documentation; a node comes
before its children. -/
def marks : Node → List (Place × DocComment)
  | ⟨_, _, _, _, doc, children, origin⟩ =>
      match origin with
      | .placed place => (doc.map (Prod.mk place)).toList ++ marksAll children
      | .made _ => []

/-- The places with documentation of nodes and of all below them. -/
def marksAll : List Node → List (Place × DocComment)
  | [] => []
  | node :: rest => marks node ++ marksAll rest

end

theorem marksAll_eq_nil_iff {nodes : List Node} :
    marksAll nodes = [] ↔ ∀ node ∈ nodes, node.marks = [] := by
  induction nodes with
  | nil => simp [marksAll]
  | cons node rest ih => simp [marksAll, ih]

section Bodies

variable {source : SourceText} {place : Place} {node : Node} {lo hi : Nat}

/-- The edits that write the documentation of a node and of all below it. -/
def edits (node : Node) : List Edit :=
  node.marks.map fun mark => mark.1.docEdit mark.2

/-- The edits that write the documentation of nodes and of all below them. -/
def editsAll (nodes : List Node) : List Edit :=
  (marksAll nodes).map fun mark => mark.1.docEdit mark.2

@[simp] theorem editsAll_nil : editsAll [] = [] := rfl

@[simp] theorem editsAll_cons (node : Node) (rest : List Node) :
    editsAll (node :: rest) = node.edits ++ editsAll rest := by
  simp [editsAll, edits, marksAll]

theorem edits_eq (h : node.origin = .placed place) :
    node.edits = (node.doc.map place.docEdit).toList ++ editsAll node.children := by
  obtain ⟨kind, name, parent, exported, doc, children, origin⟩ := node
  cases h
  cases doc <;> simp [edits, editsAll, marks]

theorem statementText_placed (h : node.origin = .placed place) :
    node.statementText = place.leadingText node.doc ++ node.bodyText := by
  rw [statementText, h]

/-- Where a node that tiles `source` stands, and how its own text is laid out. -/
structure LaidOut (source : SourceText) (lo : Nat) (node : Node) (place : Place) : Prop where
  origin : node.origin = .placed place
  stands : place.Stands source lo
  edits : Edits (place.range.start + 1) (editsAll node.children) place.range.stop
  body : node.bodyText = Text.edited source.chars place.range.start place.range.stop
    (editsAll node.children)

namespace LaidOut

theorem source?_eq (h : LaidOut source lo node place) : node.source? = some source := by
  simp [source?, place?, h.origin, h.stands.source_eq]

/-- The text of the node with the text in front of it. -/
theorem statementText_eq (h : LaidOut source lo node place) :
    Edits lo node.edits place.range.stop ∧
      node.statementText = Text.edited source.chars lo place.range.stop node.edits := by
  obtain ⟨hleading, htext⟩ := place.leadingText_eq h.stands node.doc
  have hedits := h.edits.widen (Nat.le_succ _) (Nat.le_refl _)
  rw [edits_eq h.origin, statementText_placed h.origin, htext, h.body,
    Text.edited_append hleading hedits]
  exact ⟨hleading.append hedits, rfl⟩

/-- A node that lies in the text of a place lies in that place. -/
theorem innerPlace?_eq {outer : Place} (h : LaidOut source lo node place)
    (hsource : outer.source = source) (hstart : outer.range.start ≤ lo)
    (hstop : place.range.stop ≤ outer.range.stop) : outer.innerPlace? node = some place := by
  have hsame : place.source.same outer.source = true := by
    simp [SourceText.same, h.stands.source_eq, hsource]
  have hlo := h.stands.lo_le
  simp only [Place.innerPlace?, place?, h.origin, Option.filter_eq_some_iff, Place.holds, hsame,
    true_and, Bool.and_eq_true, decide_eq_true_eq]
  omega

/-- The first character of a node stays, and it is not blank. -/
theorem visible (h : LaidOut source lo node place) :
    ∃ x ∈ node.statementText, isBlank x = false := by
  obtain ⟨x, hx, hblank⟩ := h.stands.visible
  refine ⟨x, ?_, hblank⟩
  rw [statementText_placed h.origin, h.body, Text.edited_eq_cons hx h.edits]
  simp

end LaidOut

mutual

/-- The text of a node that tiles `source`. -/
theorem laidOut_of_tiles (node : Node) {lo hi : Nat} (h : Node.Tiles source lo node hi) :
    ∃ place, LaidOut source lo node place ∧ place.range.stop = hi := by
  obtain ⟨kind, name, parent, exported, doc, children, origin⟩ := node
  cases h with
  | @mk _ inner _ _ _ _ _ _ _ place hstands hopens hall hlast =>
      have hle := Nat.le_of_lt hopens.lt
      obtain ⟨hedits, htext⟩ := membersText_eq children (place.memberIndent children)
        place.range.start hall hlast hstands.source_eq hle hle
      refine ⟨place, ⟨rfl, hstands, hedits.widen hopens.lt (Nat.le_refl _), ?_⟩, rfl⟩
      cases children with
      | nil => simp [bodyText, Text.edited, Place.text, hstands.source_eq]
      | cons first rest => simpa [bodyText] using htext

/-- The text of a place from a position on, whose members tile what follows. -/
theorem membersText_eq (nodes : List Node) {place : Place} (indent : Text) (position : Nat)
    {lo last : Nat} (h : Node.TileAll source lo nodes last) (hlast : last ≤ place.range.stop)
    (hsource : place.source = source) (hstart : place.range.start ≤ lo) (hposition : position ≤ lo) :
    Edits lo (editsAll nodes) place.range.stop ∧
      membersText place indent position false nodes =
        Text.edited source.chars position place.range.stop (editsAll nodes) := by
  cases nodes with
  | nil =>
      subst hsource
      cases h with
      | nil => exact ⟨.nil hlast, by simp [membersText, continued, Text.edited,
          Place.between, Place.chars]⟩
  | cons node rest =>
      cases h with
      | @cons _ mid _ _ _ hnode hrest =>
          obtain ⟨inner, hlaid, rfl⟩ := laidOut_of_tiles node hnode
          have hlo := hlaid.stands.lo_le
          have hlt := hlaid.stands.lt
          obtain ⟨hedits, htext⟩ := hlaid.statementText_eq
          obtain ⟨hmore, hmembers⟩ := membersText_eq rest indent inner.range.stop hrest
            hlast hsource (by omega) (Nat.le_refl _)
          have hinner := hlaid.innerPlace?_eq hsource hstart (Nat.le_trans hrest.le hlast)
          refine ⟨editsAll_cons node rest ▸ hedits.append hmore, ?_⟩
          -- The edits of the node and of those after it meet where the node ends.
          rw [statementText_placed hlaid.origin] at htext
          simp only [membersText, hinner, hlaid.stands.leading_start, continued, editsAll_cons]
          calc _ = place.between position lo ++ (inner.leadingText node.doc ++ node.bodyText) ++
                membersText place indent inner.range.stop false rest := by simp
            _ = Text.slice source.chars position lo ++
                  (Text.edited source.chars lo inner.range.stop node.edits ++
                    Text.edited source.chars inner.range.stop place.range.stop (editsAll rest)) := by
                rw [htext, hmembers, List.append_assoc, Place.between, Place.chars, hsource]
            _ = _ := by
                rw [Text.edited_append hedits hmore,
                  Text.slice_append_edited (hedits.append hmore) hposition]

end

end Bodies

section Marks

variable {source : SourceText}

mutual

/-- A node with documentation stands in the text that its tree tiles. -/
theorem stands_of_mem_marks (node : Node) {lo hi : Nat} (h : Node.Tiles source lo node hi)
    {mark : Place × DocComment} (hmem : mark ∈ node.marks) :
    ∃ lo, mark.1.Stands source lo := by
  obtain ⟨kind, name, parent, exported, doc, children, origin⟩ := node
  cases h with
  | mk hstands _ hall _ =>
      rcases List.mem_append.mp hmem with hmem | hmem
      · cases doc with
        | none => simp at hmem
        | some doc =>
            obtain rfl : mark = (_, doc) := by simpa using hmem
            exact ⟨_, hstands⟩
      · exact stands_of_mem_marksAll children hall hmem

theorem stands_of_mem_marksAll (nodes : List Node) {lo hi : Nat}
    (h : Node.TileAll source lo nodes hi) {mark : Place × DocComment}
    (hmem : mark ∈ marksAll nodes) : ∃ lo, mark.1.Stands source lo := by
  cases nodes with
  | nil => simp [marksAll] at hmem
  | cons node rest =>
      cases h with
      | cons hnode hrest =>
          rcases List.mem_append.mp hmem with hmem | hmem
          · exact stands_of_mem_marks node hnode hmem
          · exact stands_of_mem_marksAll rest hrest hmem

end

/-- The documentation of nodes that stand in a text is written by one list of edits. -/
theorem forall₂_writes_iff {marks : List (Place × DocComment)} {edits : List Edit}
    (hstands : ∀ mark ∈ marks, ∃ lo, mark.1.Stands source lo) :
    List.Forall₂ (fun mark edit => mark.1.Writes source.chars mark.2 edit) marks edits ↔
      edits = marks.map fun mark => mark.1.docEdit mark.2 := by
  induction marks generalizing edits with
  | nil => simp
  | cons mark rest ih =>
      obtain ⟨⟨lo, hmark⟩, hrest⟩ := List.forall_mem_cons.mp hstands
      have hwrites (edit : Edit) :
          mark.1.Writes source.chars mark.2 edit ↔ edit = mark.1.docEdit mark.2 := by
        rw [← hmark.source_eq]
        exact Place.writes_iff
      constructor
      · rintro (_ | ⟨hfirst, hothers⟩)
        rw [List.map_cons, (hwrites _).mp hfirst, (ih hrest).mp hothers]
      · rintro rfl
        exact .cons ((hwrites _).mpr rfl) ((ih hrest).mpr rfl)

end Marks

section Bare

mutual

/-- The node without documentation, at itself and at all below it. -/
def bare : Node → Node
  | ⟨kind, name, parent, exported, _, children, origin⟩ =>
      ⟨kind, name, parent, exported, none, bareAll children, origin⟩

/-- Nodes without documentation, at themselves and at all below them. -/
def bareAll : List Node → List Node
  | [] => []
  | node :: rest => bare node :: bareAll rest

end

mutual

theorem marks_bare (node : Node) : node.bare.marks = [] := by
  obtain ⟨kind, name, parent, exported, doc, children, origin⟩ := node
  cases origin with
  | made text => rfl
  | placed place => simp [bare, marks, marksAll_bareAll children]

theorem marksAll_bareAll (nodes : List Node) : marksAll (bareAll nodes) = [] := by
  cases nodes with
  | nil => rfl
  | cons node rest => simp [bareAll, marksAll, marks_bare node, marksAll_bareAll rest]

end

variable {source : SourceText}

mutual

/-- Documentation does not change where a node stands. -/
theorem tiles_of_bare (node : Node) {lo hi : Nat} (h : Node.Tiles source lo node.bare hi) :
    Node.Tiles source lo node hi := by
  obtain ⟨kind, name, parent, exported, doc, children, origin⟩ := node
  cases h with
  | mk hstands hopens hall hlast =>
      exact .mk hstands hopens (tileAll_of_bareAll children hall) hlast

theorem tileAll_of_bareAll (nodes : List Node) {lo hi : Nat}
    (h : Node.TileAll source lo (bareAll nodes) hi) : Node.TileAll source lo nodes hi := by
  cases nodes with
  | nil =>
      cases h with
      | nil => exact .nil
  | cons node rest =>
      cases h with
      | cons hnode hrest =>
          exact .cons (tiles_of_bare node hnode) (tileAll_of_bareAll rest hrest)

end

end Bare

end Node

namespace Document

/-- The document without any documentation. -/
def bare (document : Document) : Document :=
  { document with statements := Node.bareAll document.statements }

/-- The places of the nodes with documentation, in order. -/
def marks (document : Document) : List (Place × DocComment) :=
  Node.marksAll document.statements

/-- The edits that write the documentation of a document. -/
def edits (document : Document) : List Edit :=
  document.marks.map fun mark => mark.1.docEdit mark.2

section Statements

variable {source : SourceText} {nodes : List Node} {lo hi : Nat}

/-- Statements that follow another one of their source are written right behind it. -/
theorem appendStatements_same {before : Node} (hbefore : before.source? = some source)
    (h : ∀ node ∈ nodes, node.source? = some source) (written : Text) :
    appendStatements written (some before) nodes =
      written ++ nodes.flatMap Node.statementText := by
  induction nodes generalizing before written with
  | nil => simp [appendStatements]
  | cons node rest ih =>
      have hnode := h node (by simp)
      have hsame : sameSource before node = true := by
        simp [sameSource, hbefore, hnode, SourceText.same]
      rw [appendStatements, appendStatement, if_pos hsame, List.flatMap_cons, ← List.append_assoc]
      exact ih hnode (fun other hother => h other (by simp [hother])) _

/-- Statements of one source at the start of a document, apart from the white space in
front. -/
theorem appendStatements_none {first : Node}
    (h : ∀ node ∈ first :: nodes, node.source? = some source)
    (hvisible : ∃ x ∈ first.statementText, isBlank x = false) (rest : Text) :
    appendStatements [] none (first :: nodes) ++ rest =
      Text.trimStart ((first :: nodes).flatMap Node.statementText ++ rest) := by
  have hfirst := h first (by simp)
  have hothers : ∀ node ∈ nodes, node.source? = some source := fun node hnode =>
    h node (by simp [hnode])
  rw [appendStatements, appendStatement, List.nil_append, appendStatements_same hfirst hothers,
    List.flatMap_cons, List.append_assoc, List.append_assoc, Text.trimStart_append hvisible]

/-- The texts of statements that tile a stretch of a text make up that stretch. -/
theorem flatMap_statementText_eq (h : Node.TileAll source lo nodes hi) :
    Edits lo (Node.editsAll nodes) hi ∧
      nodes.flatMap Node.statementText =
        Text.edited source.chars lo hi (Node.editsAll nodes) ∧
      ∀ node ∈ nodes, node.source? = some source := by
  induction nodes generalizing lo with
  | nil =>
      cases h with
      | nil => exact ⟨.nil (Nat.le_refl _), by simp [Text.edited], by simp⟩
  | cons node rest ih =>
      cases h with
      | cons hnode hrest =>
          obtain ⟨place, hlaid, rfl⟩ := Node.laidOut_of_tiles node hnode
          obtain ⟨hedits, htext⟩ := hlaid.statementText_eq
          obtain ⟨hmore, htexts, hsource⟩ := ih hrest
          refine ⟨Node.editsAll_cons node rest ▸ hedits.append hmore, ?_, ?_⟩
          · rw [List.flatMap_cons, htext, htexts, Text.edited_append hedits hmore,
              Node.editsAll_cons]
          · exact List.forall_mem_cons.mpr ⟨hlaid.source?_eq, hsource⟩

/-- The white space that is left out around a document; one without statements keeps the
white space in front. -/
def trimmed (document : Document) (t : Text) : Text :=
  Text.trimEnd (if document.statements.isEmpty then t else Text.trimStart t)

/-- A document whose statements tile the front of a text that trails off behind them. -/
theorem render_eq_of_tileAll {document : Document} {stop : Nat}
    (h : Node.TileAll source 0 document.statements stop)
    (htrailing : document.trailing = source.chars.drop stop) :
    Edits 0 document.edits source.chars.length ∧
      document.render = document.trimmed
        (Text.edited source.chars 0 source.chars.length document.edits) ++ ['\n'] := by
  have hlength : stop ≤ source.chars.length := h.le_length (Nat.zero_le _)
  obtain ⟨hedits, htexts, hsource⟩ := flatMap_statementText_eq h
  cases hstatements : document.statements with
  | nil =>
      have hnone : document.edits = [] := by simp [edits, marks, hstatements, Node.marksAll]
      rw [hstatements] at h
      cases h with
      | nil =>
          simp [hnone, render, hstatements, appendStatements, htrailing, trimmed, Text.edited,
            Text.slice, Edits.nil]
  | cons first others =>
      have hopen : document.statements.isEmpty = false := by simp [hstatements]
      have hrest : Edits stop [] source.chars.length := .nil hlength
      have htail : document.trailing = Text.edited source.chars stop source.chars.length [] := by
        rw [htrailing, Text.edited, Text.slice_length]
      refine ⟨hedits.widen (Nat.le_refl _) hlength, ?_⟩
      rw [hstatements] at h hsource
      have hvisible : ∃ x ∈ first.statementText, isBlank x = false := by
        cases h with
        | cons hfirst _ =>
            obtain ⟨place, hlaid, -⟩ := Node.laidOut_of_tiles first hfirst
            exact hlaid.visible
      rw [render, hstatements, appendStatements_none hsource hvisible, ← hstatements, htexts, htail,
        Text.edited_append hedits hrest, List.append_nil, trimmed, hopen]
      rfl

end Statements

end Document

end Typings
