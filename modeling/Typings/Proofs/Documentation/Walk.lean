import Typings.Proofs.Documentation.Records
import Typings.Proofs.Layout.Copy
import Mathlib.Data.List.Induction

/-!
# The walk of a document

Documenting a document attaches to every node the documentation in the comment in front of it.
A walk of the documented document meets the documented nodes in the order in which a walk of the
document meets the nodes, so that all that is said of a document can be said along its walk.

**Names.**  The index holds each qualified name once, where the walk first meets a documented node
of that name, and with the documentation of the last such node.

**Below.**  All that stands below a node of the walk is met in the walk, and stands in the text that
was read.

**Again.**  A documented document has the comments that it had, and documenting it again changes
nothing.
-/

namespace Typings

section Names

variable {α : Type} [BEq α] [LawfulBEq α]

/-- Without duplicates, one more element comes at the end if it is new. -/
theorem eraseDups_concat (xs : List α) (x : α) [Decidable (x ∈ xs)] :
    (xs ++ [x]).eraseDups = if x ∈ xs then xs.eraseDups else xs.eraseDups ++ [x] := by
  rw [List.eraseDups_append]
  split
  · rename_i hmem
    simp [List.removeAll, hmem]
  · rename_i hnew
    simp [List.removeAll, hnew, List.eraseDups_cons]

/-- The names of an index stand in the order of their first records. -/
theorem DocIndex.names_ofList (records : List (Text × DocComment)) :
    (ofList records).names = (records.map Prod.fst).eraseDups := by
  induction records using List.reverseRecOn with
  | nil => rfl
  | append_singleton records entry ih =>
      have hlast : ofList (records ++ [entry]) = (ofList records).insert entry.1 entry.2 := by
        rw [ofList, List.foldl_append, List.foldl_cons, List.foldl_nil, ofList]
      have hmem : entry.1 ∈ (ofList records).names ↔ entry.1 ∈ records.map Prod.fst := by
        rw [ih, List.mem_eraseDups]
      rw [List.map_append, List.map_singleton, eraseDups_concat, hlast]
      change (record entry.1 entry.2 (ofList records).entries).map Prod.fst = _
      rw [names_record, ← ih]
      exact if_congr hmem rfl rfl

end Names

namespace Node

section Records

/-- The documentation of the nodes with a qualified name, in order. -/
def docsNamed (name : Text) (nodes : List Node) : List DocComment :=
  (nodes.filter fun node => node.qualifiedName = some name).filterMap commentDoc

/-- The names of the records are those of the nodes with documentation. -/
theorem map_fst_filterMap_record? (nodes : List Node) :
    (nodes.filterMap record?).map Prod.fst =
      (nodes.filter fun node => node.commentDoc.isSome).filterMap qualifiedName := by
  induction nodes with
  | nil => rfl
  | cons node rest ih =>
      cases hdoc : node.commentDoc with
      | none => simp [record?, hdoc, ih]
      | some doc => cases hname : node.qualifiedName <;> simp [record?, hdoc, hname, ih]

/-- The records of a name hold the documentation of the nodes of that name. -/
theorem map_snd_filter_record? (name : Text) (nodes : List Node) :
    ((nodes.filterMap record?).filter fun entry => entry.1 = name).map Prod.snd =
      docsNamed name nodes := by
  induction nodes with
  | nil => rfl
  | cons node rest ih =>
      rw [docsNamed] at ih ⊢
      cases hdoc : node.commentDoc with
      | none =>
          have hrecord : node.record? = none := by simp [record?, hdoc]
          rw [List.filterMap_cons_none hrecord, ih, List.filter_cons]
          split <;> simp [hdoc]
      | some doc =>
          cases hname : node.qualifiedName with
          | none =>
              have hrecord : node.record? = none := by simp [record?, hname]
              rw [List.filterMap_cons_none hrecord, ih, List.filter_cons_of_neg (by simp [hname])]
          | some other =>
              have hrecord : node.record? = some (other, doc) := by simp [record?, hdoc, hname]
              rw [List.filterMap_cons_some hrecord]
              by_cases h : other = name
              · simp [h, hname, hdoc, ih]
              · simp [h, hname, ih]

end Records

section Documented

theorem documentedAll_eq_map (nodes : List Node) : documentedAll nodes = nodes.map documented := by
  induction nodes with
  | nil => rfl
  | cons node rest ih => rw [documentedAll, ih, List.map_cons]

theorem name_documented (node : Node) : node.documented.name = node.name := by
  obtain ⟨kind, name, parent, exported, doc, children, origin⟩ := node
  rfl

theorem exported_documented (node : Node) : node.documented.exported = node.exported := by
  obtain ⟨kind, name, parent, exported, doc, children, origin⟩ := node
  rfl

theorem record?_documented (node : Node) : node.documented.record? = node.record? := by
  obtain ⟨kind, name, parent, exported, doc, children, origin⟩ := node
  rfl

theorem doc_documented (node : Node) : node.documented.doc = node.commentDoc.or node.doc := by
  obtain ⟨kind, name, parent, exported, doc, children, origin⟩ := node
  simp only [documented]
  cases commentDoc _ <;> rfl

mutual

/-- A walk of a documented node meets the documented nodes. -/
theorem walk_documented (node : Node) : node.documented.walk = node.walk.map documented := by
  obtain ⟨kind, name, parent, exported, doc, children, origin⟩ := node
  rw [walk, List.map_cons, ← walkAll_documentedAll children, documented, walk]

theorem walkAll_documentedAll (nodes : List Node) :
    walkAll (documentedAll nodes) = (walkAll nodes).map documented := by
  cases nodes with
  | nil => rfl
  | cons node rest =>
      rw [documentedAll, walkAll, walkAll, List.map_append, walk_documented node,
        walkAll_documentedAll rest]

end

mutual

/-- A documented node is documented already. -/
theorem documented_documented (node : Node) : node.documented.documented = node.documented := by
  obtain ⟨kind, name, parent, exported, doc, children, origin⟩ := node
  have hcomment : ∀ attached below,
      commentDoc ⟨kind, name, parent, exported, attached, below, origin⟩ =
        commentDoc ⟨kind, name, parent, exported, doc, children, origin⟩ := fun _ _ => rfl
  simp only [documented, documentedAll_documentedAll children, hcomment]
  cases commentDoc ⟨kind, name, parent, exported, doc, children, origin⟩ <;> rfl

theorem documentedAll_documentedAll (nodes : List Node) :
    documentedAll (documentedAll nodes) = documentedAll nodes := by
  cases nodes with
  | nil => rfl
  | cons node rest =>
      simp only [documentedAll, documented_documented node, documentedAll_documentedAll rest]

end

end Documented

section Below

variable {source : SourceText} {other : Node}

mutual

/-- All that stands below a node of a walk is met in that walk. -/
theorem walk_subset_walk (node : Node) (h : other ∈ node.walk) :
    other.walk ⊆ node.walk := by
  obtain ⟨kind, name, parent, exported, doc, children, origin⟩ := node
  rw [walk, List.mem_cons] at h
  rcases h with rfl | h
  · exact List.Subset.refl _
  · exact List.subset_cons_of_subset _ (walk_subset_walkAll children h)

theorem walk_subset_walkAll (nodes : List Node) (h : other ∈ walkAll nodes) :
    other.walk ⊆ walkAll nodes := by
  cases nodes with
  | nil => cases h
  | cons node rest =>
      rw [walkAll, List.mem_append] at h
      rw [walkAll]
      rcases h with h | h
      · exact List.subset_append_of_subset_left _ (walk_subset_walk node h)
      · exact List.subset_append_of_subset_right _ (walk_subset_walkAll rest h)

end

mutual

/-- A node below one that stands in a text stands in it. -/
theorem tiles_of_mem_walk (node : Node) {lo hi : Nat} (h : Node.Tiles source lo node hi)
    (hmem : other ∈ node.walk) : ∃ lo hi, Node.Tiles source lo other hi := by
  obtain ⟨kind, name, parent, exported, doc, children, origin⟩ := node
  rw [walk, List.mem_cons] at hmem
  rcases hmem with rfl | hmem
  · exact ⟨_, _, h⟩
  · cases h with
    | mk _ _ hall _ => exact tiles_of_mem_walkAll children hall hmem

theorem tiles_of_mem_walkAll (nodes : List Node) {lo hi : Nat}
    (h : Node.TileAll source lo nodes hi) (hmem : other ∈ walkAll nodes) :
    ∃ lo hi, Node.Tiles source lo other hi := by
  cases nodes with
  | nil => cases hmem
  | cons node rest =>
      rw [walkAll, List.mem_append] at hmem
      cases h with
      | cons htiles hrest =>
          rcases hmem with hmem | hmem
          · exact tiles_of_mem_walk node htiles hmem
          · exact tiles_of_mem_walkAll rest hrest hmem

end

end Below

end Node

namespace Document

theorem documented_documented (document : Document) :
    document.documented.documented = document.documented := by
  simp only [documented, Node.documentedAll_documentedAll]

/-- Documenting a document leaves the same records. -/
theorem records_documented (document : Document) :
    document.documented.records = document.records := by
  have hrecord : Node.record? ∘ Node.documented = Node.record? :=
    funext Node.record?_documented
  simp only [records, documented, Node.walkAll_documentedAll, List.filterMap_map, hrecord]

/-- The names of the index, in order. -/
theorem names_index (document : Document) :
    document.index.names =
      (((Node.walkAll document.statements).filter fun node => node.commentDoc.isSome).filterMap
        Node.qualifiedName).eraseDups := by
  rw [index_eq_ofList, DocIndex.names_ofList, records, Node.map_fst_filterMap_record?]

/-- What the index holds for a name. -/
theorem get?_index_eq (document : Document) (name : Text) :
    document.index.get? name =
      (Node.docsNamed name (Node.walkAll document.statements)).getLast? := by
  rw [index_eq_ofList, DocIndex.get?_ofList, ← List.getLast?_map, records,
    Node.map_snd_filter_record?]

/-- **What documenting a document gives.**  Nothing but documentation changes.  Along the walk,
every node has the documentation of its comment, or else what it had.  The index names the nodes
with documented comments in the order in which the walk meets them, each name once and with the
last documentation of that name.  Doing it again changes nothing. -/
theorem documented_walk (document : Document) :
    document.documented.bare = document.bare ∧
    (Node.walkAll document.documented.statements).map Node.doc =
      (Node.walkAll document.statements).map (fun node =>
        ((node.place?.bind Place.commentText).bind DocComment.normalize).or node.doc) ∧
    document.index.names =
      (((Node.walkAll document.statements).filter fun node =>
          ((node.place?.bind Place.commentText).bind DocComment.normalize).isSome).filterMap
        Node.qualifiedName).eraseDups ∧
    (∀ name, document.index.get? name =
      (((Node.walkAll document.statements).filter fun node =>
          node.qualifiedName = some name).filterMap fun node =>
        (node.place?.bind Place.commentText).bind DocComment.normalize).getLast?) ∧
    document.documented.documented = document.documented ∧
    document.documented.index = document.index := by
  refine ⟨?_, ?_, names_index document, get?_index_eq document, documented_documented document, ?_⟩
  · simp only [bare, documented, Node.bareAll_documentedAll]
  · have hdoc : Node.doc ∘ Node.documented = fun node =>
        ((node.place?.bind Place.commentText).bind DocComment.normalize).or node.doc :=
      funext Node.doc_documented
    simp only [documented, Node.walkAll_documentedAll, List.map_map, hdoc]
  · rw [index_eq_ofList, index_eq_ofList, records_documented]

/-- A name that comes twice keeps its place and takes the later documentation. -/
example :
    let t := "// a\ntype A = 1;\n// b\ntype B = 2;\n// c\ninterface A \x7b\x7d".toList
    (ofText 0 [] t).toOption.map (fun document => document.index.entries) =
      some [(['A'], .line ['c']), (['B'], .line ['b'])] := by
  decide +kernel

end Document

end Typings
