import Typings.Documentation.Index

/-!
# The records of an index

The walk of a document meets every node before its members and the members in order.  A node
with documentation and a qualified name leaves a record, and the index is the list of these
records with one entry for each name.

**Clashes.**  What the index holds for a name is the documentation of the last record of that
name.
-/

namespace Typings

namespace DocIndex

section Lookups

variable {index : DocIndex} {name other : Text} {doc : DocComment}

theorem lookup_cons_eq_ite (name first : Text) (doc : DocComment)
    (entries : List (Text × DocComment)) :
    ((first, doc) :: entries).lookup name =
      if name = first then some doc else entries.lookup name := by
  by_cases h : name = first
  · simp [h]
  · have hne : (name == first) = false := by simpa using h
    rw [List.lookup_cons, hne, if_neg h]

theorem lookup_record (name other : Text) (doc : DocComment) (entries : List (Text × DocComment)) :
    (record name doc entries).lookup other =
      if other = name then some doc else entries.lookup other := by
  induction entries with
  | nil => simp [record, lookup_cons_eq_ite]
  | cons entry rest ih =>
      obtain ⟨first, old⟩ := entry
      rw [record, lookup_cons_eq_ite]
      by_cases hfirst : first = name
      · subst hfirst
        rw [if_pos rfl, lookup_cons_eq_ite]
        by_cases h : other = first
        · rw [if_pos h, if_pos h]
        · rw [if_neg h, if_neg h, if_neg h]
      · rw [if_neg hfirst, lookup_cons_eq_ite, ih]
        by_cases h : other = first
        · have hname : other ≠ name := fun heq => hfirst (h.symm.trans heq)
          rw [if_pos h, if_neg hname, if_pos h]
        · rw [if_neg h, if_neg h]

/-- A record replaces what the index holds for its name, and nothing else. -/
theorem get?_insert (index : DocIndex) (name other : Text) (doc : DocComment) :
    (index.insert name doc).get? other = if other = name then some doc else index.get? other :=
  lookup_record name other doc index.entries

/-- An index holds an entry for a name if it is one of its entries. -/
theorem get?_eq_some_iff : index.get? name = some doc ↔ (name, doc) ∈ index.entries := by
  obtain ⟨entries, hnodup⟩ := index
  simp only [get?]
  induction entries with
  | nil => simp
  | cons entry rest ih =>
      obtain ⟨first, old⟩ := entry
      obtain ⟨hfirst, hrest⟩ := List.nodup_cons.mp hnodup
      by_cases h : name = first
      · subst h
        have hnew : (name, doc) ∉ rest := by
          intro hmem
          exact hfirst (List.mem_map.mpr ⟨_, hmem, rfl⟩)
        simp [hnew, eq_comm]
      · simp [lookup_cons_eq_ite, h, ih hrest]

/-- The last record of a name counts, in front of what was there before. -/
theorem get?_foldl_insert (records : List (Text × DocComment)) (index : DocIndex) (name : Text) :
    (records.foldl (fun index entry => index.insert entry.1 entry.2) index).get? name =
      (((records.filter fun entry => entry.1 = name).getLast?).map Prod.snd).or
        (index.get? name) := by
  induction records generalizing index with
  | nil => simp
  | cons entry rest ih =>
      obtain ⟨first, doc⟩ := entry
      rw [List.foldl_cons, ih, get?_insert]
      by_cases h : first = name
      · subst h
        rw [List.filter_cons_of_pos (by simp), List.getLast?_cons]
        cases (rest.filter fun entry => entry.1 = first).getLast? <;> simp
      · rw [List.filter_cons_of_neg (by simpa using h), if_neg (Ne.symm h)]

theorem get?_ofList (records : List (Text × DocComment)) (name : Text) :
    (ofList records).get? name =
      ((records.filter fun entry => entry.1 = name).getLast?).map Prod.snd := by
  rw [ofList, get?_foldl_insert]
  exact Option.or_none

end Lookups

end DocIndex

section Walk

namespace Node

mutual

/-- The node and all below it; a node comes before its members. -/
def walk : Node → List Node
  | ⟨kind, name, parent, exported, doc, children, origin⟩ =>
      ⟨kind, name, parent, exported, doc, children, origin⟩ :: walkAll children

/-- The nodes and all below them, in order. -/
def walkAll : List Node → List Node
  | [] => []
  | node :: rest => walk node ++ walkAll rest

end

theorem walk_eq (node : Node) : node.walk = node :: walkAll node.children := by
  obtain ⟨kind, name, parent, exported, doc, children, origin⟩ := node
  rfl

theorem walkAll_append (nodes others : List Node) :
    walkAll (nodes ++ others) = walkAll nodes ++ walkAll others := by
  induction nodes with
  | nil => rfl
  | cons node rest ih => simp [walkAll, ih]

theorem walkAll_eq_flatMap (nodes : List Node) : walkAll nodes = nodes.flatMap walk := by
  induction nodes with
  | nil => rfl
  | cons node rest ih => rw [walkAll, ih, List.flatMap_cons]

/-- The walk of nodes meets the nodes themselves. -/
theorem mem_walkAll_of_mem {node : Node} {nodes : List Node} (h : node ∈ nodes) :
    node ∈ walkAll nodes := by
  rw [walkAll_eq_flatMap]
  exact List.mem_flatMap.mpr ⟨node, h, walk_eq node ▸ List.mem_cons_self⟩

/-- What a node leaves in the index. -/
def record? (node : Node) : Option (Text × DocComment) :=
  node.commentDoc.bind fun doc => node.qualifiedName.map fun name => (name, doc)

theorem recordIn_eq (node : Node) (index : DocIndex) :
    node.recordIn index =
      node.record?.toList.foldl (fun index entry => index.insert entry.1 entry.2) index := by
  unfold recordIn record?
  cases node.commentDoc with
  | none => rfl
  | some doc => cases node.qualifiedName <;> rfl

mutual

/-- Indexing a tree inserts its records, in the order of the walk. -/
theorem index_eq_foldl (node : Node) (before : DocIndex) :
    node.index before = (node.walk.filterMap record?).foldl
      (fun index entry => index.insert entry.1 entry.2) before := by
  obtain ⟨kind, name, parent, exported, doc, children, origin⟩ := node
  rw [index, indexAll_eq_foldl children, recordIn_eq, walk, List.filterMap_cons]
  cases record? ⟨kind, name, parent, exported, doc, children, origin⟩ <;> rfl

theorem indexAll_eq_foldl (nodes : List Node) (before : DocIndex) :
    indexAll nodes before = ((walkAll nodes).filterMap record?).foldl
      (fun index entry => index.insert entry.1 entry.2) before := by
  cases nodes with
  | nil => rfl
  | cons node rest =>
      rw [indexAll, index_eq_foldl node, indexAll_eq_foldl rest, walkAll, List.filterMap_append,
        List.foldl_append]

end

end Node

namespace Document

/-- What the nodes of a document leave in the index, in the order of the walk. -/
def records (document : Document) : List (Text × DocComment) :=
  (Node.walkAll document.statements).filterMap Node.record?

/-- The index of a document is that of its records. -/
theorem index_eq_ofList (document : Document) : document.index = DocIndex.ofList document.records :=
  Node.indexAll_eq_foldl document.statements .empty

end Document

end Walk

end Typings
