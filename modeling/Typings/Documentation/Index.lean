import Typings.Declaration.Basic

/-!
# The documentation index

A document is walked once.  Every node that a comment documents gets the documentation
attached, and the index records it under the qualified name of the node.

**Order.**  A node comes before its members, and the names stand in the order in which
they were first recorded.

**Clashes.**  A name is recorded once.  When two nodes share a name, the documentation of
the later one stays, in the place of the earlier one.
-/

namespace Typings

/-- What the documented names of a document say. -/
structure DocIndex where
  /-- The names with their documentation, in the order of their first record. -/
  entries : List (Text × DocComment)
  /-- A name is recorded once. -/
  nodup : (entries.map Prod.fst).Nodup
  deriving DecidableEq, Repr

namespace DocIndex

section Entries

/-- The entries with `doc` recorded under `name`. -/
def record (name : Text) (doc : DocComment) :
    List (Text × DocComment) → List (Text × DocComment)
  | [] => [(name, doc)]
  | (other, old) :: rest =>
      if other = name then
        (name, doc) :: rest
      else
        (other, old) :: record name doc rest

/-- The names after a record: the same ones, or the new one at the end. -/
theorem names_record (name : Text) (doc : DocComment) (entries : List (Text × DocComment)) :
    (record name doc entries).map Prod.fst =
      if name ∈ entries.map Prod.fst then
        entries.map Prod.fst
      else
        entries.map Prod.fst ++ [name] := by
  induction entries with
  | nil => simp [record]
  | cons entry rest ih =>
      obtain ⟨other, old⟩ := entry
      by_cases h : other = name
      · simp [record, h]
      · have h' : ¬ name = other := fun e => h e.symm
        simp only [record, h, if_false, List.map_cons, ih, List.mem_cons, h', false_or]
        split <;> simp

theorem nodup_record (name : Text) (doc : DocComment) {entries : List (Text × DocComment)}
    (h : (entries.map Prod.fst).Nodup) :
    ((record name doc entries).map Prod.fst).Nodup := by
  rw [names_record]
  split
  · exact h
  · rename_i hnew
    rw [List.nodup_append]
    refine ⟨h, by simp, ?_⟩
    intro a ha b hb
    rw [List.mem_singleton.mp hb]
    exact fun e => hnew (e ▸ ha)

end Entries

section Access

def empty : DocIndex :=
  ⟨[], by simp⟩

instance : Inhabited DocIndex :=
  ⟨empty⟩

def insert (index : DocIndex) (name : Text) (doc : DocComment) : DocIndex :=
  ⟨record name doc index.entries, nodup_record name doc index.nodup⟩

/-- The index of a list of records, a later one over an earlier one. -/
def ofList (records : List (Text × DocComment)) : DocIndex :=
  records.foldl (fun index entry => index.insert entry.1 entry.2) empty

def get? (index : DocIndex) (name : Text) : Option DocComment :=
  index.entries.lookup name

def names (index : DocIndex) : List Text :=
  index.entries.map Prod.fst

def size (index : DocIndex) : Nat :=
  index.entries.length

def isEmpty (index : DocIndex) : Bool :=
  index.entries.isEmpty

end Access

end DocIndex

section Walk

namespace Node

/-- The documentation in the comment in front of a node. -/
def commentDoc (node : Node) : Option DocComment :=
  (node.place?.bind Place.commentText).bind DocComment.normalize

def recordIn (node : Node) (index : DocIndex) : DocIndex :=
  match node.commentDoc, node.qualifiedName with
  | some doc, some name => index.insert name doc
  | _, _ => index

mutual

/-- The node with the documentation of its comments attached, to itself and to all below. -/
def documented : Node → Node
  | ⟨kind, name, parent, exported, doc, children, origin⟩ =>
      let node : Node := ⟨kind, name, parent, exported, doc, children, origin⟩
      { node with
        doc := node.commentDoc <|> doc
        children := documentedAll children }

/-- The nodes with the documentation of their comments attached. -/
def documentedAll : List Node → List Node
  | [] => []
  | node :: rest => documented node :: documentedAll rest

end

mutual

def index : Node → DocIndex → DocIndex
  | ⟨kind, name, parent, exported, doc, children, origin⟩, before =>
      let node : Node := ⟨kind, name, parent, exported, doc, children, origin⟩
      indexAll children (node.recordIn before)

def indexAll : List Node → DocIndex → DocIndex
  | [], before => before
  | node :: rest, before => indexAll rest (index node before)

end

end Node

namespace Document

/-- The document with the documentation of its comments attached. -/
def documented (document : Document) : Document :=
  { document with statements := Node.documentedAll document.statements }

def index (document : Document) : DocIndex :=
  Node.indexAll document.statements .empty

end Document

end Walk

end Typings
