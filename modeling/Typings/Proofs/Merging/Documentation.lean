import Typings.Declaration.Merge
import Typings.Proofs.Documentation.Walk
import Typings.Proofs.Reading.Exported
import Typings.Proofs.Reading.Shape

/-!
# The documentation of members

A member takes the documentation that the index holds for the qualified name of its export.
The index is filled by a walk through the whole document, and the last record of a name counts.

**Bare names.**  What stands in a named interface, class or enumeration has a point in its
qualified name, and no function and no variable has one in its name.  What stands in an object
type, in a class without a name or in a namespace has no parent, and its qualified name can be
that of an export.

**Clashes.**  A clash behind the export replaces its documentation.  One in front of it counts
where the export has none.
-/

namespace Typings

open Syntax

namespace Node

section Names

variable {node : Node} {name : Text} {nodes before after : List Node}

/-- The node has no parent, and the name. -/
def hasBareName (name : Text) (node : Node) : Bool :=
  node.parent.isNone && node.name == some name

theorem hasBareName_iff :
    node.hasBareName name = true ↔ node.parent = none ∧ node.name = some name := by
  simp [hasBareName]

/-- A name without points is the qualified name of the nodes that have it and no parent. -/
theorem qualifiedName_eq_some_iff (hname : name ≠ []) (hpoint : '.' ∉ name) :
    node.qualifiedName = some name ↔ node.hasBareName name = true := by
  obtain ⟨kind, own, parent, exported, doc, children, origin⟩ := node
  rw [hasBareName_iff]
  cases own with
  | none => simp [qualifiedName]
  | some own =>
      by_cases hempty : own = []
      · subst hempty
        simp [qualifiedName, qualify, Ne.symm hname]
      · cases parent with
        | none => simp [qualifiedName, qualify, hempty]
        | some parent =>
            have hne : parent ++ '.' :: own ≠ name := by
              rintro rfl
              simp at hpoint
            simp [qualifiedName, qualify, hempty, hne]

/-- What nodes without a parent record under the name, in order. -/
def bareDocs (name : Text) (nodes : List Node) : List DocComment :=
  (nodes.filter (hasBareName name)).filterMap commentDoc

theorem bareDocs_append (name : Text) (nodes others : List Node) :
    bareDocs name (nodes ++ others) = bareDocs name nodes ++ bareDocs name others := by
  rw [bareDocs, List.filter_append, List.filterMap_append]
  rfl

theorem bareDocs_cons_of_neg (h : node.hasBareName name = false) (nodes : List Node) :
    bareDocs name (node :: nodes) = bareDocs name nodes := by
  rw [bareDocs, List.filter_cons_of_neg (by simp [h]), bareDocs]

theorem bareDocs_cons_of_pos (h : node.hasBareName name = true) (nodes : List Node) :
    bareDocs name (node :: nodes) = node.commentDoc.toList ++ bareDocs name nodes := by
  rw [bareDocs, List.filter_cons_of_pos h, List.filterMap_cons, bareDocs]
  cases node.commentDoc <;> rfl

/-- The nodes with a name without points for their qualified name are those without a parent. -/
theorem docsNamed_eq_bareDocs (hname : name ≠ []) (hpoint : '.' ∉ name) (nodes : List Node) :
    docsNamed name nodes = bareDocs name nodes := by
  have hfilter : (nodes.filter fun node => node.qualifiedName = some name) =
      nodes.filter (hasBareName name) :=
    List.filter_congr fun node _ =>
      Bool.eq_iff_iff.mpr (decide_eq_true_iff.trans (qualifiedName_eq_some_iff hname hpoint))
  rw [docsNamed, hfilter, bareDocs]

/-- What is nested in nodes, in the order of the walk. -/
def belowAll (nodes : List Node) : List Node :=
  nodes.flatMap fun node => walkAll node.children

theorem bareDocs_walkAll_of_forall (h : ∀ node ∈ nodes, node.name ≠ some name) :
    bareDocs name (walkAll nodes) = bareDocs name (belowAll nodes) := by
  induction nodes with
  | nil => rfl
  | cons node rest ih =>
      obtain ⟨hnode, hrest⟩ := List.forall_mem_cons.mp h
      have hbare : node.hasBareName name = false := by simp [hasBareName, hnode]
      rw [walkAll, walk_eq, belowAll, List.flatMap_cons, List.cons_append,
        bareDocs_cons_of_neg hbare, bareDocs_append, bareDocs_append, ih hrest, belowAll]

mutual

/-- Below a node, everything has a container. -/
theorem exists_container_of_mem_walk (node : Node) {below : Node} (h : below ∈ node.walk) :
    below = node ∨ ∃ container ∈ node.walk, below ∈ container.children := by
  obtain ⟨kind, name, parent, exported, doc, children, origin⟩ := node
  rw [walk, List.mem_cons] at h
  rcases h with rfl | h
  · exact .inl rfl
  · rcases exists_container_of_mem_walkAll children h with hchild | ⟨container, hmem, hchild⟩
    · exact .inr ⟨_, List.mem_cons_self, hchild⟩
    · exact .inr ⟨container, List.mem_cons_of_mem _ hmem, hchild⟩

theorem exists_container_of_mem_walkAll (nodes : List Node) {below : Node}
    (h : below ∈ walkAll nodes) :
    below ∈ nodes ∨ ∃ container ∈ walkAll nodes, below ∈ container.children := by
  cases nodes with
  | nil => cases h
  | cons node rest =>
      rw [walkAll, List.mem_append] at h
      simp only [walkAll, List.mem_append]
      rcases h with h | h
      · rcases exists_container_of_mem_walk node h with rfl | ⟨container, hmem, hchild⟩
        · exact .inl List.mem_cons_self
        · exact .inr ⟨container, .inl hmem, hchild⟩
      · rcases exists_container_of_mem_walkAll rest h with hrest | ⟨container, hmem, hchild⟩
        · exact .inl (List.mem_cons_of_mem _ hrest)
        · exact .inr ⟨container, .inr hmem, hchild⟩

end

/-- What is nested somewhere in the nodes has a container among the nodes of the walk. -/
theorem exists_container_of_mem_belowAll {below : Node} (h : below ∈ belowAll nodes) :
    ∃ container ∈ walkAll nodes, below ∈ container.children := by
  obtain ⟨node, hnode, hbelow⟩ := List.mem_flatMap.mp h
  have hwalk : ∀ other ∈ node.walk, other ∈ walkAll nodes := by
    intro other hother
    rw [walkAll_eq_flatMap]
    exact List.mem_flatMap.mpr ⟨node, hnode, hother⟩
  rw [walk_eq] at hwalk
  rcases exists_container_of_mem_walkAll node.children hbelow with hchild | ⟨other, hmem, hchild⟩
  · exact ⟨node, hwalk node List.mem_cons_self, hchild⟩
  · exact ⟨other, hwalk other (List.mem_cons_of_mem _ hmem), hchild⟩

/-- The documentation under a bare name among what is nested in the nodes; the last one counts. -/
def clashDoc? (name : Text) (nodes : List Node) : Option DocComment :=
  (bareDocs name (belowAll nodes)).getLast?

/-- What a walk records under the name of one node, if no other node beside it has that name. -/
theorem getLast?_bareDocs_walkAll (hnode : node.hasBareName name = true)
    (hbefore : ∀ other ∈ before, other.name ≠ some name)
    (hafter : ∀ other ∈ after, other.name ≠ some name) :
    (bareDocs name (walkAll (before ++ node :: after))).getLast? =
      ((clashDoc? name (node :: after)).or node.commentDoc).or (clashDoc? name before) := by
  have hbelow : bareDocs name (walkAll node.children) ++ bareDocs name (belowAll after) =
      bareDocs name (belowAll (node :: after)) := by
    rw [← bareDocs_append]
    rfl
  rw [walkAll_append, bareDocs_append, bareDocs_walkAll_of_forall hbefore, walkAll, walk_eq,
    List.cons_append, bareDocs_cons_of_pos hnode, bareDocs_append,
    bareDocs_walkAll_of_forall hafter, hbelow, List.getLast?_append, List.getLast?_append]
  cases node.commentDoc <;> rfl

/-- The members of the node are named relative to it. -/
def namesMembers (node : Node) : Bool :=
  node.name.isSome &&
    match node.kind with
    | .interface | .classDef | .enumeration => true
    | _ => false

/-- Members have a parent exactly if their container names them. -/
theorem isNone_memberParent (node : Node) : node.memberParent.isNone = !node.namesMembers := by
  obtain ⟨kind, name, parent, exported, doc, children, origin⟩ := node
  cases kind <;> cases name <;> rfl

end Names

section Documented

/-- Documentation in front of a node changes nothing about the member that describes it. -/
theorem describe?_documented (node : Node) (index : DocIndex) (target : Text) :
    node.documented.describe? index target = node.describe? index target := by
  obtain ⟨kind, name, parent, exported, doc, children, origin⟩ := node
  rfl

end Documented

end Node

namespace ReadText

variable {r : ReadText} {parent : Option Text} {node : Node} {entries : List Outline}

/-- Only functions and variables are described by members. -/
theorem isValue_of_describe? {gap : Option Nat} {entry : Outline} {index : DocIndex}
    {target : Text} {member : Node}
    (h : (r.nodeOf parent gap entry).describe? index target = some member) :
    entry.form.IsValue := by
  obtain ⟨form, name, exported, span, bodyFrom, entries⟩ := entry
  obtain ⟨name, -, hmember⟩ := Option.bind_eq_some_iff.mp h
  obtain ⟨text, htext, -⟩ := Option.map_eq_some_iff.mp hmember
  rcases form with signature | ascription | _ | _ | _ | _ | _ | _ | _
  · exact .inl ⟨signature, rfl⟩
  · exact .inr ⟨ascription, rfl⟩
  all_goals cases htext

end ReadText

namespace Document

section Documentation

variable {reading : Nat} {title t name target : Text} {document : Document}
variable {node member : Node} {before after : List Node}

/-- A statement that is exported and described by a member is called by a word. -/
theorem isName_of_describe? (h : ofText reading title t = .ok document)
    (hmem : node ∈ document.statements) (hexported : node.exported = true) {index : DocIndex}
    (hmember : node.describe? index target = some member) :
    ∃ name, node.name = some name ∧ IsName name := by
  simp only [ofText] at h
  split at h
  · rename_i r hread
    obtain rfl : r.document title = document := Except.ok.inj h
    obtain ⟨gap, entry, hentry, rfl⟩ := ReadText.exists_entry_of_mem hmem
    have hvalue := ReadText.isValue_of_describe? hmember
    obtain ⟨name, hname, -⟩ := Option.bind_eq_some_iff.mp hmember
    obtain ⟨⟨entries, comments⟩, hentries, rfl⟩ := Option.map_eq_some_iff.mp hread
    obtain ⟨form, own, exported, span, bodyFrom, inner⟩ := entry
    exact ⟨name, hname, (readDocument_exports hentries).2 _ hentry hexported hvalue name hname⟩
  · cases h

/-- A statement that is exported and described by a member has no parent, a name without
points, and no documentation before it is documented. -/
theorem named_of_describe? (h : ofText reading title t = .ok document)
    (hmem : node ∈ document.statements) (hexported : node.exported = true) {index : DocIndex}
    (hmember : node.describe? index target = some member) :
    ∃ name, node.hasBareName name = true ∧ name ≠ [] ∧ '.' ∉ name ∧ node.doc = none := by
  obtain ⟨name, hname, hne, houtside⟩ := isName_of_describe? h hmem hexported hmember
  exact ⟨name, Node.hasBareName_iff.mpr ⟨parent_of_ofText h hmem, hname⟩, hne,
    houtside '.' (by decide), doc_of_mem_walkAll h (Node.mem_walkAll_of_mem hmem)⟩

/-- The index holds the last documentation that a walk finds under a name without points. -/
theorem get?_index (document : Document) (hname : name ≠ []) (hpoint : '.' ∉ name) :
    document.index.get? name = (Node.bareDocs name (Node.walkAll document.statements)).getLast? := by
  rw [get?_index_eq, Node.docsNamed_eq_bareDocs hname hpoint]

/-- Other statements have other names. -/
theorem name_ne_of_nodup (hnames : ((before ++ node :: after).filterMap Node.name).Nodup)
    (hname : node.name = some name) :
    (∀ other ∈ before, other.name ≠ some name) ∧ ∀ other ∈ after, other.name ≠ some name := by
  rw [List.filterMap_append, List.filterMap_cons_some hname] at hnames
  obtain ⟨-, hrest, hdisjoint⟩ := List.nodup_append.mp hnames
  constructor
  · intro other hother heq
    exact hdisjoint name (List.mem_filterMap.mpr ⟨other, hother, heq⟩) name List.mem_cons_self rfl
  · intro other hother heq
    exact (List.nodup_cons.mp hrest).1 (List.mem_filterMap.mpr ⟨other, hother, heq⟩)

theorem isNone_parent_of_ofText (h : ofText reading title t = .ok document) {container : Node}
    (hcontainer : container ∈ Node.walkAll document.statements)
    (hnode : node ∈ container.children) : node.parent.isNone = !container.namesMembers := by
  obtain ⟨place, hshaped⟩ := shaped_of_mem_walkAll h hcontainer
  rw [hshaped.parent node hnode, Node.isNone_memberParent]

/-- Where no documented node without a parent has the name, there is no clash. -/
theorem clashDoc?_eq_none (h : ofText reading title t = .ok document) {nodes : List Node}
    (hnodes : nodes ⊆ document.statements)
    (hclash : ∀ container ∈ Node.walkAll document.statements, container.namesMembers = false →
      ∀ child ∈ container.children, child.name = some name → child.commentDoc = none) :
    Node.clashDoc? name nodes = none := by
  rw [Node.clashDoc?, List.getLast?_eq_none_iff, Node.bareDocs, List.filterMap_eq_nil_iff]
  intro below hbelow
  obtain ⟨hmem, hbare⟩ := List.mem_filter.mp hbelow
  obtain ⟨hnone, hname⟩ := Node.hasBareName_iff.mp hbare
  obtain ⟨container, hcontainer, hchild⟩ := Node.exists_container_of_mem_belowAll hmem
  have hwalk : container ∈ Node.walkAll document.statements := by
    rw [Node.walkAll_eq_flatMap, List.mem_flatMap] at hcontainer ⊢
    obtain ⟨node, hnode, hcontainer⟩ := hcontainer
    exact ⟨node, hnodes hnode, hcontainer⟩
  have hfree : container.namesMembers = false := by
    have hparent := isNone_parent_of_ofText h hwalk hchild
    rw [hnone] at hparent
    simpa using hparent
  exact hclash container hwalk hfree below hchild hname

/-- **The documentation of a member** is that of its export, unless a documented node of the
same name stands in an object type, in a class without a name or in a namespace.  Of these the
last one behind the export counts; one in front of the export counts where the export has no
documentation. -/
theorem doc_member_eq (h : ofText reading title t = .ok document)
    (hnames : (document.statements.filterMap Node.name).Nodup)
    (hnode : node ∈ document.documented.exports)
    (hmember : node.describe? document.index target = some member) :
    ∃ name before original after,
      node.name = some name ∧ node = original.documented ∧
      document.statements = before ++ original :: after ∧
      member.doc = ((Node.clashDoc? name (original :: after)).or node.doc).or
        (Node.clashDoc? name before) ∧
      ((∀ container ∈ Node.walkAll document.statements, container.namesMembers = false →
          ∀ child ∈ container.children, child.name = some name → child.commentDoc = none) →
        member.doc = node.doc) := by
  obtain ⟨hmem, hexported⟩ := List.mem_filter.mp hnode
  obtain ⟨original, horiginal, rfl⟩ : ∃ original ∈ document.statements,
      original.documented = node := by
    rw [documented, Node.documentedAll_eq_map] at hmem
    exact List.mem_map.mp hmem
  rw [Node.exported_documented] at hexported
  rw [Node.describe?_documented] at hmember
  obtain ⟨name, hbare, hne, hpoint, hnone⟩ := named_of_describe? h horiginal hexported hmember
  obtain ⟨before, after, hstatements⟩ := List.append_of_mem horiginal
  have hdoc : original.documented.doc = original.commentDoc := by
    rw [Node.doc_documented, hnone, Option.or_none]
  have hindexed : member.doc = document.index.get? name := by
    have hqualified := (Node.qualifiedName_eq_some_iff hne hpoint).mpr hbare
    obtain ⟨_, -, hsome⟩ := Option.bind_eq_some_iff.mp hmember
    obtain ⟨_, -, rfl⟩ := Option.map_eq_some_iff.mp hsome
    show original.qualifiedName.bind document.index.get? = _
    rw [hqualified, Option.bind_some]
  have hname := (Node.hasBareName_iff.mp hbare).2
  rw [hstatements] at hnames
  obtain ⟨hbefore, hafter⟩ := name_ne_of_nodup hnames hname
  have hlast : member.doc =
      ((Node.clashDoc? name (original :: after)).or original.documented.doc).or
        (Node.clashDoc? name before) := by
    rw [hindexed, get?_index document hne hpoint, hstatements, hdoc]
    exact Node.getLast?_bareDocs_walkAll hbare hbefore hafter
  have hdocumented : original.documented.name = some name := by
    rw [Node.name_documented]
    exact hname
  refine ⟨name, before, original, after, hdocumented, rfl, hstatements, hlast, ?_⟩
  intro hclash
  have hfront : before ⊆ document.statements := by
    rw [hstatements]
    exact List.subset_append_left _ _
  have hback : original :: after ⊆ document.statements := by
    rw [hstatements]
    exact List.subset_append_right _ _
  rw [hlast, clashDoc?_eq_none h hfront hclash, clashDoc?_eq_none h hback hclash,
    Option.none_or, Option.or_none]

/-- The documentation of an export stays in spite of a clash in front of it. -/
theorem doc_member_eq_own :
    ∃ document node member,
      ofText 0 [] "type T = \x7b /** x */ f: A \x7d;\n/** y */\nexport function f(): B;".toList =
        .ok document ∧
      (document.statements.filterMap Node.name).Nodup ∧ node ∈ document.documented.exports ∧
      node.describe? document.index "Api".toList = some member ∧
      member.doc = some (.line ['y']) ∧
      ∃ name before original after,
        node.name = some name ∧ node = original.documented ∧
        document.statements = before ++ original :: after ∧
        member.doc = ((Node.clashDoc? name (original :: after)).or node.doc).or
          (Node.clashDoc? name before) ∧
        ((∀ container ∈ Node.walkAll document.statements, container.namesMembers = false →
            ∀ child ∈ container.children, child.name = some name → child.commentDoc = none) →
          member.doc = node.doc) := by
  obtain ⟨document, hread, hnames, node, hnode, member, hmember, hdoc⟩ :=
    exists_ofText 0 [] "type T = \x7b /** x */ f: A \x7d;\n/** y */\nexport function f(): B;".toList
      (fun document => (document.statements.filterMap Node.name).Nodup ∧
        ∃ node ∈ document.documented.exports,
          ∃ member, member ∈ node.describe? document.index "Api".toList ∧
            member.doc = some (.line ['y'])) (by decide +kernel)
  exact ⟨document, node, member, hread, hnames, hnode, hmember, hdoc,
    doc_member_eq hread hnames hnode hmember⟩

/-- An export without documentation gets that of a member of an object type. -/
theorem exists_doc_member_ne :
    ∃ document,
      ofText 0 [] "export function f(): void;\ntype T = \x7b /** x */ f: number \x7d;".toList =
        .ok document ∧
      (document.statements.filterMap Node.name).Nodup ∧
        ∃ node ∈ document.documented.exports,
          ∃ member, member ∈ node.describe? document.index "Api".toList ∧
            node.doc = none ∧ member.doc = some (.line ['x']) :=
  exists_ofText 0 [] "export function f(): void;\ntype T = \x7b /** x */ f: number \x7d;".toList
    (fun document => (document.statements.filterMap Node.name).Nodup ∧
      ∃ node ∈ document.documented.exports,
        ∃ member, member ∈ node.describe? document.index "Api".toList ∧
          node.doc = none ∧ member.doc = some (.line ['x'])) (by decide +kernel)

end Documentation

end Document

end Typings
