import Typings.Proofs.Documentation.Records
import Typings.Proofs.Merging.Injection
import Mathlib.Data.List.Forall2

/-!
# What a merge gives

A merge puts the exports in front of the generated statements and describes every function and
every variable with a type among them by one member of the target.  All other nodes come out
as they are.

**Members.**  `Node.Describes` says all there is to know of a member, so that two members which
describe the same node are equal.

**The target.**  Only the first generated statement that takes members gets them.  Exports of
the same name, and interfaces of that name after it, are none of its business.
-/

namespace Typings

section Members

variable {index : DocIndex} {target name : Text}

namespace Node

/-- The text of the member that describes a function or a variable with a type. -/
inductive MemberText (node : Node) : Text → Prop
  | function {name : Text} {signature : Signature} :
      node.name = some name → node.kind = .function signature →
      MemberText node (signature.methodText name)
  | variable {name type : Text} :
      node.name = some name → node.kind = .variable (some type) →
      MemberText node (name ++ ": ".toList ++ type ++ [';'])

/-- The member describes the node, under its name and with the documentation that the index
holds for its qualified name. -/
structure Describes (index : DocIndex) (target : Text) (node member : Node) : Prop where
  kind : member.kind = .member
  name : member.name = node.name
  parent : member.parent = some target
  exported : member.exported = false
  children : member.children = []
  text : ∃ text, member.origin = .made text ∧ node.MemberText text
  doc : ∀ doc, member.doc = some doc ↔
    ∃ name, node.qualifiedName = some name ∧ (name, doc) ∈ index.entries

/-- Whether a node is a function or a variable with a type, and has a name. -/
def isDescribable (node : Node) : Bool :=
  node.name.isSome &&
    match node.kind with
    | .function _ | .variable (some _) => true
    | _ => false

theorem memberText_of_memberText? {node : Node} {text : Text} (hname : node.name = some name)
    (h : node.kind.memberText? name = some text) : node.MemberText text := by
  unfold DeclKind.memberText? at h
  split at h
  · rename_i signature hkind
    obtain rfl := Option.some.inj h
    exact .function hname hkind
  · rename_i type hkind
    obtain rfl := Option.some.inj h
    have htext := MemberText.variable hname hkind
    simpa using htext
  · cases h

/-- Describing a node gives a member that describes it. -/
theorem describes_of_describe? {node member : Node}
    (h : node.describe? index target = some member) : node.Describes index target member := by
  obtain ⟨name, hname, h⟩ := Option.bind_eq_some_iff.mp h
  obtain ⟨text, htext, rfl⟩ := Option.map_eq_some_iff.mp h
  refine ⟨rfl, hname.symm, rfl, rfl, rfl, ⟨text, rfl, memberText_of_memberText? hname htext⟩, ?_⟩
  intro doc
  simp only [← DocIndex.get?_eq_some_iff]
  exact Option.bind_eq_some_iff

/-- Nodes that are functions or variables with a type are described, and no others. -/
theorem isSome_describe? (node : Node) (index : DocIndex) (target : Text) :
    (node.describe? index target).isSome = node.isDescribable := by
  obtain ⟨kind, name, parent, exported, doc, children, origin⟩ := node
  cases name with
  | none => rfl
  | some name => rcases kind with _ | (_ | _) | _ | _ | _ | _ | _ | _ | _ <;> rfl

/-- There is one member for each node that can be described, in order. -/
theorem forall₂_describeAll (exports : List Node) (index : DocIndex) (target : Text) :
    List.Forall₂ (Describes index target) (exports.filter isDescribable)
      (describeAll exports index target) := by
  induction exports with
  | nil => exact .nil
  | cons node rest ih =>
      have hsome := isSome_describe? node index target
      cases hmember : node.describe? index target with
      | none =>
          rw [hmember] at hsome
          rw [List.filter_cons_of_neg (by simp [← hsome]), describeAll,
            List.filterMap_cons_none (by exact hmember)]
          exact ih
      | some member =>
          rw [hmember] at hsome
          rw [List.filter_cons_of_pos (by simp [← hsome]), describeAll,
            List.filterMap_cons_some (by exact hmember)]
          exact .cons (describes_of_describe? hmember) ih

/-- The node is an interface of the right name with a place for members. -/
def TakesMembers (target : Text) (node : Node) : Prop :=
  node.kind = .interface ∧ node.name = some target ∧
    ∃ place m, node.origin = .placed place ∧ place.membersAt = some m

theorem isTarget_iff {node : Node} : node.isTarget target = true ↔ node.TakesMembers target := by
  obtain ⟨kind, name, parent, exported, doc, children, origin⟩ := node
  cases origin with
  | made text => simp [isTarget, place?, TakesMembers]
  | placed place =>
      simp [isTarget, isInterfaceNamed, place?, TakesMembers, Option.isSome_iff_exists, and_assoc]

end Node

end Members

section Outcomes

/-- The outcome of a merge of exports, which `members` describe: either the first statement that
takes members has them in front of its own, or there is no such statement. -/
inductive Document.MergesTo (generated : Document) (exports members : List Node)
    (target : Text) : MergeOutcome → Prop
  | found {before after : List Node} {node : Node} :
      generated.statements = before ++ node :: after →
      (∀ other ∈ before, ¬ other.TakesMembers target) → node.TakesMembers target →
      MergesTo generated exports members target
        { document :=
            { generated with
              statements := exports ++
                (before ++ { node with children := members ++ node.children } :: after) }
          targetFound := true
          injected := members.length }
  | absent :
      (∀ node ∈ generated.statements, ¬ node.TakesMembers target) →
      MergesTo generated exports members target
        { document := { generated with statements := exports ++ generated.statements }
          targetFound := false
          injected := 0 }

theorem Document.merge_eq (generated : Document) (exports : List Node) (index : DocIndex)
    (target : Text) :
    generated.merge exports index target =
      { document :=
          { generated with
            statements := exports ++
              injectMembers target (Node.describeAll exports index target) generated.statements }
        targetFound := (generated.targetIndex? target).isSome
        injected :=
          if (generated.targetIndex? target).isSome then
            (Node.describeAll exports index target).length
          else 0 } :=
  rfl

/-- A target that is found stands behind statements that take no members. -/
theorem Document.targetIndex?_eq_some {document : Document} {target : Text} {position : Nat}
    (h : document.targetIndex? target = some position) :
    ∃ before node after, document.statements = before ++ node :: after ∧
      (∀ other ∈ before, other.isTarget target = false) ∧ node.isTarget target = true := by
  obtain ⟨hlt, hnode, hfirst⟩ := List.findIdx?_eq_some_iff_getElem.mp h
  refine ⟨document.statements.take position, document.statements[position],
    document.statements.drop (position + 1), ?_, ?_, hnode⟩
  · rw [← List.drop_eq_getElem_cons hlt, List.take_append_drop]
  · intro other hother
    obtain ⟨i, hi, rfl⟩ := List.getElem_of_mem hother
    rw [List.length_take] at hi
    rw [List.getElem_take]
    simpa using hfirst i (by omega)

/-- **What a merge gives**: the exports, the generated statements, and in the first of them that
takes members one member for each function and each variable with a type among the exports. -/
theorem Document.mergesTo_merge (generated : Document) (exports : List Node) (index : DocIndex)
    (target : Text) :
    ∃ members,
      List.Forall₂ (Node.Describes index target) (exports.filter Node.isDescribable) members ∧
      generated.MergesTo exports members target (generated.merge exports index target) := by
  refine ⟨Node.describeAll exports index target, Node.forall₂_describeAll .., ?_⟩
  cases hindex : generated.targetIndex? target with
  | none =>
      have hnone : ∀ node ∈ generated.statements, node.isTarget target = false := by
        simpa [Document.targetIndex?, List.findIdx?_eq_none_iff] using hindex
      rw [merge_eq, hindex, injectMembers_of_forall hnone]
      refine .absent ?_
      intro node hnode htakes
      have hfalse := hnone node hnode
      rw [Node.isTarget_iff.mpr htakes] at hfalse
      cases hfalse
  | some position =>
      obtain ⟨before, node, after, hstatements, hbefore, hnode⟩ :=
        Document.targetIndex?_eq_some hindex
      rw [merge_eq, hindex, hstatements, injectMembers_append_cons hbefore hnode]
      refine .found hstatements ?_ (Node.isTarget_iff.mp hnode)
      intro other hother htakes
      have hfalse := hbefore other hother
      rw [Node.isTarget_iff.mpr htakes] at hfalse
      cases hfalse

end Outcomes

end Typings
