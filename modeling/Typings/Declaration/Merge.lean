import Typings.Documentation.Index

/-!
# Merging declarations

Helpers that are attached to a module at run time are declared by hand, and the module
itself by a generator.  A merge puts the exported helpers in front of the generated
statements, and describes each helper by a member of one generated interface, the
target.

**Members.**  A function becomes a method and a variable with a type becomes a property.
Nothing else has the form of a member.

**The target.**  The first statement that is an interface of the right name and has a
place for members.  Without a target the helpers are still put in front.
-/

namespace Typings

section Members

namespace DeclKind

/-- The text of the member that describes a declaration, if it has that form. -/
def memberText? (kind : DeclKind) (name : Text) : Option Text :=
  match kind with
  | .function signature => some (signature.methodText name)
  | .variable (some type) => some (name ++ ':' :: ' ' :: type ++ [';'])
  | _ => none

end DeclKind

namespace Node

/-- The member of `target` that describes a node, with the documentation recorded for the
name of the node. -/
def describe? (node : Node) (index : DocIndex) (target : Text) : Option Node :=
  node.name.bind fun name =>
    (node.kind.memberText? name).map fun text =>
      ((Node.made .member name text).withParent (some target)).withDoc
        (node.qualifiedName.bind index.get?)

def withMembers (node : Node) (members : List Node) : Node :=
  node.withChildren (members ++ node.children)

/-- Whether a node is an interface named `target` that has a place for members. -/
def isTarget (target : Text) (node : Node) : Bool :=
  node.isInterfaceNamed target && (node.place?.bind Place.membersAt).isSome

end Node

end Members

section Merge

/-- What a merge gives. -/
structure MergeOutcome where
  document : Document
  /-- Whether the generated document has a target. -/
  targetFound : Bool
  /-- How many members were put into the target. -/
  injected : Nat
  deriving Repr, Inhabited

/-- Nodes with members put into the first target among them. -/
def injectMembers (target : Text) (members : List Node) : List Node → List Node
  | [] => []
  | node :: rest =>
      if node.isTarget target then
        node.withMembers members :: rest
      else
        node :: injectMembers target members rest

namespace Document

def targetIndex? (document : Document) (target : Text) : Option Nat :=
  document.statements.findIdx? (Node.isTarget target)

/-- A generated document merged with exported nodes, which `index` documents. -/
def merge (generated : Document) (exports : List Node) (index : DocIndex)
    (target : Text) : MergeOutcome :=
  let members := exports.filterMap fun node => node.describe? index target
  let found := (generated.targetIndex? target).isSome
  { document :=
      { generated with
        statements := exports ++ injectMembers target members generated.statements }
    targetFound := found
    injected := if found then members.length else 0 }

end Document

end Merge

end Typings
