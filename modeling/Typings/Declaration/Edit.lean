import Typings.Declaration.Basic

/-!
# Edits at a path

A path leads from the statements of a document to a node: the position of a statement,
then the position of a child, and so on.  The empty path leads to the list of statements.
An edit gives another document and leaves everything off the path as it is.
-/

namespace Typings

namespace Node

section Paths

def listAt? : List Nat → List Node → Option (List Node)
  | [], nodes => some nodes
  | position :: rest, nodes => nodes[position]?.bind fun node => listAt? rest node.children

def nodeAt? : List Nat → List Node → Option Node
  | [], _ => none
  | [position], nodes => nodes[position]?
  | position :: next :: rest, nodes =>
      nodes[position]?.bind fun node => nodeAt? (next :: rest) node.children

def editListAt? (f : List Node → Option (List Node)) :
    List Nat → List Node → Option (List Node)
  | [], nodes => f nodes
  | position :: rest, nodes =>
      nodes[position]?.bind fun node =>
        (editListAt? f rest node.children).map fun children =>
          nodes.set position (node.withChildren children)

def editNodeAt? (f : Node → Node) : List Nat → List Node → Option (List Node)
  | [], _ => none
  | [position], nodes => nodes[position]?.map fun node => nodes.set position (f node)
  | position :: next :: rest, nodes =>
      nodes[position]?.bind fun node =>
        (editNodeAt? f (next :: rest) node.children).map fun children =>
          nodes.set position (node.withChildren children)

end Paths

section Lists

/-- The nodes with one more at a position, or at the end if the position is past it. -/
def insertAt (position : Nat) (node : Node) (nodes : List Node) : List Node :=
  nodes.take position ++ node :: nodes.drop position

def removeAt? (position : Nat) (nodes : List Node) : Option (List Node) :=
  if position < nodes.length then some (nodes.eraseIdx position) else none

def pick? (positions : List Nat) (nodes : List Node) : Option (List Node) :=
  positions.mapM fun position => nodes[position]?

end Lists

end Node

namespace Document

section Edits

def nodeAt? (document : Document) (path : List Nat) : Option Node :=
  Node.nodeAt? path document.statements

def listAt? (document : Document) (path : List Nat) : Option (List Node) :=
  Node.listAt? path document.statements

def withStatements (document : Document) (statements : List Node) : Document :=
  { document with statements := statements }

/-- The document with the list of nodes at a path changed. -/
def editListAt? (document : Document) (path : List Nat)
    (f : List Node → Option (List Node)) : Option Document :=
  (Node.editListAt? f path document.statements).map document.withStatements

def editNodeAt? (document : Document) (path : List Nat) (f : Node → Node) :
    Option Document :=
  (Node.editNodeAt? f path document.statements).map document.withStatements

end Edits

end Document

end Typings
