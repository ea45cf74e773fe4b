import Typings.Documentation.Comment
import Typings.Syntax.Token

/-!
# Declarations

A document is a list of declarations, and a declaration is a node with its members as
children.  A node either has a place in a text that was read, or it was made and
carries its own text.

**Sources.**  Two texts that happen to be equal are still two sources: a source is
known by the reading it came from.

**Changes.**  Nothing is changed in place.  A node with other documentation or other
children is another node.
-/

namespace Typings

/-- The parts of a function signature, as text. -/
structure Signature where
  /-- The type parameters with their angle brackets. -/
  typeParams : Option Text
  params : List Text
  /-- The type of the result, without the colon. -/
  result : Option Text
  deriving DecidableEq, Repr, Inhabited

namespace Signature

def methodText (signature : Signature) (name : Text) : Text :=
  name ++ signature.typeParams.getD [] ++ '(' ::
    (Text.joinWith ", ".toList signature.params ++ ')' ::
      ((match signature.result with
        | some type => ": ".toList ++ type
        | none => []) ++ [';']))

end Signature

/-- What a node declares. -/
inductive DeclKind where
  | function (signature : Signature)
  /-- A variable, with the type of its first declarator. -/
  | variable (type : Option Text)
  | interface
  | classDef
  | enumeration
  | typeAlias
  | nameSpace
  /-- A member of an interface, a class, an enumeration or an object type. -/
  | member
  /-- Any other statement. -/
  | statement
  deriving DecidableEq, Repr, Inhabited

namespace DeclKind

def word : DeclKind → Text
  | .function _ => "function".toList
  | .variable _ => "variable".toList
  | .interface => "interface".toList
  | .classDef => "class".toList
  | .enumeration => "enum".toList
  | .typeAlias => "type alias".toList
  | .nameSpace => "namespace".toList
  | .member => "member".toList
  | .statement => "statement".toList

end DeclKind

/-- A text that was read, and the reading it came from. -/
structure SourceText where
  reading : Nat
  chars : Text
  deriving Repr, Inhabited

namespace SourceText

/-- Whether two texts come from the same reading. -/
def same (a b : SourceText) : Bool :=
  a.reading == b.reading

end SourceText

/-- Where a node stands in the text it was read from. -/
structure Place where
  source : SourceText
  /-- The text between the node before and this node. -/
  leading : Span
  /-- The comment in front that documents the node. -/
  comment : Option Span
  /-- The node itself. -/
  range : Span
  /-- Where new members are put, just past the opening brace of an interface. -/
  membersAt : Option Nat
  deriving Repr, Inhabited

namespace Place

def text (place : Place) : Text :=
  Text.slice place.source.chars place.range.start place.range.stop

def commentText (place : Place) : Option Text :=
  place.comment.map fun span => Text.slice place.source.chars span.start span.stop

end Place

/-- Where the text of a node comes from. -/
inductive Origin where
  /-- The node was read. -/
  | placed (place : Place)
  /-- The node was made. -/
  | made (text : Text)
  deriving Repr, Inhabited

/-- A declaration. -/
structure Node where
  kind : DeclKind
  name : Option Text
  /-- The name of the declaration around, if members are named relative to it. -/
  parent : Option Text
  exported : Bool
  /-- Documentation that takes the place of the comment in front. -/
  doc : Option DocComment
  children : List Node
  origin : Origin
  deriving Repr, Inhabited

namespace Node

section Parts

/-- A node made from scratch. -/
def made (kind : DeclKind) (name text : Text) : Node :=
  ⟨kind, some name, none, false, none, [], .made text⟩

def place? (node : Node) : Option Place :=
  match node.origin with
  | .placed place => some place
  | .made _ => none

def text (node : Node) : Text :=
  match node.origin with
  | .placed place => place.text
  | .made text => text

def source? (node : Node) : Option SourceText :=
  node.place?.map Place.source

def childNames (node : Node) : List Text :=
  node.children.filterMap Node.name

def isInterfaceNamed (node : Node) (name : Text) : Bool :=
  node.kind == .interface && node.name == some name

end Parts

section Changes

def withDoc (node : Node) (doc : Option DocComment) : Node :=
  { node with doc := doc }

def withChildren (node : Node) (children : List Node) : Node :=
  { node with children := children }

def withParent (node : Node) (parent : Option Text) : Node :=
  { node with parent := parent }

end Changes

section Names

/-- A name together with that of the declaration around; the empty name names nothing. -/
def qualify (name : Text) (parent : Option Text) : Option Text :=
  if name.isEmpty then none
  else
    match parent with
    | some parent => some (parent ++ '.' :: name)
    | none => some name

/-- The name by which a node is documented. -/
def qualifiedName (node : Node) : Option Text :=
  node.name.bind fun name => qualify name node.parent

end Names

end Node

/-- A document of declarations. -/
structure Document where
  /-- The name of the document in messages. -/
  name : Text
  statements : List Node
  /-- The text after the last statement. -/
  trailing : Text
  deriving Repr, Inhabited

namespace Document

/-- The first statement of a name. -/
def find? (document : Document) (name : Text) : Option Node :=
  document.statements.find? fun node => node.name == some name

/-- The exported statements, in order. -/
def exports (document : Document) : List Node :=
  document.statements.filter Node.exported

end Document

end Typings
