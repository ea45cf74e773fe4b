import Typings.Declaration.Basic
import Typings.Layout.Line

/-!
# Laying out declarations

A node that was read is copied from its source together with the text in front of it.
Two things are written anew.

**Documentation.**  It takes the place of the comment in front of the node, or stands
right before a node that has no comment, with the indent of that line.

**Inserted members.**  A member that has no place inside the text of its container is
put on a line of its own, just past the opening brace or after the member before it.
-/

namespace Typings

namespace Place

section Placement

def chars (place : Place) : Text :=
  place.source.chars

def between (place : Place) (start stop : Nat) : Text :=
  Text.slice place.chars start stop

/-- The text in front of the node, with the documentation written into it. -/
def leadingText (place : Place) : Option DocComment → Text
  | none => place.between place.leading.start place.range.start
  | some doc =>
      match place.comment with
      | some comment =>
          let indent := Text.lineIndent place.chars comment.start
          let after := place.between comment.stop place.range.start
          place.between place.leading.start comment.start ++ doc.render indent ++
            if after.contains '\n' then after else '\n' :: indent
      | none =>
          let indent := Text.lineIndent place.chars place.range.start
          place.between place.leading.start place.range.start ++ doc.render indent ++
            '\n' :: indent

/-- Whether `inner` lies inside `place`, in the same source. -/
def holds (place inner : Place) : Bool :=
  inner.source.same place.source && place.range.start ≤ inner.range.start &&
    inner.range.stop ≤ place.range.stop

def innerPlace? (place : Place) (node : Node) : Option Place :=
  node.place?.filter place.holds

def indent (place : Place) : Text :=
  Text.lineIndent place.chars place.range.start

/-- What the members of a container without members on lines of their own are indented
by. -/
def memberStep : Text :=
  List.replicate 4 ' '

/-- The indent of the members of a container: that of the first member on a line of its
own, if there is one. -/
def memberIndent (place : Place) (members : List Node) : Text :=
  let own := (members.filterMap place.innerPlace?).findSome? fun inner =>
    Text.ownLineIndent? place.chars inner.range.start
  own.getD (place.indent ++ memberStep)

end Placement

end Place

section Joining

/-- A piece of a container.  After an inserted member it starts on a new line. -/
def continued (afterInsert : Bool) (indent piece : Text) : Text :=
  if afterInsert && !Text.startsWithBreak piece then
    '\n' :: (indent ++ Text.trimStart piece)
  else
    piece

/-- An inserted member with its documentation, on lines of its own. -/
def insertedText (indent : Text) (doc : Option DocComment) (body : Text) : Text :=
  '\n' :: (indent ++
    (match doc with
      | some doc => doc.render indent ++ '\n' :: indent
      | none => []) ++
    body)

end Joining

namespace Node

section Bodies

mutual

/-- The text of a node, with the texts of its members in their places. -/
def bodyText : Node → Text
  | ⟨_, _, _, _, _, children, origin⟩ =>
      match origin with
      | .made text => text
      | .placed place =>
          if children.isEmpty then
            place.text
          else
            membersText place (place.memberIndent children) place.range.start false children

/-- What is left of a container from a position on, with members in their places;
`afterInsert` tells that the piece before is an inserted member. -/
def membersText (place : Place) (indent : Text) (position : Nat) (afterInsert : Bool) :
    List Node → Text
  | [] => continued afterInsert place.indent (place.between position place.range.stop)
  | node :: rest =>
      match place.innerPlace? node with
      | some inner =>
          continued afterInsert indent
              (place.between position inner.leading.start ++ inner.leadingText node.doc) ++
            bodyText node ++
            membersText place indent inner.range.stop false rest
      | none =>
          let start := max (place.membersAt.getD position) position
          place.between position start ++ insertedText indent node.doc (bodyText node) ++
            membersText place indent start true rest

end

def statementText (node : Node) : Text :=
  match node.origin with
  | .placed place => place.leadingText node.doc ++ node.bodyText
  | .made text =>
      match node.doc with
      | some doc => doc.render [] ++ '\n' :: text
      | none => text

end Bodies

end Node

end Typings
