import Typings.Declaration.Basic
import Typings.Failure
import Typings.Search.Partition
import Typings.Syntax.Grammar

/-!
# Reading declarations

A text that was read has an outline and a list of its comments.  From the two, every
entry of the outline becomes a node, and each node finds the one comment that
documents it.

**Comments.**  The gap of a node is the text since the node before it, or since the
brace that opens the body.  The last comment inside the gap documents the node.  The
first member of a class has no known gap; it is documented by the last comment that
leads its first token.

**Parameters.**  The text of a parameter begins with the block comments right in front
of it.
-/

namespace Typings

open Syntax

/-- A text that was read. -/
structure ReadText where
  source : SourceText
  outline : List Outline
  /-- The comments, ordered by where they start. -/
  comments : Array Comment
  deriving Inhabited

namespace ReadText

section Opening

/-- The reading of a text, with line feeds for line ends, if it is well formed. -/
def ofText? (reading : Nat) (t : Text) : Option ReadText :=
  let chars := Text.unixLines t
  (readDocument chars).map fun (outline, comments) =>
    ⟨⟨reading, chars⟩, outline, comments.toArray⟩

def chars (r : ReadText) : Text :=
  r.source.chars

def textOf (r : ReadText) (span : Span) : Text :=
  Text.slice r.chars span.start span.stop

end Opening

section Comments

def commentsWithin (r : ReadText) (range : Span) : List Span :=
  let first := Search.partitionPoint (fun c => c.span.start < range.start) r.comments
  let last := Search.partitionPoint (fun c => c.span.start < range.stop) r.comments
  let found := ((r.comments.extract first (max last first)).toList).map Comment.span
  match found.getLast? with
  | some span => if range.stop < span.stop then found.dropLast else found
  | none => found

def leadingComments (r : ReadText) (position : Nat) : List Comment :=
  r.comments.toList.filter fun c => c.leads == some position

/-- The comment that documents what stands at a position, given the gap before it if
the gap is known. -/
def significantComment (r : ReadText) (position : Nat) (gap : Option Span) : Option Span :=
  match gap with
  | some gap => (r.commentsWithin gap).getLast?
  | none => (r.leadingComments position).getLast?.map Comment.span

/-- The block comment that ends where the text before `start` ends, white space aside. -/
def blockCommentBefore (r : ReadText) (start : Nat) : Option Comment :=
  let before := if r.chars.length < start then [] else r.chars.take start
  let stop := (Text.trimEnd before).length
  let count := Search.partitionPoint (fun c => c.span.start < stop) r.comments
  ((r.comments.toList.take count).getLast?).filter fun c => c.span.stop == stop && c.isBlock

/-- Walks back over at most `fuel` block comments. -/
def extendUpTo (r : ReadText) : Nat → Nat → Nat
  | 0, start => start
  | fuel + 1, start =>
      match r.blockCommentBefore start with
      | some comment => extendUpTo r fuel comment.span.start
      | none => start

/-- The start of the block comments right in front of a position. -/
def extendOverBlockComments (r : ReadText) (start : Nat) : Nat :=
  r.extendUpTo start start

end Comments

section Nodes

/-- The position just past the first opening brace from a position on. -/
def openBrace (r : ReadText) (start : Nat) : Option Nat :=
  (Text.indexOf? (r.chars.drop start) '{').map fun i => start + i + 1

/-- The place of an entry, given where its gap begins if that is known. -/
def placeOf (r : ReadText) (gap : Option Nat) (range : Span) (membersAt : Option Nat) : Place :=
  let comment := (r.significantComment range.start (gap.map fun g => ⟨g, range.start⟩)).filter
    fun span => span.stop ≤ range.start
  let leadingStart := (gap <|> comment.map Span.start).getD range.start
  { source := r.source
    leading := ⟨min leadingStart range.start, range.start⟩
    comment := comment
    range := range
    membersAt := membersAt }

/-- The text of a parameter, with the block comments in front of it. -/
def paramText (r : ReadText) (span : Span) : Text :=
  r.textOf ⟨r.extendOverBlockComments span.start, span.stop⟩

def kindOf (r : ReadText) : Form → DeclKind
  | .function signature =>
      .function
        { typeParams := signature.typeParams.map r.textOf
          params := signature.params.map r.paramText
          result := signature.result.map r.textOf }
  | .variable ascription => .variable (ascription.map r.textOf)
  | .interface => .interface
  | .classDef => .classDef
  | .enumeration => .enumeration
  | .typeAlias => .typeAlias
  | .nameSpace => .nameSpace
  | .member => .member
  | .statement => .statement

/-- Whether the members of an entry are named relative to it. -/
def qualifiesMembers : Form → Bool
  | .interface | .classDef | .enumeration => true
  | _ => false

mutual

/-- The node of an entry. -/
def nodeOf (r : ReadText) (parent : Option Text) (gap : Option Nat) : Outline → Node
  | ⟨form, name, exported, span, bodyFrom, entries⟩ =>
      let bodyGap := bodyFrom.bind r.openBrace
      { kind := r.kindOf form
        name := name
        parent := parent
        exported := exported
        doc := none
        children := nodesOf r (if qualifiesMembers form then name else none) bodyGap entries
        origin := .placed (r.placeOf gap span (if form == .interface then bodyGap else none)) }

/-- The nodes of entries; the gap of the first begins at `gap` if that is known, and
that of every other where the entry before ends. -/
def nodesOf (r : ReadText) (parent : Option Text) : Option Nat → List Outline → List Node
  | _, [] => []
  | gap, entry :: rest =>
      nodeOf r parent gap entry :: nodesOf r parent (some entry.span.stop) rest

end

def outlineStop (r : ReadText) : Nat :=
  (r.outline.getLast?.map fun entry => entry.span.stop).getD 0

def document (r : ReadText) (name : Text) : Document :=
  { name := name
    statements := r.nodesOf none (some 0) r.outline
    trailing := r.chars.drop r.outlineStop }

end Nodes

end ReadText

namespace Document

def rejection : Text :=
  "not a well-formed declaration file".toList

/-- Reads a text as a document named `name`. -/
def ofText (reading : Nat) (name t : Text) : Except Failure Document :=
  match ReadText.ofText? reading t with
  | some r => .ok (r.document name)
  | none => .error (.rejected name rejection)

end Document

end Typings
