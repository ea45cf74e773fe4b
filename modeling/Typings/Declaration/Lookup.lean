import Typings.Declaration.Reading
import Typings.Text.Offset

/-!
# Lookups by byte offset

The comments and pieces of a text that was read, for those who count in bytes.  An
offset that falls inside a character belongs to no position: nothing starts or ends
there.
-/

namespace Typings

open Syntax

namespace ReadText

section Offsets

def byteSize (r : ReadText) : Nat :=
  Text.byteSize r.chars

/-- An offset, or the end of the text if the offset is past it. -/
def clampOffset (r : ReadText) (offset : Nat) : Nat :=
  min offset r.byteSize

def byteSpan (r : ReadText) (span : Span) : Span :=
  ⟨Text.byteOffset r.chars span.start, Text.byteOffset r.chars span.stop⟩

/-- The positions between two offsets: every position that is not before the first and
not after the second. -/
def innerSpan (r : ReadText) (range : Span) : Span :=
  ⟨Text.positionAfter r.chars range.start, Text.positionBefore r.chars range.stop⟩

end Offsets

section Lookups

/-- The text between two offsets, each of them moved back to the end if it is past it;
empty unless both fall between two characters. -/
def textBetween (r : ReadText) (range : Span) : Text :=
  match Text.position? r.chars (r.clampOffset range.start),
      Text.position? r.chars (r.clampOffset range.stop) with
  | some start, some stop => Text.slice r.chars start stop
  | _, _ => []

def commentsBetween (r : ReadText) (range : Span) : List Span :=
  (r.commentsWithin (r.innerSpan range)).map r.byteSpan

/-- The offset where the block comments right in front of an offset start. -/
def extendBack (r : ReadText) (offset : Nat) : Nat :=
  match Text.position? r.chars offset with
  | some position => Text.byteOffset r.chars (r.extendOverBlockComments position)
  | none => offset

def commentBody (r : ReadText) (comment : Comment) : Text :=
  let inner := (r.textOf comment.span).drop 2
  if comment.isBlock then (Text.beforeSuffix? "*/".toList inner).getD inner else inner

/-- The comments that lead the token at an offset, each with its text. -/
def leadingAt (r : ReadText) (offset : Nat) : List (Span × Text) :=
  match Text.position? r.chars offset with
  | some position =>
      (r.leadingComments position).map fun comment =>
        (r.byteSpan comment.span, r.commentBody comment)
  | none => []

/-- The comment that documents what stands at an offset, given the gap before it if the
gap is known. -/
def significantAt (r : ReadText) (offset : Nat) (gap : Option Span) : Option Span :=
  match gap with
  | some gap => (r.commentsBetween gap).getLast?
  | none => (r.leadingAt offset).getLast?.map Prod.fst

end Lookups

end ReadText
end Typings
