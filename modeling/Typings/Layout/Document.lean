import Typings.Layout.Node

/-!
# Laying out documents

Statements of one source follow each other as they did there.  Between statements of
different sources stands one blank line, and between two made ones a line break.

**Ends.**  A document starts with its first statement and ends with one line feed.
-/

namespace Typings

namespace Document

section Statements

def sameSource (a b : Node) : Bool :=
  match a.source?, b.source? with
  | some a, some b => a.same b
  | _, _ => false

/-- What separates two statements that are not of one source. -/
def separator (before after : Node) : Text :=
  if before.source?.isNone && after.source?.isNone then ['\n'] else ['\n', '\n']

/-- The text so far with one more statement, which comes after `before`. -/
def appendStatement (written : Text) (before : Option Node) (node : Node) : Text :=
  match before with
  | none => written ++ Text.trimStart node.statementText
  | some before =>
      if sameSource before node then
        written ++ node.statementText
      else
        Text.trimEnd written ++ separator before node ++ Text.trimStart node.statementText

/-- The text so far with more statements, which come after `before`. -/
def appendStatements (written : Text) (before : Option Node) : List Node → Text
  | [] => written
  | node :: rest => appendStatements (appendStatement written before node) (some node) rest

/-- The text of a document. -/
def render (document : Document) : Text :=
  Text.trimEnd (appendStatements [] none document.statements ++ document.trailing) ++ ['\n']

end Statements

section Banner

def banner (generator : Text) : Text :=
  "// This file was generated by ".toList ++ generator ++ ['.']

/-- The text of a document behind a banner and a blank line. -/
def print (document : Document) (generator : Text) : Text :=
  banner generator ++ '\n' :: '\n' :: document.render

end Banner

end Document

end Typings
