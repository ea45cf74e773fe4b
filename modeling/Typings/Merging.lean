import Typings.Declaration.Merge
import Typings.Declaration.Reading
import Typings.Documentation.Json
import Typings.Files.Access
import Typings.Layout.Document

/-!
# A merge from text to text

The document with the helpers is read and its documentation indexed.  The generated
document is read, takes the helpers that are exported, and is printed behind the banner.

**Failures.**  The settings are checked first.  Both files are read before either text is
looked at, and the text with the helpers is looked at first.
-/

namespace Typings

namespace Document

/-- The document in the file at a path, which is also its name. -/
def ofFile {m : Type → Type} [Monad m] (files : FileAccess m) (reading : Nat) (path : Text) :
    m (Except Failure Document) := do
  return (← files.readOrFail path).bind (ofText reading path)

end Document

/-- What a merge gives. -/
structure Merged where
  /-- The merged document, behind its banner. -/
  text : Text
  /-- The documentation of the document with the helpers. -/
  index : DocIndex
  /-- How many helpers are exported. -/
  exported : Nat
  /-- Whether the generated document has the target. -/
  targetFound : Bool
  /-- How many members were put into the target. -/
  injected : Nat

namespace Merged

def ofDocuments (helpers generated : Document) (config : Configuration) : Merged :=
  let index := helpers.index
  let exports := helpers.documented.exports
  let outcome := generated.merge exports index config.target
  { text := outcome.document.print config.generator
    index := index
    exported := exports.length
    targetFound := outcome.targetFound
    injected := outcome.injected }

/-- What a merge of the texts of the two documents gives. -/
def ofTexts (config : Configuration) (helpers generated : Text) : Except Failure Merged := do
  config.check
  let helpers ← Document.ofText 0 config.handAuthored helpers
  let generated ← Document.ofText 1 config.generated generated
  return ofDocuments helpers generated config

variable {m : Type → Type} [Monad m]

def ofFiles (files : FileAccess m) (config : Configuration) : m (Except Failure Merged) := do
  match config.check with
  | .error failure => return .error failure
  | .ok _ =>
      match ← files.readOrFail config.handAuthored with
      | .error failure => return .error failure
      | .ok helpers =>
          match ← files.readOrFail config.generated with
          | .error failure => return .error failure
          | .ok generated => return ofTexts config helpers generated

end Merged

end Typings
