import Typings.CommandLine.Options
import Typings.Files.Tree
import Typings.Merging

/-!
# A run of the command line

The settings come from the options, else from the configuration file, else from the
defaults.  The merged document is the output; the documentation index is written to a
file if that is asked for.

**All or nothing.**  Nothing is printed and nothing is written before the merge is done,
and nothing is printed if the index cannot be written.
-/

namespace Typings
namespace CommandLine

/-- What a run can be stopped by. -/
inductive Breakdown where
  /-- The configuration file at a path is no help. -/
  | configuration (path : Text) (failure : Failure)
  /-- There is no merge. -/
  | merge (failure : Failure)
  /-- The documentation index cannot be written to a path. -/
  | index (path : Text)
  deriving DecidableEq, Repr, Inhabited

namespace Breakdown

def message : Breakdown → Text
  | .configuration path _ => "Failed to load configuration ".toList ++ path
  | .merge _ => "Declaration merge failed".toList
  | .index path => "Failed to write documentation index ".toList ++ path

/-- The failure behind a breakdown. -/
def cause? : Breakdown → Option Failure
  | .configuration _ failure => some failure
  | .merge failure => some failure
  | .index _ => none

end Breakdown

/-- How a run ends. -/
inductive Ending where
  /-- With output. -/
  | output (text : Text)
  | broken (reason : Breakdown)
  /-- Without a try, since the command line makes no sense. -/
  | refused
  deriving DecidableEq, Repr, Inhabited

namespace Ending

def code : Ending → Nat
  | .output _ => 0
  | .broken _ => 1
  | .refused => 2

def printed : Ending → Text
  | .output text => text
  | _ => []

def failure? : Ending → Option Text
  | .broken reason => some reason.message
  | _ => none

end Ending

section Texts

def versionText : Text :=
  "dts-merge 0.1.0\n".toList

def helpText : Text :=
  Text.joinLines <| List.map String.toList [
    "Merge hand-authored TypeScript declarations into a generated .d.ts file",
    "",
    "Usage: dts-merge [OPTIONS]",
    "",
    "Options:",
    "  -c, --config <CONFIG>        TOML configuration file",
    "      --pre <PRE>              Hand-authored declaration file (documentation and helper exports)",
    "      --generated <GENERATED>  Generated declaration file to merge into",
    "      --target <TARGET>        Interface that receives the helper members",
    "      --generator <GENERATOR>  Tool name written into the generated-file banner",
    "      --doc-index <DOC_INDEX>  Also write the documentation index as JSON to this file",
    "  -h, --help                   Print help",
    "  -V, --version                Print version",
    ""]

end Texts

section Run

def overridden (options : Options) (config : Configuration) : Configuration :=
  config.override (options.lookup .pre) (options.lookup .generated) (options.lookup .target)
    (options.lookup .generator)

variable {m : Type → Type} [Monad m]

/-- The settings of a run. -/
def effective (files : FileAccess m) (options : Options) :
    m (Except Breakdown Configuration) := do
  match options.lookup .config with
  | none => return .ok (overridden options .standard)
  | some path =>
      match ← Configuration.load files path with
      | .ok config => return .ok (overridden options config)
      | .error failure => return .error (.configuration path failure)

/-- The ending after a merge: the documentation index is written if that is asked for. -/
def finish (files : FileAccess m) (options : Options) (merged : Merged) : m Ending := do
  match options.lookup .docIndex with
  | none => return .output merged.text
  | some path =>
      if ← files.write path merged.index.jsonText then
        return .output merged.text
      else
        return .broken (.index path)

def merge (files : FileAccess m) (options : Options) : m Ending := do
  match ← effective files options with
  | .error reason => return .broken reason
  | .ok config =>
      match ← Merged.ofFiles files config with
      | .error failure => return .broken (.merge failure)
      | .ok merged => finish files options merged

def run (files : FileAccess m) (arguments : List Text) : m Ending :=
  match request arguments with
  | .run options => merge files options
  | .version => return .output versionText
  | .help => return .output helpText
  | .refused => return .refused

/-- A run in a tree of files: how it ends, and the files afterwards. -/
def runIn (tree : FileTree) (arguments : List Text) : Ending × FileTree :=
  (run FileTree.access arguments).run tree

end Run

end CommandLine
end Typings
