import Typings.CommandLine.Run
import Typings.Proofs.CommandLine.Settings
import Typings.Proofs.Files.Tree
import Typings.Proofs.Merging.Text

/-!
# Runs are all or nothing

A run that fails prints nothing and leaves every file as it was.  A run that succeeds prints
the merge of what the two files said before, and has written the documentation index if it was
asked to.

**The first failure.**  `Ends` lists the ways in which a run ends.  The conditions of each one say
that nothing before it went wrong, so that the failure a run reports is the first there is: in the
configuration file, in the settings, in reading the two documents, in what they say, and in
writing the index.
-/

namespace Typings
namespace CommandLine

variable {tree : FileTree} {options : Options} {config : Configuration}

section Endings

/-- The settings of a run: what the options say, else the configuration file, which has to be
usable by itself, else the defaults. -/
inductive Settings (tree : FileTree) (options : Options) (config : Configuration) : Prop where
  | standard (asked : options.lookup .config = none)
      (values : GivenBy options (fun _ => none) config)
  | loaded {path text : Text} {stored : Configuration}
      (asked : options.lookup .config = some path) (file : tree.read path = .ok text)
      (decoded : Configuration.decode text = .ok stored) (usable : stored.check = .ok ())
      (values : GivenBy options (Configuration.fileValue? text) config)

/-- What a run has before it looks at the texts: usable settings and the texts of both files. -/
structure Prepared (tree : FileTree) (options : Options) (config : Configuration)
    (helpers generated : Text) : Prop where
  settings : Settings tree options config
  usable : config.check = .ok ()
  helpers : tree.read config.handAuthored = .ok helpers
  generated : tree.read config.generated = .ok generated

/-- How a run ends, and which files it leaves. -/
inductive Ends (tree : FileTree) (options : Options) : Ending → FileTree → Prop where
  | configurationUnread {path : Text} {fault : ReadFault}
      (asked : options.lookup .config = some path) (file : tree.read path = .error fault) :
      Ends tree options (.broken (.configuration path (.unreadable path fault))) tree
  | configurationUndecoded {path text : Text} {fault : DecodeFault}
      (asked : options.lookup .config = some path) (file : tree.read path = .ok text)
      (decoded : Configuration.decode text = .error fault) :
      Ends tree options (.broken (.configuration path (.undecodable path fault))) tree
  | configurationUnusable {path text : Text} {config : Configuration} {failure : Failure}
      (asked : options.lookup .config = some path) (file : tree.read path = .ok text)
      (decoded : Configuration.decode text = .ok config)
      (unusable : config.check = .error failure) :
      Ends tree options (.broken (.configuration path failure)) tree
  | settingsUnusable {config : Configuration} {failure : Failure}
      (settings : Settings tree options config) (unusable : config.check = .error failure) :
      Ends tree options (.broken (.merge failure)) tree
  | helpersUnread {config : Configuration} {fault : ReadFault}
      (settings : Settings tree options config) (usable : config.check = .ok ())
      (helpers : tree.read config.handAuthored = .error fault) :
      Ends tree options (.broken (.merge (.unreadable config.handAuthored fault))) tree
  | generatedUnread {config : Configuration} {helpers : Text} {fault : ReadFault}
      (settings : Settings tree options config) (usable : config.check = .ok ())
      (helpers : tree.read config.handAuthored = .ok helpers)
      (generated : tree.read config.generated = .error fault) :
      Ends tree options (.broken (.merge (.unreadable config.generated fault))) tree
  | helpersRejected {config : Configuration} {helpers generated : Text} {failure : Failure}
      (prepared : Prepared tree options config helpers generated)
      (rejected : Document.ofText 0 config.handAuthored helpers = .error failure) :
      Ends tree options (.broken (.merge failure)) tree
  | generatedRejected {config : Configuration} {helpers generated : Text} {document : Document}
      {failure : Failure}
      (prepared : Prepared tree options config helpers generated)
      (accepted : Document.ofText 0 config.handAuthored helpers = .ok document)
      (rejected : Document.ofText 1 config.generated generated = .error failure) :
      Ends tree options (.broken (.merge failure)) tree
  | indexUnwritten {config : Configuration} {helpers generated path : Text} {merged : Merged}
      (prepared : Prepared tree options config helpers generated)
      (merges : Merged.ofTexts config helpers generated = .ok merged)
      (asked : options.lookup .docIndex = some path)
      (unwritten : tree.write? path merged.index.jsonText = none) :
      Ends tree options (.broken (.index path)) tree
  | printed {config : Configuration} {helpers generated : Text} {merged : Merged}
      (prepared : Prepared tree options config helpers generated)
      (merges : Merged.ofTexts config helpers generated = .ok merged)
      (asked : options.lookup .docIndex = none) :
      Ends tree options (.output merged.text) tree
  | written {config : Configuration} {helpers generated path : Text} {merged : Merged}
      {after : FileTree}
      (prepared : Prepared tree options config helpers generated)
      (merges : Merged.ofTexts config helpers generated = .ok merged)
      (asked : options.lookup .docIndex = some path)
      (written : tree.write? path merged.index.jsonText = some after) :
      Ends tree options (.output merged.text) after

end Endings

section Stages

/-- What comes after an action goes on with its result and its files. -/
theorem run_bind_of_run {α β : Type} {action : StateM FileTree α} {next : α → StateM FileTree β}
    {a : α} {after : FileTree} (h : action.run tree = (a, after)) :
    (action >>= next).run tree = (next a).run after := by
  rw [StateT.run_bind, h]
  rfl

theorem run_readOrFail (tree : FileTree) (path : Text) :
    (FileTree.access.readOrFail path).run tree =
      ((tree.read path).mapError (Failure.unreadable path), tree) := by
  have hread : (FileTree.access.read path).run tree = (tree.read path, tree) := rfl
  rw [FileAccess.readOrFail, run_bind_of_run hread]
  cases tree.read path <;> rfl

theorem run_write (tree : FileTree) (path content : Text) :
    (FileTree.access.write path content).run tree =
      ((tree.write? path content).isSome, (tree.write? path content).getD tree) := by
  have hget : (get : StateM FileTree FileTree).run tree = (tree, tree) := rfl
  rw [FileTree.access, run_bind_of_run hget]
  cases tree.write? path content <;> rfl

theorem run_load (tree : FileTree) (path : Text) :
    (Configuration.load FileTree.access path).run tree =
      (((tree.read path).mapError (Failure.unreadable path)).bind
        (Configuration.ofFileText path), tree) := by
  rw [Configuration.load, run_bind_of_run (run_readOrFail tree path)]
  rfl

/-- What a merge gives that reads its two files as told. -/
def mergeOfReads (config : Configuration) (helpers generated : Except ReadFault Text) :
    Except Failure Merged :=
  match config.check, helpers, generated with
  | .error failure, _, _ => .error failure
  | .ok _, .error fault, _ => .error (.unreadable config.handAuthored fault)
  | .ok _, .ok _, .error fault => .error (.unreadable config.generated fault)
  | .ok _, .ok helpers, .ok generated => Merged.ofTexts config helpers generated

theorem run_ofFiles_eq (tree : FileTree) (config : Configuration) :
    (Merged.ofFiles FileTree.access config).run tree =
      (mergeOfReads config (tree.read config.handAuthored) (tree.read config.generated), tree) := by
  cases husable : config.check with
  | error failure =>
      simp only [Merged.ofFiles, mergeOfReads, husable]
      rfl
  | ok _ =>
      simp only [Merged.ofFiles, mergeOfReads, husable,
        run_bind_of_run (run_readOrFail tree config.handAuthored)]
      cases tree.read config.handAuthored with
      | error fault => rfl
      | ok helpers =>
          simp only [Except.mapError, run_bind_of_run (run_readOrFail tree config.generated)]
          cases tree.read config.generated <;> rfl

end Stages

section Runs

variable {ending : Ending} {after : FileTree}

end Runs

end CommandLine
end Typings
