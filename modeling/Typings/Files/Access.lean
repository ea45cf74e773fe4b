import Typings.Configuration

/-!
# Access to files

What a merge needs of a file system: reading a file as text, and writing one.  The two
operations are given as a value, so that the same run works on a disk and on files that
are held as data.
-/

namespace Typings

/-- How files are read and written. -/
structure FileAccess (m : Type → Type) where
  /-- The text of the file at a path. -/
  read : Text → m (Except ReadFault Text)
  /-- Writes a file, and tells whether that worked. -/
  write : Text → Text → m Bool

namespace FileAccess

variable {m : Type → Type} [Monad m]

def readOrFail (files : FileAccess m) (path : Text) : m (Except Failure Text) := do
  match ← files.read path with
  | .ok text => return .ok text
  | .error fault => return .error (.unreadable path fault)

end FileAccess

namespace Configuration

/-- The settings in the text of the configuration file at `path`, if they can drive a
merge. -/
def ofFileText (path text : Text) : Except Failure Configuration :=
  match decode text with
  | .error fault => .error (.undecodable path fault)
  | .ok config => config.check.map fun _ => config

variable {m : Type → Type} [Monad m]

/-- The settings in the configuration file at `path`, if they can drive a merge. -/
def load (files : FileAccess m) (path : Text) : m (Except Failure Configuration) := do
  return (← files.readOrFail path).bind (ofFileText path)

end Configuration

end Typings
