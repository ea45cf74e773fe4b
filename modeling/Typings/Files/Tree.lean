import Typings.Files.Access

/-!
# Files as data

A tree of files, held as a list of paths with what lies there.  A path is a list of
names; a directory exists if it is listed or if something lies below it.

**Paths as text.**  A text is followed name by name from the working directory, and every
name but the last must lead to a directory.  Nothing is known of the files outside of the
working directory.
-/

namespace Typings

/-- What lies at a path. -/
inductive FileEntry where
  | text (content : Text)
  /-- A file whose bytes are not UTF-8. -/
  | binary
  | directory
  deriving DecidableEq, Repr, Inhabited

namespace FileEntry

def ofBytes (bytes : ByteArray) : FileEntry :=
  match String.fromUTF8? bytes with
  | some content => .text content.toList
  | none => .binary

/-- The text of what lies at a path, if it is a file of text. -/
def read : FileEntry → Except ReadFault Text
  | .text content => .ok content
  | .binary => .error .notText
  | .directory => .error .isDirectory

end FileEntry

/-- The files below a working directory. -/
structure FileTree where
  entries : List (List Text × FileEntry)
  deriving DecidableEq, Repr, Inhabited

namespace FileTree

section Lookup

/-- The tree with the given entries, each under its path from the working directory. -/
def ofList (entries : List (Text × FileEntry)) : FileTree :=
  ⟨entries.map fun entry =>
    ((Text.pieces '/' entry.1).filter fun name => name != [] && name != ['.'], entry.2)⟩

def entryAt? (tree : FileTree) (names : List Text) : Option FileEntry :=
  match tree.entries.lookup names with
  | some entry => some entry
  | none =>
      if names.isEmpty || tree.entries.any (fun entry => names.isPrefixOf entry.1) then
        some .directory
      else
        none

/-- A place that a path leads to: names below the working directory, or somewhere
outside. -/
inductive Spot where
  | inside (names : List Text)
  | outside
  deriving DecidableEq, Repr, Inhabited

/-- What lies at a spot; outside there is a directory. -/
def entryOf (tree : FileTree) : Spot → Except ReadFault FileEntry
  | .inside names =>
      match tree.entryAt? names with
      | some entry => .ok entry
      | none => .error .missing
  | .outside => .ok .directory

/-- The spot one name further.  Outside, no name leads anywhere. -/
def step (name : Text) : Spot → Except ReadFault Spot
  | .inside names =>
      if name == [] || name == ['.'] then .ok (.inside names)
      else if name == ['.', '.'] then
        .ok (if names.isEmpty then .outside else .inside names.dropLast)
      else .ok (.inside (names ++ [name]))
  | .outside =>
      if name == [] || name == ['.'] || name == ['.', '.'] then .ok .outside
      else .error .missing

/-- The spot that names lead to; only a directory leads further. -/
def follow (tree : FileTree) : Spot → List Text → Except ReadFault Spot
  | spot, [] => .ok spot
  | spot, name :: rest =>
      match tree.entryOf spot with
      | .error fault => .error fault
      | .ok .directory => (step name spot).bind fun next => follow tree next rest
      | .ok _ => .error .notDirectory

def locate (tree : FileTree) (path : Text) : Except ReadFault Spot :=
  if path.isEmpty then
    .error .missing
  else
    tree.follow (if path.head? == some '/' then .outside else .inside [])
      (Text.pieces '/' path)

end Lookup

section Contents

def read (tree : FileTree) (path : Text) : Except ReadFault Text :=
  ((tree.locate path).bind tree.entryOf).bind FileEntry.read

/-- The entries with a text under a list of names. -/
def setText (names : List Text) (content : Text) :
    List (List Text × FileEntry) → List (List Text × FileEntry)
  | [] => [(names, .text content)]
  | (other, entry) :: rest =>
      if other = names then
        (names, .text content) :: rest
      else
        (other, entry) :: setText names content rest

/-- The tree with a file of the given text at a path, if a file can be there. -/
def write? (tree : FileTree) (path content : Text) : Option FileTree :=
  match tree.locate path with
  | .ok (.inside names) =>
      if tree.entryAt? names == some .directory then none
      else some ⟨setText names content tree.entries⟩
  | _ => none

/-- Reading and writing in a tree. -/
def access : FileAccess (StateM FileTree) where
  read path := do return (← get).read path
  write path content := do
    match (← get).write? path content with
    | some tree =>
        set tree
        return true
    | none => return false

end Contents

end FileTree

end Typings
