import Typings.Number.Literal

/-!
# Configuration values

The values of a TOML document, and how its lines build them up.

**Tables.**  A table remembers how it came to be.  A table that was only implied, by a
longer header or by a dotted key, can still be extended; one with a header of its own, or
one written in braces, is complete.

**Order.**  The entries of a table stand in the order in which they were first written.
-/

namespace Typings
namespace Toml

/-- How a table came to be. -/
inductive TableKind where
  /-- By a header of its own. -/
  | headed
  /-- By a longer header. -/
  | implied
  /-- By a dotted key. -/
  | dotted
  /-- In braces. -/
  | braced
  deriving DecidableEq, Repr, Inhabited

namespace TableKind

def isImplied : TableKind → Bool
  | .implied | .dotted => true
  | _ => false

end TableKind

/-- A value of a document. -/
inductive Value where
  | string (text : Text)
  | integer (value : Int)
  /-- A floating point number: its sign and size, or no number. -/
  | float (negative : Bool) (size : Option Number.Double)
  | boolean (value : Bool)
  /-- A date, a time, or both. -/
  | moment
  | list (items : List Value)
  | table (kind : TableKind) (entries : List (Text × Value))
  /-- The tables under repeated headers in double brackets. -/
  | tables (all : List (List (Text × Value)))
  deriving Inhabited

/-- The entries of a table. -/
abbrev Entries := List (Text × Value)

section Building

/-- The entries with another value for a key; a new key comes last. -/
def setEntry (key : Text) (value : Value) : Entries → Entries
  | [] => [(key, value)]
  | (other, old) :: rest =>
      if other = key then
        (key, value) :: rest
      else
        (other, old) :: setEntry key value rest

/-- The entries of a table of one kind, changed at the end of a path of keys.  Tables on
the way that are missing are made, of the kind `making`.  A dotted key does not lead into
a table that has a header of its own. -/
def editAt (making : TableKind) (f : TableKind → Entries → Option Entries) :
    List Text → TableKind → Entries → Option Entries
  | [], kind, entries => f kind entries
  | key :: rest, _, entries =>
      match entries.lookup key with
      | none =>
          (editAt making f rest making []).map fun inner =>
            setEntry key (.table making inner) entries
      | some (.table kind inner) =>
          if kind == .braced || (making == .dotted && !kind.isImplied) then
            none
          else
            (editAt making f rest kind inner).map fun changed =>
              setEntry key (.table kind changed) entries
      | some (.tables all) =>
          (editAt making f rest .headed (all.getLast?.getD [])).map fun changed =>
            setEntry key (.tables (all.dropLast ++ [changed])) entries
      | some _ => none

/-- The entries with one more, unless its key is there already. -/
def addEntry (key : Text) (value : Value) (entries : Entries) : Option Entries :=
  if (entries.lookup key).isSome then none else some (entries ++ [(key, value)])

/-- The entries with a value under a dotted key, given as the keys on the way and the
last one.  A key with dots is not put into a table that came to be otherwise. -/
def addDotted (way : List Text) (key : Text) (value : Value) (entries : Entries) :
    Option Entries :=
  editAt .dotted
    (fun kind inner =>
      if (kind == .dotted) == way.isEmpty then none else addEntry key value inner)
    way .headed entries

end Building

/-- A document while it is read. -/
structure Draft where
  /-- The entries outside the table that is being read. -/
  root : Entries
  /-- The entries of the table that is being read. -/
  current : Entries
  /-- The keys of the header of that table; none before the first header. -/
  header : List Text
  /-- Whether the header stands in double brackets. -/
  repeated : Bool
  deriving Inhabited

namespace Draft

section Steps

def empty : Draft :=
  ⟨[], [], [], false⟩

/-- The keys of a header before the last one, and the last one. -/
def splitHeader (header : List Text) : Option (List Text × Text) :=
  header.getLast?.map fun last => (header.dropLast, last)

/-- All entries, with the table that was being read in its place. -/
def close (draft : Draft) : Option Entries :=
  match splitHeader draft.header with
  | none => some draft.current
  | some (way, last) =>
      editAt .implied
        (fun _ entries =>
          if draft.repeated then
            match entries.lookup last with
            | none => some (entries ++ [(last, .tables [draft.current])])
            | some (.tables all) =>
                some (setEntry last (.tables (all ++ [draft.current])) entries)
            | some _ => none
          else
            match entries.lookup last with
            | none => some (entries ++ [(last, .table .headed draft.current)])
            | some _ => none)
        way .headed draft.root

/-- What a table starts with when its header is read: what was implied of it so far,
which leaves its place among the entries. -/
def takeImplied (last : Text) (entries : Entries) : Option (Entries × Entries) :=
  match entries.lookup last with
  | none => some ([], entries)
  | some (.table .implied inner) => some (inner, entries.filter fun entry => entry.1 != last)
  | some _ => none

/-- The entries of the table at the end of a path of keys, if every key leads to one. -/
def entriesAt : List Text → Entries → Entries
  | [], entries => entries
  | key :: rest, entries =>
      match entries.lookup key with
      | some (.table _ inner) => entriesAt rest inner
      | some (.tables all) => entriesAt rest (all.getLast?.getD [])
      | _ => []

def startTable (draft : Draft) (header : List Text) : Option Draft := do
  let root ← draft.close
  let (way, last) ← splitHeader header
  let (current, _) ← takeImplied last (entriesAt way root)
  let root ← editAt .implied (fun _ entries => (takeImplied last entries).map Prod.snd)
    way .headed root
  return ⟨root, current, header, false⟩

def startRepeated (draft : Draft) (header : List Text) : Option Draft := do
  let root ← draft.close
  let (way, last) ← splitHeader header
  let root ← editAt .implied
    (fun _ entries =>
      match entries.lookup last with
      | none => some (entries ++ [(last, .tables [])])
      | some (.tables _) => some entries
      | some _ => none)
    way .headed root
  return ⟨root, [], header, true⟩

def add (draft : Draft) (way : List Text) (key : Text) (value : Value) : Option Draft :=
  (addDotted way key value draft.current).map fun entries => { draft with current := entries }

end Steps

end Draft

end Toml
end Typings
