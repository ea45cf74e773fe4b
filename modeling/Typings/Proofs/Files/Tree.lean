import Typings.Files.Tree
import Mathlib.Data.List.Basic

/-!
# Writing a file

A file that is written is found again, under its path and under every other path that leads
there, and nothing else is changed.

**Paths.**  A path is followed through directories alone.  A file is written where no directory
is, so every directory that a path led through is still there afterwards.
-/

namespace Typings
namespace FileTree

variable {tree after : FileTree} {names other : List Text} {path content : Text}

/-- The tree with a file of the given text. -/
def withText (tree : FileTree) (names : List Text) (content : Text) : FileTree :=
  ⟨setText names content tree.entries⟩

section Entries

variable {entries : List (List Text × FileEntry)}

theorem lookup_setText_self :
    (setText names content entries).lookup names = some (.text content) := by
  induction entries with
  | nil => simp [setText]
  | cons entry rest ih =>
      obtain ⟨known, entry⟩ := entry
      by_cases h : known = names
      · simp [setText, h]
      · have hne : (names == known) = false := by simpa using Ne.symm h
        simp [setText, h, List.lookup_cons, hne, ih]

theorem lookup_setText_of_ne (h : other ≠ names) :
    (setText names content entries).lookup other = entries.lookup other := by
  have hne : (other == names) = false := by simpa using h
  induction entries with
  | nil => simp [setText, List.lookup_cons, hne]
  | cons entry rest ih =>
      obtain ⟨known, entry⟩ := entry
      by_cases hknown : known = names
      · subst hknown
        simp [setText, List.lookup_cons, hne]
      · simp only [setText, hknown, if_false, List.lookup_cons, ih]

/-- The paths that are listed afterwards are the ones before and the one written to. -/
theorem any_setText (names : List Text) (content : Text) (entries : List (List Text × FileEntry))
    (below : List Text → Bool) :
    (setText names content entries).any (fun entry => below entry.1) =
      (entries.any (fun entry => below entry.1) || below names) := by
  induction entries with
  | nil => simp [setText]
  | cons entry rest ih =>
      obtain ⟨known, entry⟩ := entry
      by_cases hknown : known = names
      · subst hknown
        simp only [setText, if_true, List.any_cons]
        cases below known <;> simp
      · simp only [setText, hknown, if_false, List.any_cons, ih, Bool.or_assoc]

end Entries

section Places

/-- Everything that names lead through is a directory. -/
def Rooted (tree : FileTree) (names : List Text) : Prop :=
  ∀ other, other <+: names → other ≠ names → tree.entryAt? other = some .directory

theorem rooted_nil (tree : FileTree) : tree.Rooted [] := by
  intro other hbelow hne
  exact absurd (List.prefix_nil.mp hbelow) hne

theorem Rooted.of_prefix (h : tree.Rooted names) (hother : other <+: names) :
    tree.Rooted other := by
  intro shorter hshorter hne
  refine h shorter (hshorter.trans hother) ?_
  rintro rfl
  exact hne (hshorter.eq_of_length_le hother.length_le)

theorem Rooted.append_singleton (h : tree.Rooted names)
    (hnames : tree.entryAt? names = some .directory) (name : Text) :
    tree.Rooted (names ++ [name]) := by
  intro other hother hne
  rcases List.prefix_concat_iff.mp hother with heq | hbelow
  · exact absurd heq hne
  · by_cases heq : other = names
    · rw [heq, hnames]
    · exact h other hbelow heq

/-- A step leads from a directory to a place that is reached through directories. -/
theorem rooted_of_step {name : Text} (h : tree.Rooted names)
    (hnames : tree.entryAt? names = some .directory)
    (hstep : step name (.inside names) = .ok (.inside other)) : tree.Rooted other := by
  simp only [step] at hstep
  split at hstep
  · cases hstep
    exact h
  · split at hstep
    · split at hstep
      · cases hstep
      · cases hstep
        exact h.of_prefix (List.dropLast_prefix names)
    · cases hstep
      exact h.append_singleton hnames name

theorem step_outside {name : Text} {spot : Spot} (h : step name .outside = .ok spot) :
    spot = .outside := by
  simp only [step] at h
  split at h <;> cases h
  rfl

/-- What names lead to from a place is reached through directories if the place is. -/
theorem rooted_of_follow {spot : Spot} {rest : List Text}
    (hspot : ∀ start, spot = .inside start → tree.Rooted start)
    (h : tree.follow spot rest = .ok (.inside names)) : tree.Rooted names := by
  induction rest generalizing spot with
  | nil =>
      cases h
      exact hspot names rfl
  | cons name rest ih =>
      simp only [follow] at h
      split at h
      · cases h
      · rename_i hdirectory
        cases hstep : step name spot with
        | error fault => simp [hstep, Except.bind] at h
        | ok next =>
            rw [hstep] at h
            refine ih ?_ h
            rintro start rfl
            cases spot with
            | outside => cases step_outside hstep
            | inside before =>
                have hbefore : tree.entryAt? before = some .directory := by
                  simp only [entryOf] at hdirectory
                  split at hdirectory <;> simp_all
                exact rooted_of_step (hspot before rfl) hbefore hstep
      · cases h

theorem rooted_of_locate (h : tree.locate path = .ok (.inside names)) : tree.Rooted names := by
  simp only [locate] at h
  split at h
  · cases h
  · refine rooted_of_follow ?_ h
    intro start hstart
    split at hstart
    · cases hstart
    · cases hstart
      exact rooted_nil tree

end Places

section Writing

theorem entryAt?_withText_self :
    (tree.withText names content).entryAt? names = some (.text content) := by
  simp [entryAt?, withText, lookup_setText_self]

/-- Nothing changes but the file that is written: what leads there was a directory before. -/
theorem entryAt?_withText_of_ne (hrooted : tree.Rooted names) (h : other ≠ names) :
    (tree.withText names content).entryAt? other = tree.entryAt? other := by
  cases hlookup : tree.entries.lookup other with
  | some entry => simp [entryAt?, withText, lookup_setText_of_ne h, hlookup]
  | none =>
      have hany := any_setText names content tree.entries fun known => other.isPrefixOf known
      cases hbelow : other.isPrefixOf names with
      | false =>
          rw [hbelow, Bool.or_false] at hany
          simp only [entryAt?, withText, lookup_setText_of_ne h, hlookup, hany]
      | true =>
          rw [hrooted other (List.isPrefixOf_iff_prefix.mp hbelow) h]
          rw [hbelow, Bool.or_true] at hany
          simp only [entryAt?, withText, lookup_setText_of_ne h, hlookup, hany, Bool.or_true,
            if_true]

/-- A directory is still one after a file is written. -/
theorem entryOf_withText_of_directory (hrooted : tree.Rooted names)
    (hfile : tree.entryAt? names ≠ some .directory) {spot : Spot}
    (h : tree.entryOf spot = .ok .directory) :
    (tree.withText names content).entryOf spot = .ok .directory := by
  cases spot with
  | outside => rfl
  | inside start =>
      have hstart : tree.entryAt? start = some .directory := by
        simp only [entryOf] at h
        split at h <;> simp_all
      have hne : start ≠ names := by
        rintro rfl
        exact hfile hstart
      simp only [entryOf, entryAt?_withText_of_ne hrooted hne, hstart]

/-- What a path leads to is where it was. -/
theorem follow_withText (hrooted : tree.Rooted names)
    (hfile : tree.entryAt? names ≠ some .directory) {spot last : Spot} {rest : List Text}
    (h : tree.follow spot rest = .ok last) :
    (tree.withText names content).follow spot rest = .ok last := by
  induction rest generalizing spot with
  | nil => exact h
  | cons name rest ih =>
      simp only [follow] at h ⊢
      split at h
      · cases h
      · rename_i hdirectory
        rw [entryOf_withText_of_directory hrooted hfile hdirectory]
        cases hstep : step name spot with
        | error fault => simp [hstep, Except.bind] at h
        | ok next =>
            rw [hstep] at h
            exact ih h
      · cases h

theorem locate_withText (hrooted : tree.Rooted names)
    (hfile : tree.entryAt? names ≠ some .directory) {spot : Spot}
    (h : tree.locate path = .ok spot) :
    (tree.withText names content).locate path = .ok spot := by
  simp only [locate] at h ⊢
  split at h
  · cases h
  · rw [if_neg ‹_›]
    exact follow_withText hrooted hfile h

theorem write?_eq_some_iff :
    tree.write? path content = some after ↔
      ∃ names, tree.locate path = .ok (.inside names) ∧
        tree.entryAt? names ≠ some .directory ∧ after = tree.withText names content := by
  unfold write? withText
  split
  · rename_i names hlocate
    by_cases hdirectory : tree.entryAt? names = some .directory
    · simp [hdirectory, hlocate]
    · simp only [beq_iff_eq, hdirectory, if_false, Option.some.injEq, hlocate, Except.ok.injEq,
        Spot.inside.injEq]
      constructor
      · rintro rfl
        exact ⟨names, rfl, hdirectory, rfl⟩
      · rintro ⟨_, rfl, -, rfl⟩
        rfl
  · rename_i hlocate
    constructor
    · intro h
      cases h
    · rintro ⟨names, heq, -⟩
      exact absurd heq (hlocate names)

/-- A file was written: it is read from every path that leads there, and every other file and
directory is as it was. -/
structure Wrote (tree : FileTree) (path content : Text) (after : FileTree) : Prop where
  read : ∀ other, tree.locate other = tree.locate path → after.read other = .ok content
  others : ∀ names, tree.locate path ≠ .ok (.inside names) →
    after.entryAt? names = tree.entryAt? names

theorem wrote_of_write? (h : tree.write? path content = some after) :
    tree.Wrote path content after := by
  obtain ⟨names, hlocate, hfile, rfl⟩ := write?_eq_some_iff.mp h
  have hrooted := rooted_of_locate hlocate
  refine ⟨?_, ?_⟩
  · intro other hother
    have hspot : (tree.withText names content).locate other = .ok (.inside names) :=
      locate_withText hrooted hfile (hother.trans hlocate)
    rw [FileTree.read, hspot]
    simp only [Except.bind, entryOf, entryAt?_withText_self, FileEntry.read]
  · intro other hother
    refine entryAt?_withText_of_ne hrooted fun heq => hother ?_
    rw [hlocate, heq]

end Writing

end FileTree
end Typings
