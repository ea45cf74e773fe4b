import Typings.CommandLine.Run

/-!
# Where settings come from

A setting has the value that an option gives it, else the one that the configuration file gives
it, else its default.  The settings of a run are the only ones of which this is so.

**The file.**  The last entry of a file for a setting gives its value.
-/

namespace Typings

namespace Configuration

/-- The value of a setting. -/
def get (config : Configuration) : Setting → Text
  | .handAuthored => config.handAuthored
  | .generated => config.generated
  | .target => config.target
  | .generator => config.generator

/-- Settings are known by their values. -/
theorem ext_get {config other : Configuration}
    (h : ∀ setting, config.get setting = other.get setting) : config = other := by
  cases config
  cases other
  congr 1
  · exact h .handAuthored
  · exact h .generated
  · exact h .target
  · exact h .generator

theorem get_set (config : Configuration) (changed setting : Setting) (value : Text) :
    (config.set changed value).get setting =
      if changed = setting then value else config.get setting := by
  cases changed <;> cases setting <;> rfl

theorem Setting.ofKey?_eq_some_iff {key : Text} {setting : Setting} :
    Setting.ofKey? key = some setting ↔ key = setting.key := by
  constructor
  · intro h
    rw [ofKey?, List.find?_eq_some_iff_append] at h
    exact (beq_iff_eq.mp h.1).symm
  · rintro rfl
    cases setting <;> decide

theorem Setting.key_injective {setting other : Setting} (h : setting.key = other.key) :
    setting = other := by
  have hsetting := Setting.ofKey?_eq_some_iff.mpr (rfl : setting.key = setting.key)
  rw [h, Setting.ofKey?_eq_some_iff.mpr rfl] at hsetting
  exact (Option.some.inj hsetting).symm

section Files

/-- The value that an entry of a file gives a setting. -/
def valueOf? (setting : Setting) : Text × Toml.Value → Option Text
  | (key, .string value) => if key = setting.key then some value else none
  | _ => none

/-- The value that a configuration text gives a setting: its last one. -/
def fileValue? (t : Text) (setting : Setting) : Option Text :=
  (Toml.entries? t).bind fun entries => entries.reverse.findSome? (valueOf? setting)

theorem get_takeEntry {config after : Configuration} {entry : Text × Toml.Value}
    (h : config.takeEntry entry = .ok after) (setting : Setting) :
    after.get setting = (valueOf? setting entry).getD (config.get setting) := by
  obtain ⟨key, value⟩ := entry
  simp only [takeEntry] at h
  split at h
  · cases h
  · rename_i changed hkey
    obtain rfl := Setting.ofKey?_eq_some_iff.mp hkey
    split at h
    · rename_i text
      obtain rfl := Except.ok.inj h
      rw [get_set, valueOf?]
      by_cases hsame : changed = setting
      · simp [hsame]
      · have hne : changed.key ≠ setting.key := fun heq => hsame (Setting.key_injective heq)
        simp [hsame, hne]
    · cases h

theorem get_foldlM_takeEntry {entries : List (Text × Toml.Value)} {config after : Configuration}
    (h : entries.foldlM takeEntry config = .ok after) (setting : Setting) :
    after.get setting =
      (entries.reverse.findSome? (valueOf? setting)).getD (config.get setting) := by
  induction entries generalizing config with
  | nil =>
      obtain rfl := Except.ok.inj h
      rfl
  | cons entry rest ih =>
      rw [List.foldlM_cons] at h
      cases hentry : config.takeEntry entry with
      | error fault =>
          rw [hentry] at h
          cases h
      | ok next =>
          rw [hentry] at h
          rw [ih h, get_takeEntry hentry, List.reverse_cons, List.findSome?_append]
          cases rest.reverse.findSome? (valueOf? setting) with
          | none => simp
          | some value => rfl

/-- A configuration file replaces the defaults that it mentions. -/
theorem get_decode {t : Text} {file : Configuration} (h : decode t = .ok file)
    (setting : Setting) :
    file.get setting = (fileValue? t setting).getD (standard.get setting) := by
  rw [decode] at h
  cases hentries : Toml.entries? t with
  | none =>
      rw [hentries] at h
      cases h
  | some entries =>
      rw [hentries] at h
      rw [fileValue?, hentries]
      exact get_foldlM_takeEntry h setting

end Files

end Configuration

namespace CommandLine

variable {options : Options} {config other : Configuration}
  {stored? : Configuration.Setting → Option Text}

/-- The option that gives a setting. -/
def optionOf : Configuration.Setting → OptionName
  | .handAuthored => .pre
  | .generated => .generated
  | .target => .target
  | .generator => .generator

/-- Every setting has the value of its option, else the one that is stored, else its default. -/
def GivenBy (options : Options) (stored? : Configuration.Setting → Option Text)
    (config : Configuration) : Prop :=
  ∀ setting, config.get setting =
    ((options.lookup (optionOf setting)).or (stored? setting)).getD
      (Configuration.standard.get setting)

theorem GivenBy.eq (h : GivenBy options stored? config) (h' : GivenBy options stored? other) :
    config = other :=
  Configuration.ext_get fun setting => (h setting).trans (h' setting).symm

theorem get_overridden (options : Options) (config : Configuration)
    (setting : Configuration.Setting) :
    (overridden options config).get setting =
      (options.lookup (optionOf setting)).getD (config.get setting) := by
  cases setting <;> rfl

/-- Without a configuration file a setting has the value of its option, else its default. -/
theorem givenBy_standard (options : Options) :
    GivenBy options (fun _ => none) (overridden options .standard) := by
  intro setting
  rw [get_overridden, Option.or_none]

theorem givenBy_decode {t : Text} {file : Configuration} (h : Configuration.decode t = .ok file)
    (options : Options) :
    GivenBy options (Configuration.fileValue? t) (overridden options file) := by
  intro setting
  rw [get_overridden, Configuration.get_decode h]
  cases options.lookup (optionOf setting) <;> rfl

end CommandLine

end Typings
