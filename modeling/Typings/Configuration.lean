import Typings.Failure
import Typings.Toml.Document

/-!
# Configuration

A merge is told where its two documents are, which interface takes the helpers, and what
name the banner gives.  Every setting has a default, and a configuration file replaces
the ones it mentions.

**Decoding.**  The entries of a file are looked at in their order, and the first one that
is no setting, or that is no string, is the fault.
-/

namespace Typings

/-- The settings of a merge. -/
structure Configuration where
  /-- The path of the document with the helpers and their documentation. -/
  handAuthored : Text
  /-- The path of the document that takes the helpers. -/
  generated : Text
  /-- The interface that takes a member for each helper. -/
  target : Text
  /-- The name in the banner. -/
  generator : Text
  deriving DecidableEq, Repr

namespace Configuration

section Defaults

/-- The settings of a merge that is told nothing. -/
def standard : Configuration where
  handAuthored := "./src/pre.d.ts".toList
  generated := "./install/opentimelineio.d.ts_bck".toList
  target := "CustomEmbindModule".toList
  generator := "dts-merge".toList

instance : Inhabited Configuration :=
  ⟨standard⟩

def override (config : Configuration)
    (handAuthored generated target generator : Option Text) : Configuration where
  handAuthored := handAuthored.getD config.handAuthored
  generated := generated.getD config.generated
  target := target.getD config.target
  generator := generator.getD config.generator

end Defaults

section Checking

/-- Whether settings can drive a merge: the target has a name, and the generator fits on
one line. -/
def check (config : Configuration) : Except Failure Unit :=
  if (Text.trim config.target).isEmpty then
    .error (.unusable "Merge target name must not be empty".toList)
  else if config.generator.contains '\n' then
    .error (.unusable "Generator name must fit on one line".toList)
  else
    .ok ()

end Checking

section Decoding

/-- One of the settings. -/
inductive Setting where
  | handAuthored
  | generated
  | target
  | generator
  deriving DecidableEq, Repr

namespace Setting

/-- All settings, in the order in which messages list them. -/
def all : List Setting :=
  [.handAuthored, .generated, .target, .generator]

def key : Setting → Text
  | .handAuthored => "hand_authored".toList
  | .generated => "generated".toList
  | .target => "target".toList
  | .generator => "generator".toList

def ofKey? (key : Text) : Option Setting :=
  all.find? fun setting => setting.key == key

/-- What kind of value a setting takes, in the words of a message. -/
def expected : Setting → Text
  | .handAuthored | .generated => "path string".toList
  | .target | .generator => "a string".toList

end Setting

def set (config : Configuration) (setting : Setting) (value : Text) : Configuration :=
  match setting with
  | .handAuthored => { config with handAuthored := value }
  | .generated => { config with generated := value }
  | .target => { config with target := value }
  | .generator => { config with generator := value }

/-- The text of a floating point number in a message: always with a point, unless it is
infinite or no number. -/
def floatText (negative : Bool) : Option Number.Double → Text
  | none => "NaN".toList
  | some size =>
      let digits := size.text
      (if negative then ['-'] else []) ++ digits ++
        if size == .infinite || digits.contains '.' then [] else ['.', '0']

/-- A value in the words of a message. -/
def describe : Toml.Value → Text
  | .string text => "string ".toList ++ text
  | .integer value => "integer `".toList ++ (toString value).toList ++ ['\x60']
  | .float negative size =>
      "floating point `".toList ++ floatText negative size ++ ['\x60']
  | .boolean value =>
      "boolean `".toList ++ (if value then "true" else "false").toList ++ ['\x60']
  | .list _ | .tables _ => "sequence".toList
  | .moment | .table _ _ => "map".toList

/-- The settings with one entry of a file taken over. -/
def takeEntry (config : Configuration) (entry : Text × Toml.Value) :
    Except DecodeFault Configuration :=
  match Setting.ofKey? entry.1 with
  | none => .error (.unknownField entry.1)
  | some setting =>
      match entry.2 with
      | .string value => .ok (config.set setting value)
      | other => .error (.invalidType (describe other) setting.expected)

def decode (t : Text) : Except DecodeFault Configuration :=
  match Toml.entries? t with
  | none => .error .malformed
  | some entries => entries.foldlM takeEntry standard

/-- The words for a decoding fault; a malformed text has no fixed words. -/
def faultMessage? : DecodeFault → Option Text :=
  Failure.decodeMessage? (Setting.all.map Setting.key)

end Decoding

end Configuration

end Typings
