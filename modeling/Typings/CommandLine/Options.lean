import Typings.Configuration

/-!
# Options of the command line

Every option takes a value and is given at most once.  A long option has its value after
an equals sign or in the next argument.  The short option has it in the same argument,
with or without an equals sign, or in the next one.

**Refusals.**  An option without a value, a second value for one option, an empty path
and every argument that is no option are refused.  What comes first decides: a refusal,
or the wish to see the version or the help.
-/

namespace Typings
namespace CommandLine

/-- An option that takes a value. -/
inductive OptionName where
  | config
  | pre
  | generated
  | target
  | generator
  | docIndex
  deriving DecidableEq, Repr, Inhabited

namespace OptionName

def all : List OptionName :=
  [.config, .pre, .generated, .target, .generator, .docIndex]

def long : OptionName → Text
  | .config => "config".toList
  | .pre => "pre".toList
  | .generated => "generated".toList
  | .target => "target".toList
  | .generator => "generator".toList
  | .docIndex => "doc-index".toList

def ofLong? (name : Text) : Option OptionName :=
  all.find? fun option => option.long == name

/-- Whether the value of an option is a path, which cannot be empty. -/
def isPath : OptionName → Bool
  | .target | .generator => false
  | _ => true

end OptionName

/-- The values of the options that are given. -/
abbrev Options := List (OptionName × Text)

/-- What a command line asks for. -/
inductive Request where
  /-- A merge. -/
  | run (options : Options)
  | version
  | help
  /-- Nothing that makes sense. -/
  | refused
  deriving DecidableEq, Repr, Inhabited

section Arguments

/-- The options with one more, unless its value is refused or it has one already. -/
def addOption (options : Options) (option : OptionName) (value : Text) : Option Options :=
  if (option.isPath && value.isEmpty) || (options.lookup option).isSome then
    none
  else
    some (options ++ [(option, value)])

/-- How one argument is understood. -/
inductive Argument where
  /-- An option and its value. -/
  | valued (option : OptionName) (value : Text)
  /-- An option whose value is the next argument. -/
  | awaiting (option : OptionName)
  | version
  | help
  /-- Two hyphens: every further argument is no option. -/
  | last
  /-- No option. -/
  | plain
  /-- An option that there is not. -/
  | unknown
  deriving DecidableEq, Repr, Inhabited

/-- An argument that starts with two hyphens, given without them: its name, and its value
if there is an equals sign. -/
def readLong (body : Text) : Argument :=
  let name := body.takeWhile (· != '=')
  let value := body.drop (name.length + 1)
  let hasValue := name.length < body.length
  match OptionName.ofLong? name with
  | some option => if hasValue then .valued option value else .awaiting option
  | none =>
      if name == "version".toList then if hasValue then .unknown else .version
      else if name == "help".toList then if hasValue then .unknown else .help
      else .unknown

/-- An argument that starts with one hyphen, given without it. -/
def readShort : Text → Argument
  | 'c' :: '=' :: value => .valued .config value
  | ['c'] => .awaiting .config
  | 'c' :: value => .valued .config value
  | 'V' :: _ => .version
  | 'h' :: _ => .help
  | _ => .unknown

def readArgument : Text → Argument
  | ['-', '-'] => .last
  | '-' :: '-' :: body => readLong body
  | ['-'] => .plain
  | '-' :: body => readShort body
  | _ => .plain

/-- What the arguments ask for after some options; `awaiting` is the option whose value
comes next. -/
def readArguments (options : Options) (awaiting : Option OptionName) : List Text → Request
  | [] => if awaiting.isSome then .refused else .run options
  | argument :: rest =>
      match awaiting, readArgument argument with
      | some option, .plain =>
          match addOption options option argument with
          | some options => readArguments options none rest
          | none => .refused
      | some _, _ => .refused
      | none, .valued option value =>
          match addOption options option value with
          | some options => readArguments options none rest
          | none => .refused
      | none, .awaiting option => readArguments options (some option) rest
      | none, .version => .version
      | none, .help => .help
      | none, .last => if rest.isEmpty then .run options else .refused
      | none, .plain => .refused
      | none, .unknown => .refused

def request (arguments : List Text) : Request :=
  readArguments [] none arguments

end Arguments

end CommandLine
end Typings
