import Typings.Text.Basic

/-!
# Failures

Everything that can stop a merge, one constructor for each cause.  What merely limits
a merge, such as a missing target, is part of its outcome and no failure.
-/

namespace Typings

/-- Why a file cannot be read as text. -/
inductive ReadFault where
  /-- There is no such file. -/
  | missing
  /-- There is a directory of this name. -/
  | isDirectory
  /-- A file stands where the path needs a directory. -/
  | notDirectory
  /-- The bytes of the file are not UTF-8. -/
  | notText
  /-- Any other reason, in the words of the system. -/
  | other (reason : Text)
  deriving DecidableEq, Repr, Inhabited

namespace ReadFault

def message : ReadFault → Text
  | .missing => "No such file or directory (os error 2)".toList
  | .isDirectory => "Is a directory (os error 21)".toList
  | .notDirectory => "Not a directory (os error 20)".toList
  | .notText => "stream did not contain valid UTF-8".toList
  | .other reason => reason

end ReadFault

/-- Why a configuration text cannot be decoded. -/
inductive DecodeFault where
  /-- The text is not well formed. -/
  | malformed
  /-- A key that means nothing. -/
  | unknownField (key : Text)
  /-- A value of the wrong kind: what was found and what was expected. -/
  | invalidType (found expected : Text)
  deriving DecidableEq, Repr, Inhabited

/-- What stops a merge. -/
inductive Failure where
  /-- A file could not be read. -/
  | unreadable (path : Text) (fault : ReadFault)
  /-- A document is not well formed. -/
  | rejected (document detail : Text)
  /-- A configuration file could not be decoded. -/
  | undecodable (path : Text) (fault : DecodeFault)
  /-- A configuration cannot drive a merge. -/
  | unusable (reason : Text)
  deriving DecidableEq, Repr, Inhabited

namespace Failure

/-- The words for a decoding fault; a malformed text has no fixed words. -/
def decodeMessage? (fieldNames : List Text) : DecodeFault → Option Text
  | .malformed => none
  | .unknownField key =>
      some ("unknown field `".toList ++ key ++ "`, expected one of ".toList ++
        Text.joinWith ", ".toList (fieldNames.map fun name => '\x60' :: name ++ ['\x60']))
  | .invalidType found expected =>
      some ("invalid type: ".toList ++ found ++ ", expected ".toList ++ expected)

def rejectionHead (document : Text) : Text :=
  "Parse error in ".toList ++ document

def message : Failure → Text
  | .unreadable path fault =>
      "Failed to read ".toList ++ path ++ ": ".toList ++ fault.message
  | .rejected document detail =>
      rejectionHead document ++ ": ".toList ++ detail
  | .undecodable path _ =>
      "Invalid configuration file ".toList ++ path
  | .unusable reason =>
      "Configuration error: ".toList ++ reason

/-- Whether the failure is that of a document which is not well formed. -/
def isRejection : Failure → Bool
  | .rejected _ _ => true
  | _ => false

end Failure

end Typings
