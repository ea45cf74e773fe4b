import Typings.CommandLine.Run

/-!
# The command line

Reads arguments and files, prints what the run gives, and exits with its code.
-/

namespace Typings
namespace CommandLine

/-- Why a file could not be read, by the error of the system. -/
def faultOf (error : IO.Error) : ReadFault :=
  match error with
  | .noFileOrDirectory _ _ _ => .missing
  | .inappropriateType _ code _ => if code == 21 then .isDirectory else .notDirectory
  | other => .other (toString other).toList

def disk : FileAccess IO where
  read path := do
    try
      let bytes ← IO.FS.readBinFile (String.ofList path)
      return (FileEntry.ofBytes bytes).read
    catch error =>
      return .error (faultOf error)
  write path content := do
    try
      IO.FS.writeFile (String.ofList path) (String.ofList content)
      return true
    catch _ =>
      return false

/-- The words of a breakdown, with the failure behind it. -/
def report (reason : Breakdown) : Text :=
  "Error: ".toList ++ reason.message ++
    match reason.cause? with
    | some failure => "\n\nCaused by:\n    ".toList ++ failure.message
    | none => []

end CommandLine
end Typings

def main (arguments : List String) : IO UInt32 := do
  let ending ← Typings.CommandLine.run Typings.CommandLine.disk (arguments.map String.toList)
  match ending with
  | .output text => (← IO.getStdout).putStr (String.ofList text)
  | .broken reason => IO.eprintln (String.ofList (Typings.CommandLine.report reason))
  | .refused => IO.eprintln "Usage: dts-merge [OPTIONS]"
  return UInt32.ofNat ending.code
