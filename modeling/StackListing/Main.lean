import StackListing.Session

/-!
# The command

The command line: it reads and writes real files and prints, as `Session.plan` says.
-/

namespace StackListing

/-- The fault that an error of the file system stands for. -/
def FileFault.ofError : IO.Error → FileFault
  | .noFileOrDirectory .. => .missing
  | .inappropriateType _ code _ => if code = 21 then .isADirectory else .notADirectory
  | .invalidArgument _ 36 _ => .nameTooLong
  | e => .other e.toString

/-- The text of a real file. -/
def readText (path : String) : IO (Except FileFault String) := do
  try
    let bytes ← IO.FS.readBinFile path
    return match String.fromUTF8? bytes with
      | some s => .ok s
      | none => .error .notText
  catch e => return .error (.ofError e)

/-- Writes a text to a real file. -/
def writeText (path text : String) : IO (Except FileFault Unit) := do
  try
    IO.FS.writeBinFile path text.toUTF8
    return .ok ()
  catch e => return .error (.ofError e)

/-- Prints an outcome and gives its exit code. -/
def finish (outcome : Outcome) : IO UInt32 := do
  (← IO.getStdout).putStr outcome.stdout
  (← IO.getStderr).putStr outcome.stderr
  return outcome.exitCode.toUInt32

/-- Runs the command on real files. -/
def runCommand (a : Arguments) : IO Outcome := do
  match ← readText a.source with
  | .error f => return Session.unreadable a f
  | .ok source =>
    match Session.plan a source with
    | .finish outcome => return outcome
    | .write path text =>
      match ← writeText path text with
      | .error f => return Session.unwritable path f
      | .ok () => return Session.written path

end StackListing

open StackListing in
def main (arguments : List String) : IO UInt32 := do
  match Request.ofArguments arguments with
  | .run a => finish (← runCommand a)
  | request => finish (Session.run .empty request).1
