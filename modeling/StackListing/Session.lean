import StackListing.Arguments
import StackListing.Compilation
import StackListing.Excerpt
import StackListing.FileTree

/-!
# Sessions

A session is one run of the command: it reads the source, compiles it as far as it is asked to, and
prints the result or writes the listing.  What it does with the text of the source is decided by
`plan`, which touches no file; `run` carries the plan out in a file tree.

The standard output and the standard error are taken to accept whatever is written to them, so a run
never fails because of them.
-/

namespace StackListing

/-- What a run of the command leaves behind besides files. -/
structure Outcome where
  exitCode : Nat
  stdout : String
  stderr : String
deriving DecidableEq

namespace Outcome

/-- A run that succeeds with a text on the standard output. -/
def success (stdout : String) : Outcome := ⟨0, stdout, ""⟩

/-- A run that fails with a text on the standard error. -/
def failure (stderr : String) : Outcome := ⟨1, "", stderr⟩

/-- A run that a file stopped. -/
def fileFault (action path : String) (f : FileFault) : Outcome :=
  failure ("Error: Failed to " ++ action ++ " file: " ++ path ++ "\n\nCaused by:\n    " ++
    f.message ++ "\n")

end Outcome

namespace Session

/-- The name and version of the command. -/
def versionText : String := "h45c 0.1.0\n"

/-- How the command is used. -/
def usageText : String :=
  "Compiler for the H-45 language\n\nUSAGE:\n    h45c [OPTIONS] <SOURCE>\n\nARGS:\n" ++
  "    <SOURCE>    Source file to compile\n\nOPTIONS:\n" ++
  "        --ast              Print the parsed program and stop\n" ++
  "    -h, --help             Print help information\n" ++
  "    -o, --output <FILE>    Write the listing to FILE instead of SOURCE with an .asm " ++
  "extension\n" ++
  "        --stdout           Print the listing instead of writing it\n" ++
  "        --tokens           Print the token stream and stop\n" ++
  "    -v                     Log more detail than phase progress, may be repeated\n" ++
  "    -V, --version          Print version information\n"

/-- What is said when the arguments make no sense. -/
def misuseText : String := "error: wrong arguments\n\n" ++ usageText

/-- The complaints of a failed phase, each with its line, and their number. -/
def report (f : Failure) (source file : String) : String :=
  String.join (f.errors.map fun d => d.text ++ "\n" ++ d.excerpt source file ++ "\n") ++
    "Compilation failed with " ++ toString f.errors.length ++ " error(s)\n"

/-- What is left to do once the source is read. -/
inductive Plan where
  | finish (outcome : Outcome)
  | write (path text : String)
deriving DecidableEq

/-- The path that the listing goes to. -/
def destination (a : Arguments) : String := a.output.getD (Path.forListing a.source)

/-- The plan for a successful phase, or the end for a failed one. -/
def orReport {α : Type} (a : Arguments) (source : String) (result : Except Failure α)
    (next : α → Plan) : Plan :=
  match result with
  | .ok x => next x
  | .error f => .finish (.failure (report f source a.source))

/-- **What the command does with the text of the source.** -/
def plan (a : Arguments) (source : String) : Plan :=
  if a.tokens then
    orReport a source (scanSource source) fun tokens =>
      .finish (.success (String.join (tokens.map (·.text ++ "\n"))))
  else if a.ast then
    orReport a source (parseSource source) fun program => .finish (.success program.text)
  else
    orReport a source (compile source) fun listing =>
      if a.toStdout then .finish ⟨0, listing, "Compilation completed successfully\n"⟩
      else .write (destination a) listing

/-- The end of a run that could not read the source. -/
def unreadable (a : Arguments) (f : FileFault) : Outcome := .fileFault "read source" a.source f

/-- The end of a run that could not write the listing. -/
def unwritable (path : String) (f : FileFault) : Outcome := .fileFault "write output" path f

/-- The end of a run that wrote the listing. -/
def written (path : String) : Outcome :=
  .success ("Compilation completed successfully\nOutput written to " ++ path ++ "\n")

/-- **Runs the command in a file tree.** -/
def run (tree : FileTree) : Request → Outcome × FileTree
  | .version => (.success versionText, tree)
  | .help => (.success usageText, tree)
  | .misuse => (⟨2, "", misuseText⟩, tree)
  | .run a =>
    match tree.read a.source with
    | .error f => (unreadable a f, tree)
    | .ok source =>
      match plan a source with
      | .finish outcome => (outcome, tree)
      | .write path text =>
        match tree.write path text with
        | .error f => (unwritable path f, tree)
        | .ok after => (written path, after)

end Session

/-- Why a source file has no listing. -/
inductive CompileFault where
  | failed (failure : Failure)
  | unreadable (path : String) (fault : FileFault)
deriving DecidableEq

/-- The fault in one line. -/
def CompileFault.message : CompileFault → String
  | failed failure => failure.message
  | unreadable path _ => "could not read '" ++ path ++ "'"

/-- The listing of a source file. -/
def compileFile (tree : FileTree) (path : String) : Except CompileFault String :=
  match tree.read path with
  | .error fault => .error (.unreadable path fault)
  | .ok source => (compile source).mapError .failed

end StackListing
