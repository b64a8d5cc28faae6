/-!
# Arguments of the command

The command takes one source and options.  Long options stand behind two dashes and short ones
behind one, several in one argument if only the last takes a value.  The output option takes a
value, which may be attached to it or stand in the next argument, unless that argument is an
option.  Behind the argument `--` everything is a source.  Counts and conflicts are judged when all
arguments are read; a request for help or for the version is met as soon as it is read.
-/

namespace StackListing

/-- What the command is asked to do. -/
structure Arguments where
  source : String
  output : Option String
  toStdout : Bool
  tokens : Bool
  ast : Bool
  verbosity : Nat
deriving DecidableEq

/-- What the arguments come to. -/
inductive Request where
  | run (arguments : Arguments)
  | version
  | help
  | misuse
deriving DecidableEq

namespace Request

/-- The options met so far, with how often they were met. -/
structure Seen where
  sources : List String
  outputs : List String
  /-- How often the output option stood without a value. -/
  emptyOutputs : Nat
  stdouts : Nat
  tokens : Nat
  asts : Nat
  verbosity : Nat

/-- No option met. -/
def Seen.nothing : Seen := ⟨[], [], 0, 0, 0, 0, 0⟩

/-- What an argument leads to: more reading, reading of the output's value, or a request. -/
inductive Step where
  | goOn (seen : Seen)
  | awaitOutput (seen : Seen)
  | stop (request : Request)

/-- An output value with the sign `=` before it taken off. -/
def attached : List Char → String
  | '=' :: cs => String.ofList cs
  | cs => String.ofList cs

/-- Reads the letters of an argument with short options. -/
def shortOptions (seen : Seen) : List Char → Step
  | [] => .goOn seen
  | c :: cs =>
    if c = 'v' then shortOptions { seen with verbosity := seen.verbosity + 1 } cs
    else if c = 'V' then .stop .version
    else if c = 'h' then .stop .help
    else if c = 'o' then
      if cs = [] then .awaitOutput seen
      else .goOn { seen with outputs := seen.outputs ++ [attached cs] }
    else .stop .misuse

/-- Reads a long option, given its name and its attached value. -/
def longOption (seen : Seen) (name : String) (value : Option String) : Step :=
  match name, value with
  | "output", none => .awaitOutput seen
  | "output", some v => .goOn { seen with outputs := seen.outputs ++ [v] }
  | "stdout", none => .goOn { seen with stdouts := seen.stdouts + 1 }
  | "tokens", none => .goOn { seen with tokens := seen.tokens + 1 }
  | "ast", none => .goOn { seen with asts := seen.asts + 1 }
  | "version", none => .stop .version
  | "help", none => .stop .help
  | _, _ => .stop .misuse

/-- Reads an argument as an option, if it looks like one: two dashes and more, or one dash and
more. -/
def option? (seen : Seen) (argument : String) : Option Step :=
  match argument.toList with
  | '-' :: '-' :: cs =>
    let name := cs.takeWhile (· ≠ '=')
    let value := match cs.dropWhile (· ≠ '=') with
      | _ :: v => some (String.ofList v)
      | [] => none
    some (longOption seen (String.ofList name) value)
  | '-' :: c :: cs => some (shortOptions seen (c :: cs))
  | _ => none

/-- Adds a source; there can be only one. -/
def addSource (seen : Seen) (argument : String) : Step :=
  if seen.sources = [] then .goOn { seen with sources := [argument] } else .stop .misuse

/-- The request that all arguments together make. -/
def judge (seen : Seen) : Request :=
  match seen.sources with
  | [source] =>
    if seen.outputs.length + seen.emptyOutputs ≤ 1 ∧ seen.emptyOutputs = 0 ∧ seen.stdouts ≤ 1 ∧
        seen.tokens ≤ 1 ∧ seen.asts ≤ 1 ∧ ¬(seen.tokens = 1 ∧ seen.asts = 1) then
      .run ⟨source, seen.outputs.head?, seen.stdouts = 1, seen.tokens = 1, seen.asts = 1,
        seen.verbosity⟩
    else .misuse
  | _ => .misuse

/-- Reads sources up to the end. -/
def readSources (seen : Seen) : List String → Request
  | [] => judge seen
  | a :: rest =>
    match addSource seen a with
    | .stop request => request
    | .goOn next | .awaitOutput next => readSources next rest

/-- Counts an output option whose value did not come. -/
def close (seen : Seen) (awaiting : Bool) : Seen :=
  if awaiting then { seen with emptyOutputs := seen.emptyOutputs + 1 } else seen

/-- Reads arguments; `awaiting` says whether the output option awaits its value. -/
def read (seen : Seen) (awaiting : Bool) : List String → Request
  | [] => judge (close seen awaiting)
  | a :: rest =>
    if a = "--" then readSources (close seen awaiting) rest
    else
      match option? (close seen awaiting) a with
      | some (.stop request) => request
      | some (.goOn next) => read next false rest
      | some (.awaitOutput next) => read next true rest
      | none =>
        if awaiting then read { seen with outputs := seen.outputs ++ [a] } false rest
        else
          match addSource seen a with
          | .stop request => request
          | .goOn next | .awaitOutput next => read next false rest

/-- **The request that arguments make.** -/
def ofArguments (arguments : List String) : Request := read .nothing false arguments

end Request

end StackListing
