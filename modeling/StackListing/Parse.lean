import StackListing.Diagnostic
import StackListing.TokenStream

/-!
# Parsing steps

A parsing step reads from a token stream.  It ends with a result or with a diagnostic, and in both
cases with the stream where it stopped.  Complaints that do not end a step are collected beside the
stream.
-/

namespace StackListing

/-- A token stream and the complaints reported so far. -/
structure ParseState where
  stream : TokenStream
  errors : Diagnostics
deriving DecidableEq

/-- **A parsing step.**  It keeps the state also when it fails. -/
abbrev Parse := EStateM Diagnostic ParseState

namespace Parse

/-- The current token. -/
def current : Parse Token := return (← get).stream.current

/-- The token `n` places further on. -/
def peek (n : Nat) : Parse Token := return (← get).stream.peek n

/-- The number of tokens before the end marker. -/
def remaining : Parse Nat := return (← get).stream.remaining

/-- Reads the current token. -/
def advance : Parse Token := do
  let s ← get
  set { s with stream := s.stream.advance }
  return s.stream.current

/-- Reads the current token if it has the given kind, and says whether it has.  The end marker is
never read this way. -/
def accept (kind : Kind) : Parse Bool := do
  let t ← current
  if t.kind = kind ∧ kind ≠ .endOfInput then
    let _ ← advance
    return true
  else
    return false

/-- Reads a token of the given kind; any other token is a failure that `expected` words. -/
def expect (kind : Kind) (expected : String) : Parse Token := do
  let t ← current
  if t.kind = kind then advance
  else throw ⟨.unexpectedToken expected t.describe, t.position⟩

/-- Reports a complaint without failing. -/
def report (d : Diagnostic) : Parse Unit :=
  modify fun s => { s with errors := s.errors ++ [d] }

/-- Skips to the next boundary between statements. -/
def synchronize : Parse Unit :=
  modify fun s => { s with stream := s.stream.synchronize }

/-- The failure of an operand that does not begin with the token `t`. -/
def noExpression {α : Type} (t : Token) : Parse α :=
  throw ⟨.expectedExpression t.describe, t.position⟩

/-- Reads a type keyword; any other token is left in place and is a failure whose cause is made from
its description. -/
def type (cause : String → Cause) : Parse ValueType := do
  let t ← current
  match t.kind.type? with
  | some type =>
    let _ ← advance
    return type
  | none => throw ⟨cause t.describe, t.position⟩

/-- What is missing where a declaration should begin with its type. -/
def declarationType (found : String) : Cause := .unexpectedToken "Expected type" found

/-- What is missing where a parameter should begin with its type. -/
def parameterType (found : String) : Cause := .expectedParameterType found

end Parse

end StackListing
