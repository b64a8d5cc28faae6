import StackListing.Stmt.Check
import StackListing.Stmt.Code
import StackListing.Stmt.Parse
import StackListing.Token.Scan

/-!
# Compilation

A source text goes through four phases: it is scanned, parsed, checked, and its listing is
generated.  A phase begins only if the one before it had nothing to complain about, so the
complaints of a failure all come from one phase.
-/

namespace StackListing

/-- The phases of compilation. -/
inductive Phase where
  | scanning
  | parsing
  | checking
  | generation
deriving DecidableEq

/-- The name under which a phase is shown. -/
def Phase.name : Phase → String
  | scanning => "lexical analysis"
  | parsing => "parsing"
  | checking => "semantic analysis"
  | generation => "code generation"

/-- A phase that had something to complain about. -/
structure Failure where
  phase : Phase
  errors : Diagnostics
deriving DecidableEq

/-- The failure in one line. -/
def Failure.message (f : Failure) : String :=
  f.phase.name ++ " failed with " ++ toString f.errors.length ++ " error(s)"

/-- The result of a phase, unless there are complaints about it. -/
def Phase.outcome {α : Type} (phase : Phase) (errors : Diagnostics) (result : α) :
    Except Failure α :=
  if errors.isEmpty then .ok result else .error ⟨phase, errors⟩

theorem Phase.outcome_eq_ok_iff {α : Type} {phase : Phase} {errors : Diagnostics} {result x : α} :
    phase.outcome errors result = .ok x ↔ errors = [] ∧ result = x := by
  cases errors <;> simp [Phase.outcome]

theorem Phase.outcome_eq_error_iff {α : Type} {phase : Phase} {errors : Diagnostics} {result : α}
    {f : Failure} :
    phase.outcome errors result = .error f ↔ errors ≠ [] ∧ f = ⟨phase, errors⟩ := by
  cases errors <;> simp [Phase.outcome, eq_comm]

/-- The tokens of a source without lexical faults. -/
def scanSource (source : String) : Except Failure (List Token) :=
  let scan := tokenize source
  Phase.scanning.outcome scan.errors scan.tokens

/-- The program of a source without lexical and syntactic faults. -/
def parseSource (source : String) : Except Failure Program := do
  let result := parse (← scanSource source)
  Phase.parsing.outcome result.errors result.program

/-- **The listing of a source without faults.** -/
def compile (source : String) : Except Failure String := do
  let program ← parseSource source
  Phase.checking.outcome program.check program.listing

end StackListing
