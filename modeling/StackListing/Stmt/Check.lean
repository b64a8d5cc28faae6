import StackListing.Expr.Infer
import StackListing.Stmt

/-!
# Checking statements

A statement is checked in a context: the declarations visible to it, and the function around it.
Checking yields the context for the statements that follow and the complaints in the order in which
they are met.  Blocks, loop headers and parameter lists open scopes; the body of a function is a
block inside the scope of its parameters.
-/

namespace StackListing

/-- Where a statement stands. -/
structure Context where
  table : SymbolTable
  /-- Whether the statement is inside a function. -/
  inFunction : Bool
  /-- The type to give back; without one, anything may be given back. -/
  result? : Option ValueType
deriving DecidableEq

/-- The context behind something that was checked, and the complaints about it. -/
structure Checked where
  context : Context
  errors : Diagnostics
deriving DecidableEq

namespace Context

/-- The context of a program. -/
def empty : Context := ⟨.empty, false, none⟩

/-- The context in a scope of its own. -/
def enter (c : Context) : Context := { c with table := c.table.enter }

/-- The context outside the current scope. -/
def leave (c : Context) : Context := { c with table := c.table.leave }

/-- The context with a further declaration, and the complaint if the name is taken. -/
def declare (c : Context) (name : String) (type : ValueType) (role : Role) (position : Position) :
    Checked :=
  match c.table.declare name type role position with
  | .ok table => ⟨{ c with table }, []⟩
  | .error d => ⟨c, [d]⟩

/-- The context with parameters declared one after the other. -/
def declareAll (c : Context) : List Parameter → Checked
  | [] => ⟨c, []⟩
  | p :: ps =>
    let first := c.declare p.name p.type .parameter p.position
    let others := first.context.declareAll ps
    ⟨others.context, first.errors ++ others.errors⟩

/-- The context of the body of a function that gives back `result`. -/
def enterFunction (c : Context) (result : ValueType) : Context :=
  { c.enter with inFunction := true, result? := some result }

/-- The complaints about the condition of a construct. -/
def checkCondition (c : Context) (construct : String) (condition : Expr) : Diagnostics :=
  let found := condition.infer c.table
  found.errors ++ match found.type? with
    | none => []
    | some type =>
      if type = .bool then []
      else [⟨.nonBooleanCondition construct type.name, condition.position⟩]

/-- The complaints about an optional expression of which only the inside is judged. -/
def checkValue (c : Context) : Option Expr → Diagnostics
  | none => []
  | some e => (e.infer c.table).errors

/-- The complaints about the condition and the increment of a loop header. -/
def checkHeader (c : Context) (condition increment : Option Expr) : Diagnostics :=
  (match condition with
    | none => []
    | some e => c.checkCondition "For" e) ++ c.checkValue increment

/-- The complaints about an initial value for a variable of the given type. -/
def checkInitial (c : Context) (type : ValueType) (position : Position) :
    Option Expr → Diagnostics
  | none => []
  | some e =>
    let found := e.infer c.table
    found.errors ++ Inference.mismatch .typeMismatch type position found.type?

/-- The complaints about a value to give back. -/
def checkGiveBack (c : Context) (position : Position) (value : Option Expr) : Diagnostics :=
  if c.inFunction then
    match value, c.result? with
    | some e, none => (e.infer c.table).errors
    | some e, some type =>
      let found := e.infer c.table
      found.errors ++ Inference.mismatch .returnTypeMismatch type position found.type?
    | none, none => []
    | none, some type => [⟨.missingReturnValue type.name, position⟩]
  else [⟨.returnOutsideFunction, position⟩]

end Context

namespace Stmt

mutual

/-- **Checks a statement.** -/
def check (c : Context) : Stmt → Checked
  | expr e => ⟨c, (e.infer c.table).errors⟩
  | print e _ => ⟨c, (e.infer c.table).errors⟩
  | giveBack value position => ⟨c, c.checkGiveBack position value⟩
  | variableDecl type name initial position =>
    if c.table.definedHere name then ⟨c, [SymbolTable.redeclared .var name position]⟩
    else
      let declared := c.declare name type .var position
      ⟨declared.context, c.checkInitial type position initial ++ declared.errors⟩
  | block body _ =>
    let inner := checkAll c.enter body
    ⟨inner.context.leave, inner.errors⟩
  | branch condition yes no _ =>
    let first := check c yes
    let second := checkOption first.context no
    ⟨second.context, c.checkCondition "If" condition ++ first.errors ++ second.errors⟩
  | whileLoop condition body _ =>
    let inner := check c body
    ⟨inner.context, c.checkCondition "While" condition ++ inner.errors⟩
  | forLoop initial condition increment body _ =>
    let header := checkOption c.enter initial
    let inner := check header.context body
    ⟨inner.context.leave,
      header.errors ++ header.context.checkHeader condition increment ++ inner.errors⟩
  | functionDecl result name parameters body _ position =>
    if c.table.definedHere name then ⟨c, [SymbolTable.redeclared .function name position]⟩
    else
      let declared := c.declare name result .function position
      let header := (declared.context.enterFunction result).declareAll parameters
      let inner := checkAll header.context.enter body
      ⟨{ inner.context.leave.leave with inFunction := c.inFunction, result? := c.result? },
        declared.errors ++ header.errors ++ inner.errors⟩

/-- Checks statements one after the other. -/
def checkAll (c : Context) : List Stmt → Checked
  | [] => ⟨c, []⟩
  | s :: rest =>
    let first := check c s
    let others := checkAll first.context rest
    ⟨others.context, first.errors ++ others.errors⟩

/-- Checks a statement that may be absent. -/
def checkOption (c : Context) : Option Stmt → Checked
  | none => ⟨c, []⟩
  | some s => check c s

end

end Stmt

/-- **The complaints about a program.** -/
def Program.check (p : Program) : Diagnostics := (Stmt.checkAll .empty p.statements).errors

end StackListing
