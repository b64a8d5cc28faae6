import StackListing.Position
import StackListing.Text.Quoted

/-!
# Diagnostics

A diagnostic is a cause and the place it is charged to.  Every cause belongs to one category, has a
name, a message and, for most, a tip for the reader.  A phase collects its diagnostics in the order
in which it meets them.
-/

namespace StackListing

/-- The categories of complaints. -/
inductive Category where
  | lexical
  | syntactic
  | semantic
  | typing
  | undeclaredVariable
  | redeclaration
  | functionNotFound
  | argumentMismatch
deriving DecidableEq

namespace Category

/-- The name under which a category is shown. -/
def name : Category → String
  | lexical => "LEXICAL_ERROR"
  | syntactic => "SYNTAX_ERROR"
  | semantic => "SEMANTIC_ERROR"
  | typing => "TYPE_ERROR"
  | undeclaredVariable => "UNDECLARED_VARIABLE"
  | redeclaration => "REDECLARATION_ERROR"
  | functionNotFound => "FUNCTION_NOT_FOUND"
  | argumentMismatch => "ARGUMENT_MISMATCH"

/-- Every category. -/
def all : List Category :=
  [lexical, syntactic, semantic, typing, undeclaredVariable, redeclaration, functionNotFound,
    argumentMismatch]

theorem mem_all (k : Category) : k ∈ all := by cases k <;> decide

end Category

/-- What a diagnostic complains about.  Types, operators and constructs appear by their names. -/
inductive Cause where
  | unexpectedCharacter (character : Char)
  | unterminatedString
  | unexpectedToken (expected found : String)
  | expectedExpression (found : String)
  | expectedParameterType (found : String)
  | badNumber (token : String)
  | invalidAssignmentTarget
  | returnOutsideFunction
  | calleeNotCallable
  | notAFunction (name : String)
  | typeMismatch (expected received : String)
  | returnTypeMismatch (expected received : String)
  | missingReturnValue (expected : String)
  | nonBooleanCondition (construct found : String)
  | invalidOperands (operator left right : String)
  | invalidOperand (operator operand : String)
  | variableNotDeclared (name : String)
  | alreadyDeclared (what name : String)
  | functionNotFound (name : String)
  | argumentMismatch (name : String) (expected received : Nat)
deriving DecidableEq

namespace Cause

/-- The name under which a cause is shown. -/
def name : Cause → String
  | unexpectedCharacter _ => "UnexpectedCharacter"
  | unterminatedString => "UnterminatedString"
  | unexpectedToken _ _ => "UnexpectedToken"
  | expectedExpression _ => "ExpectedExpression"
  | expectedParameterType _ => "ExpectedParameterType"
  | badNumber _ => "NumberParseError"
  | invalidAssignmentTarget => "InvalidAssignmentTarget"
  | returnOutsideFunction => "ReturnOutsideFunction"
  | calleeNotCallable => "CalleeNotCallable"
  | notAFunction _ => "NotAFunction"
  | typeMismatch _ _ => "TypeMatchError"
  | returnTypeMismatch _ _ => "ReturnTypeMatchError"
  | missingReturnValue _ => "MissingReturnValue"
  | nonBooleanCondition _ _ => "NonBooleanCondition"
  | invalidOperands _ _ _ => "InvalidOperandTypes"
  | invalidOperand _ _ => "InvalidOperandType"
  | variableNotDeclared _ => "VariableNotDeclared"
  | alreadyDeclared _ _ => "AlreadyDeclared"
  | functionNotFound _ => "FunctionNotFound"
  | argumentMismatch _ _ _ => "ArgumentMismatch"

/-- The category of a cause. -/
def category : Cause → Category
  | unexpectedCharacter _ | unterminatedString => .lexical
  | unexpectedToken _ _ | expectedExpression _ | expectedParameterType _ | badNumber _
  | invalidAssignmentTarget => .syntactic
  | returnOutsideFunction | calleeNotCallable | notAFunction _ => .semantic
  | typeMismatch _ _ | returnTypeMismatch _ _ | missingReturnValue _ | nonBooleanCondition _ _
  | invalidOperands _ _ _ | invalidOperand _ _ => .typing
  | variableNotDeclared _ => .undeclaredVariable
  | alreadyDeclared _ _ => .redeclaration
  | functionNotFound _ => .functionNotFound
  | argumentMismatch _ _ _ => .argumentMismatch

/-- The complaint in words. -/
def message : Cause → String
  | unexpectedCharacter c => "Unexpected character: '" ++ c.toString ++ "'"
  | unterminatedString => "Unterminated string"
  | unexpectedToken expected _ => expected
  | expectedExpression _ => "Expected expression"
  | expectedParameterType _ => "Expected parameter type"
  | badNumber token => "error parsing number: " ++ Text.quoted token
  | invalidAssignmentTarget => "Invalid assignment target"
  | returnOutsideFunction => "Return statement outside function"
  | calleeNotCallable => "Only functions can be called"
  | notAFunction name => s!"'{name}' is not a function"
  | typeMismatch expected received => s!"Cannot assign {received} to variable of type {expected}"
  | returnTypeMismatch expected received =>
    s!"Cannot return {received} from function expecting {expected}"
  | missingReturnValue expected => s!"Function must return a value of type {expected}"
  | nonBooleanCondition construct found => s!"{construct} condition must be boolean, got {found}"
  | invalidOperands operator left right =>
    s!"Invalid operand types for {operator}: {left} and {right}"
  | invalidOperand operator operand => s!"Invalid operand type for {operator}: {operand}"
  | variableNotDeclared name => s!"Undefined variable '{name}'"
  | alreadyDeclared what name => s!"{what} '{name}' is already declared"
  | functionNotFound name => s!"Undefined function '{name}'"
  | argumentMismatch name expected received =>
    s!"function '{name}' expects {expected} arguments, received {received}"

/-- Advice to the reader, where there is any. -/
def tip? : Cause → Option String
  | unexpectedCharacter c =>
    if c = '&' then some "logical and is written `&&`"
    else if c = '|' then some "logical or is written `||`"
    else none
  | unterminatedString => some "add a closing `\"` to the string literal"
  | unexpectedToken expected found => some s!"{expected}, found `{found}`"
  | expectedExpression found => some s!"`{found}` cannot start an expression"
  | expectedParameterType _ => some "parameters are written `type name`, e.g. `int count`"
  | badNumber token => some s!"Invalid number: `{token}`, is it above the integer limit?"
  | invalidAssignmentTarget => some "only a variable can be assigned to"
  | returnOutsideFunction => none
  | calleeNotCallable => none
  | notAFunction name => some s!"`{name}` is a variable, not a function"
  | typeMismatch expected received => some s!"Expected type `{expected}`, received `{received}`"
  | returnTypeMismatch expected received =>
    some s!"Expected return type `{expected}`, received `{received}`"
  | missingReturnValue expected => some s!"return a value of type `{expected}`"
  | nonBooleanCondition _ _ => some "conditions must be `bool`, compare the value explicitly"
  | invalidOperands _ _ _ => none
  | invalidOperand _ _ => none
  | variableNotDeclared name => some s!"Variable `{name}` not declared"
  | alreadyDeclared _ name => some s!"`{name}` already declared in this scope"
  | functionNotFound name => some s!"Function `{name}` is never declared"
  | argumentMismatch _ expected received =>
    some s!"Expected {expected} arguments, received {received}"

end Cause

/-- A cause and the place it is charged to. -/
structure Diagnostic where
  cause : Cause
  position : Position
deriving DecidableEq

namespace Diagnostic

/-- The category of the complaint. -/
def category (d : Diagnostic) : Category := d.cause.category

/-- The complaint in words, without its place. -/
def message (d : Diagnostic) : String := d.cause.message

/-- The complaint in one line; an unknown place is left out. -/
def text (d : Diagnostic) : String :=
  if d.position.isKnown then
    s!"[{d.category.name}] Line {d.position.line}, Column {d.position.column}: {d.message}"
  else
    s!"[{d.category.name}] {d.message}"

end Diagnostic

/-- The diagnostics of one phase, in the order in which they were met. -/
abbrev Diagnostics := List Diagnostic

namespace Diagnostics

/-- The number of complaints of one category. -/
def countOf (ds : Diagnostics) (k : Category) : Nat := ds.countP (·.category = k)

/-- The complaints, one a line. -/
def text (ds : Diagnostics) : String := String.join (ds.map (·.text ++ "\n"))

end Diagnostics

end StackListing
