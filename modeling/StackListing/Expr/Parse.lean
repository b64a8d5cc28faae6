import StackListing.Expr
import StackListing.Grammar
import StackListing.Number.Reading
import StackListing.Parse

/-!
# Parsing expressions

An expression is an operand followed by operators that hold more strongly than a given power.  The
rules for operands and operators are functions of the step `expr` that reads the expressions inside
them.  Each of them reads a token before it uses `expr`, so the number of tokens left bounds the
depth of expressions and the length of chains of operators: `exprWithin n` reads the expressions of
a stream with at most `n` tokens left.
-/

namespace StackListing.Parse

/-- Reads a literal or a variable.  The token is read whether or not it is one. -/
def primary : Parse Expr := do
  let t ← advance
  match t.kind with
  | .integerLiteral =>
    match Number.readInteger? t.value with
    | some n => return .literal (.integer n) t.position
    | none => throw ⟨.badNumber t.value, t.position⟩
  | .floatLiteral =>
    match Number.readFloat? t.value with
    | some x => return .literal (.float x) t.position
    | none => throw ⟨.badNumber t.value, t.position⟩
  | .stringLiteral => return .literal (.string t.value) t.position
  | .trueWord => return .literal (.boolean true) t.position
  | .falseWord => return .literal (.boolean false) t.position
  | .identifier => return .var t.value t.position
  | _ => noExpression t

/-! ### The rules, given a step for the expressions inside -/

section Rules

variable (expr : Power → Parse Expr)

/-- Reads an operator and its operand. -/
def unary : Parse Expr := do
  let t ← advance
  match UnaryOp.ofKind? t.kind with
  | some op => return .unary op (← expr .unary) t.position
  | none => noExpression t

/-- Reads an expression in parentheses. -/
def grouping : Parse Expr := do
  let _ ← advance
  let e ← expr .lowest
  let _ ← expect .closeParen "Expected ')' after expression"
  return e

/-- Reads an operator of the given power and its right operand. -/
def binary (left : Expr) (power : Power) : Parse Expr := do
  let t ← advance
  match BinaryOp.ofKind? t.kind with
  | some op => return .binary op left (← expr power) t.position
  | none => noExpression t

/-- Reads the value of an assignment.  A target that is not a variable is reported, and the target
stands for the whole. -/
def assignment (left : Expr) : Parse Expr := do
  let t ← advance
  let value ← expr .lowest
  match left with
  | .var name position => return .assign name value position
  | _ =>
    report ⟨.invalidAssignmentTarget, t.position⟩
    return left

/-- Reads at most `n + 1` expressions with commas between them. -/
def arguments : Nat → Parse (List Expr)
  | 0 => return [← expr .lowest]
  | n + 1 => do
    let e ← expr .lowest
    if ← accept .comma then return e :: (← arguments n) else return [e]

/-- Reads the arguments of a call. -/
def call (callee : Expr) : Parse Expr := do
  let _ ← advance
  let args ← if (← current).kind = .closeParen then pure [] else arguments expr (← remaining)
  let paren ← expect .closeParen "Expected ')' after arguments"
  return .call callee args paren.position

/-- Reads an operand of the given form. -/
def operand : OperandForm → Parse Expr
  | .primary => primary
  | .unary => unary expr
  | .grouping => grouping expr

/-- Reads an operator of the given form and power, and what it joins to `left`. -/
def operator (left : Expr) (power : Power) : OperatorForm → Parse Expr
  | .binary => binary expr left power
  | .assignment => assignment expr left
  | .call => call expr left

/-- Reads at most `n` operators that hold more strongly than `minimum`. -/
def operators (g : Grammar) (minimum : Power) : Nat → Expr → Parse Expr
  | 0, left => return left
  | n + 1, left => do
    match g.operator? (← current).kind with
    | none => return left
    | some (power, form) =>
      if minimum < power then operators g minimum n (← operator expr left power form)
      else return left

end Rules

/-! ### Expressions -/

/-- Reads an expression whose operators hold more strongly than `minimum`, when at most `n` tokens
are left. -/
def exprWithin (g : Grammar) : Nat → Power → Parse Expr
  | 0, _ => do noExpression (← current)
  | n + 1, minimum => do
    let t ← current
    match g.operand? t.kind with
    | none => noExpression t
    | some form =>
      let left ← operand (exprWithin g n) form
      operators (exprWithin g n) g minimum (← remaining) left

/-- **Reads an expression** whose operators hold more strongly than `minimum`. -/
def expr (g : Grammar) (minimum : Power) : Parse Expr := do
  exprWithin g (← remaining) minimum

end StackListing.Parse
