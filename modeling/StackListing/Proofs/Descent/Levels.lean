import StackListing.Expr.Parse

/-!
# Expressions by recursive descent

A second parser of expressions, written level by level and without a table.  Each level reads the
next tighter one first.  At the levels of operators it then goes on as long as one of its own signs
comes next, and joins from the left; an assignment reads its value as a whole expression again, and
a prefix operator an operand of its own level.

The levels are functions of the two steps that read what stands inside: `whole` for a whole
expression and `prefixed` for what stands behind a prefix operator.  Both are used only behind a
token that was read, so the number of tokens left bounds the depth.
-/

namespace StackListing.Descent

open Parse

/-- The signs of a level and the operators they stand for. -/
abbrev Signs : Type := List (Kind × BinaryOp)

/-- Reads at most `n` signs of a level, each with the operand behind it; joins them to `left`. -/
def chain (signs : Signs) (operand : Parse Expr) : Nat → Expr → Parse Expr
  | 0, left => return left
  | n + 1, left => do
    let t ← current
    match signs.lookup t.kind with
    | none => return left
    | some op =>
      let _ ← advance
      let right ← operand
      chain signs operand n (.binary op left right t.position)

/-- Reads operands with the signs of a level between them, joined from the left. -/
def leftAssociative (signs : Signs) (operand : Parse Expr) : Parse Expr := do
  let left ← operand
  chain signs operand (← remaining) left

/-! ### The levels, given steps for what stands inside -/

section Levels

variable (whole prefixed : Parse Expr)

/-- A literal, a variable, or an expression in parentheses. -/
def primary : Parse Expr := do
  let t ← current
  match t.kind with
  | .integerLiteral | .floatLiteral | .stringLiteral | .trueWord | .falseWord | .identifier =>
    Parse.primary
  | .openParen =>
    let _ ← advance
    let e ← whole
    let _ ← expect .closeParen "Expected ')' after expression"
    return e
  | _ => noExpression t

/-- Reads at most `n + 1` arguments with commas between them. -/
def arguments : Nat → Parse (List Expr)
  | 0 => return [← whole]
  | n + 1 => do
    let e ← whole
    if ← accept .comma then return e :: (← arguments n) else return [e]

/-- Reads at most `n` lists of arguments and calls with them, one after the other. -/
def calls : Nat → Expr → Parse Expr
  | 0, callee => return callee
  | n + 1, callee => do
    if (← current).kind = .openParen then
      let _ ← advance
      let args ← if (← current).kind = .closeParen then pure [] else arguments whole (← remaining)
      let paren ← expect .closeParen "Expected ')' after arguments"
      calls n (.call callee args paren.position)
    else return callee

/-- A primary and the calls behind it. -/
def call : Parse Expr := do
  let callee ← primary whole
  calls whole (← remaining) callee

/-- A prefix operator and its operand, or a call. -/
def unary : Parse Expr := do
  let t ← current
  match t.kind with
  | .dash =>
    let _ ← advance
    return .unary .negate (← prefixed) t.position
  | .bang =>
    let _ ← advance
    return .unary .not (← prefixed) t.position
  | _ => call whole

/-- Products, quotients and remainders. -/
def multiplicative : Parse Expr :=
  leftAssociative [(.star, .multiply), (.slash, .divide), (.percent, .modulo)]
    (unary whole prefixed)

/-- Sums and differences. -/
def additive : Parse Expr :=
  leftAssociative [(.plus, .add), (.dash, .subtract)] (multiplicative whole prefixed)

/-- Comparisons by order. -/
def relational : Parse Expr :=
  leftAssociative [(.less, .less), (.lessEqual, .lessEqual), (.greater, .greater),
    (.greaterEqual, .greaterEqual)] (additive whole prefixed)

/-- Comparisons for equality. -/
def equality : Parse Expr :=
  leftAssociative [(.equal, .equal), (.notEqual, .notEqual)] (relational whole prefixed)

/-- Conjunctions. -/
def logicalAnd : Parse Expr := leftAssociative [(.ampAmp, .and)] (equality whole prefixed)

/-- Disjunctions. -/
def logicalOr : Parse Expr := leftAssociative [(.barBar, .or)] (logicalAnd whole prefixed)

/-- What may stand behind the left side of an assignment.  A left side that is no variable is
reported at the sign, and stands for the whole. -/
def assigned (left : Expr) : Parse Expr := do
  let sign ← current
  if sign.kind = .assign then
    let _ ← advance
    let value ← whole
    match left with
    | .var name position => return .assign name value position
    | _ =>
      report ⟨.invalidAssignmentTarget, sign.position⟩
      return left
  else return left

/-- An assignment, read from the right, or a disjunction. -/
def assignment : Parse Expr := do
  let left ← logicalOr whole prefixed
  assigned whole left

end Levels

/-! ### Expressions -/

mutual

/-- Reads an expression when at most `n` tokens are left. -/
def exprWithin : Nat → Parse Expr
  | 0 => do noExpression (← current)
  | n + 1 => assignment (exprWithin n) (prefixedWithin n)

/-- Reads what stands behind a prefix operator when at most `n` tokens are left. -/
def prefixedWithin : Nat → Parse Expr
  | 0 => do noExpression (← current)
  | n + 1 => unary (exprWithin n) (prefixedWithin n)

end

/-- **Reads an expression.** -/
def expr : Parse Expr := do exprWithin (← remaining)

/-- Reads what stands behind a prefix operator. -/
def prefixed : Parse Expr := do prefixedWithin (← remaining)

end StackListing.Descent
