import StackListing.Expr
import StackListing.Listing

/-!
# Code of expressions

The code of an expression leaves its value in the accumulator and the stack as it was.  Labels are
numbered from a given number on: `code n e` is the code of `e` whose labels start at `n`, and
`labels e` is how many it takes.  A binary operator keeps its left operand on the stack while the
right one is calculated.  The arguments of a call are pushed from the last to the first, and the
caller takes them off again.
-/

namespace StackListing

/-- The bytes that an argument takes on the stack. -/
def argumentSize : Int := 4

/-- The code that loads a constant. -/
def Literal.code (n : Nat) : Literal → Listing
  | .integer value => [.noted (.mov Register.eax (.immediate value)) "integer literal"]
  | .float value =>
    [.comment "Float literal (truncated to integer)",
      .plain (.mov Register.eax (.immediate value.truncate))]
  | .boolean value =>
    [.noted (.mov Register.eax (.immediate (if value then 1 else 0))) "boolean literal"]
  | .string _ => [.noted (.mov Register.eax (.label ⟨"str", n⟩)) "string literal"]

/-- The number of labels in the code of a constant. -/
def Literal.labels : Literal → Nat
  | .string _ => 1
  | _ => 0

/-- The code that turns the outcome of a comparison into zero or one. -/
def Condition.code (c : Condition) : Listing :=
  [.plain (.set c .al), .plain (.movzx .eax .al)]

/-- The code that applies an operator to the accumulator. -/
def UnaryOp.code : UnaryOp → Listing
  | .negate => [.noted (.neg .eax) "negate"]
  | .not => .plain (.cmp Register.eax (.immediate 0)) :: Condition.equal.code

/-- The code that compares the operand registers. -/
def Condition.compareCode (c : Condition) : Listing :=
  .plain (.cmp Register.eax Register.ebx) :: c.code

/-- The code that applies an operator to the operand registers. -/
def BinaryOp.code : BinaryOp → Listing
  | .add => [.noted (.add Register.eax Register.ebx) "addition"]
  | .subtract => [.noted (.sub Register.eax Register.ebx) "subtraction"]
  | .multiply => [.noted (.imul .eax .ebx) "multiplication"]
  | .divide => [.noted .cdq "sign extend", .noted (.idiv .ebx) "division"]
  | .modulo =>
    [.noted .cdq "sign extend", .noted (.idiv .ebx) "division",
      .noted (.mov Register.eax Register.edx) "remainder in edx"]
  | .and => [.noted (.and .eax .ebx) "logical and"]
  | .or => [.noted (.or .eax .ebx) "logical or"]
  | .equal => Condition.equal.compareCode
  | .notEqual => Condition.notEqual.compareCode
  | .less => Condition.less.compareCode
  | .lessEqual => Condition.lessEqual.compareCode
  | .greater => Condition.greater.compareCode
  | .greaterEqual => Condition.greaterEqual.compareCode

namespace Expr

mutual

/-- The number of labels in the code of an expression. -/
def labels : Expr → Nat
  | literal value _ => value.labels
  | var _ _ => 0
  | unary _ operand _ => labels operand
  | binary _ left right _ => labels left + labels right
  | call callee arguments _ => if callee.name?.isSome then labelsAll arguments else 0
  | assign _ value _ => labels value

/-- The number of labels in the code of arguments. -/
def labelsAll : List Expr → Nat
  | [] => 0
  | e :: es => labelsAll es + labels e

end

/-- The code that takes `count` arguments off the stack. -/
def cleanup (count : Nat) : Listing :=
  if count = 0 then []
  else [.noted (.add Register.esp (.immediate (argumentSize * count))) "clean up arguments"]

mutual

/-- **The code of an expression** whose labels start at `n`.  A call of anything but a name has no
code. -/
def code (n : Nat) : Expr → Listing
  | literal value _ => value.code n
  | var name _ =>
    [.noted (.mov Register.eax (.memory name)) ("load variable " ++ name)]
  | unary op operand _ => code n operand ++ op.code
  | binary op left right _ =>
    code n left ++ [.noted (.push .eax) "save left operand"] ++ code (n + labels left) right ++
      [.noted (.mov Register.ebx Register.eax) "right operand in ebx",
        .noted (.pop .eax) "left operand in eax"] ++ op.code
  | call callee arguments _ =>
    match callee.name? with
    | none => []
    | some name =>
      [.comment ("Function call: " ++ name)] ++ codeAll n 0 arguments ++ [.plain (.call name)] ++
        cleanup arguments.length
  | assign name value _ =>
    code n value ++ [.noted (.mov (.memory name) Register.eax) ("assign to " ++ name)]

/-- The code that pushes arguments, the first of which has the number `index`. -/
def codeAll (n index : Nat) : List Expr → Listing
  | [] => []
  | e :: es =>
    codeAll n (index + 1) es ++ code (n + labelsAll es) e ++
      [.noted (.push .eax) ("push argument " ++ toString index)]

end

end Expr

end StackListing
