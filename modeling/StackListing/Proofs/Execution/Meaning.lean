import StackListing.Stmt
import StackListing.Proofs.Execution.Machine

/-!
# What programs mean

Expressions are evaluated over a store, without registers, stack and labels.  Values are cells and
arithmetic is modulo `2 ^ 32`; a comparison gives zero or one, and the logical operators combine the
bits of both their operands.  A quotient goes towards zero, and there is none by zero and none that
does not fit.

A statement ends normally or gives a value back, and it may fail to end.  `Stmt.exec env fuel s σ`
is how `s` ends from the store `σ` if each of its loops is allowed `fuel` tests, and `none` if one of
them needs more.
-/

namespace StackListing

/-- Why an evaluation has no value. -/
inductive Trap where
  /-- A quotient does not exist, or does not fit into a cell. -/
  | division
  /-- The construct has no value over cells. -/
  | unsupported
deriving DecidableEq

/-- An evaluation, which may change the store. -/
abbrev Evaluation (α : Type) := StateT Store (Except Trap) α

/-! ### Operators -/

/-- Whether two cells compare as asked, with their signs. -/
def Condition.test : Condition → Cell → Cell → Bool
  | .equal, a, b => a == b
  | .notEqual, a, b => a != b
  | .less, a, b => a.slt b
  | .lessEqual, a, b => a.sle b
  | .greater, a, b => b.slt a
  | .greaterEqual, a, b => b.sle a

/-- The value of a unary operator. -/
def UnaryOp.apply : UnaryOp → Cell → Cell
  | .negate, a => -a
  | .not, a => truth (a == 0)

/-- Whether a quotient does not exist or does not fit. -/
def NoQuotient (a b : Cell) : Prop := b = 0 ∨ (a = BitVec.intMin 32 ∧ b = -1)

instance (a b : Cell) : Decidable (NoQuotient a b) := inferInstanceAs (Decidable (_ ∨ _))

/-- The value of an operation on the numbers that two cells stand for. -/
def divideWith (op : Int → Int → Int) (a b : Cell) : Except Trap Cell :=
  if NoQuotient a b then .error .division else .ok (.ofInt 32 (op a.toInt b.toInt))

/-- **The value of a binary operator.** -/
def BinaryOp.apply : BinaryOp → Cell → Cell → Except Trap Cell
  | .add, a, b => .ok (a + b)
  | .subtract, a, b => .ok (a - b)
  | .multiply, a, b => .ok (a * b)
  | .divide, a, b => divideWith Int.tdiv a b
  | .modulo, a, b => divideWith Int.tmod a b
  | .and, a, b => .ok (a &&& b)
  | .or, a, b => .ok (a ||| b)
  | .equal, a, b => .ok (truth (Condition.equal.test a b))
  | .notEqual, a, b => .ok (truth (Condition.notEqual.test a b))
  | .less, a, b => .ok (truth (Condition.less.test a b))
  | .lessEqual, a, b => .ok (truth (Condition.lessEqual.test a b))
  | .greater, a, b => .ok (truth (Condition.greater.test a b))
  | .greaterEqual, a, b => .ok (truth (Condition.greaterEqual.test a b))

/-! ### Expressions -/

/-- The value of a constant. -/
def Literal.value : Literal → Except Trap Cell
  | .integer n => .ok (.ofInt 32 n)
  | .boolean b => .ok (truth b)
  | .float _ | .string _ => .error .unsupported

namespace Expr

mutual

/-- **The value of an expression.**  The left operand comes before the right one, and the last
argument before the first. -/
def eval (env : Environment) : Expr → Evaluation Cell
  | literal value _ => value.value
  | var name _ => do return (← get).memory name
  | unary op operand _ => do return op.apply (← eval env operand)
  | binary op left right _ => do
    let a ← eval env left
    let b ← eval env right
    op.apply a b
  | call callee arguments _ =>
    match callee.name? with
    | none => throw .unsupported
    | some name => do
      let vs ← evalAll env arguments
      modifyGet (env.answer name vs)
  | assign name value _ => do
    let v ← eval env value
    modify (·.assign name v)
    return v

/-- The values of arguments. -/
def evalAll (env : Environment) : List Expr → Evaluation (List Cell)
  | [] => return []
  | e :: es => do
    let vs ← evalAll env es
    let v ← eval env e
    return v :: vs

end

mutual

/-- Whether an expression is made from numbers, truth values, variables, operators, assignments and
calls of names. -/
def plain : Expr → Bool
  | literal (.integer _) _ | literal (.boolean _) _ | var _ _ => true
  | literal (.float _) _ | literal (.string _) _ => false
  | unary _ operand _ => operand.plain
  | binary _ left right _ => left.plain && right.plain
  | call callee arguments _ => callee.name?.isSome && plainAll arguments
  | assign _ value _ => value.plain

/-- Whether all expressions of a list are such. -/
def plainAll : List Expr → Bool
  | [] => true
  | e :: es => e.plain && plainAll es

end

/-- Whether an expression is such, or absent. -/
def plainOption : Option Expr → Bool
  | none => true
  | some e => e.plain

end Expr

/-! ### Statements -/

/-- How a statement ends. -/
inductive Ending where
  /-- What follows the statement is next. -/
  | normal (σ : Store)
  /-- The function gives a value back. -/
  | returned (v : Cell) (σ : Store)
  | trapped (t : Trap)

/-- An execution, with no outcome if it was cut short. -/
abbrev Execution := Store → Option Ending

/-- An execution that goes on with what an evaluation makes. -/
def Evaluation.andThen {α : Type} (x : Evaluation α) (next : α → Execution) : Execution := fun σ =>
  match x σ with
  | .ok (a, σ') => next a σ'
  | .error t => some (.trapped t)

namespace Execution

/-- The execution that does nothing. -/
def done : Execution := fun σ => some (.normal σ)

/-- One execution and, if it ends normally, another. -/
def seq (x y : Execution) : Execution := fun σ =>
  match x σ with
  | some (.normal σ') => y σ'
  | o => o

/-- A body as often as a test succeeds, cut short at the given number of tests. -/
def loop (test : Evaluation Bool) (body : Execution) : Nat → Execution
  | 0 => fun _ => none
  | n + 1 => test.andThen fun goOn => if goOn then body.seq (loop test body n) else done

end Execution

/-- The test of a loop.  A condition is met by every value but zero, and an absent one always. -/
def Expr.test (env : Environment) : Option Expr → Evaluation Bool
  | none => return true
  | some e => do return (← e.eval env) != 0

/-- The execution of an expression for its effect, or of none. -/
def Expr.execOption (env : Environment) : Option Expr → Execution
  | none => .done
  | some e => (e.eval env).andThen fun _ => .done

namespace Stmt

mutual

/-- **How a statement ends,** if each of its loops is allowed `fuel` tests. -/
def exec (env : Environment) (fuel : Nat) : Stmt → Execution
  | expr e => Expr.execOption env (some e)
  | variableDecl _ _ none _ => .done
  | variableDecl _ name (some e) _ =>
    (e.eval env).andThen fun v σ => some (.normal (σ.assign name v))
  | block body _ => execAll env fuel body
  | branch condition yes no _ =>
    (condition.eval env).andThen fun v =>
      if v = 0 then execOption env fuel no else exec env fuel yes
  | whileLoop condition body _ =>
    .loop (Expr.test env (some condition)) (exec env fuel body) fuel
  | forLoop initial condition increment body _ =>
    (execOption env fuel initial).seq <|
      .loop (Expr.test env condition)
        ((exec env fuel body).seq (Expr.execOption env increment)) fuel
  | giveBack none _ => fun σ => some (.returned 0 σ)
  | giveBack (some e) _ => (e.eval env).andThen fun v σ => some (.returned v σ)
  | functionDecl _ _ _ _ _ _ => fun _ => some (.trapped .unsupported)
  | print e _ =>
    (e.eval env).andThen fun v σ => some (.normal (env.answer "print_int" [v] σ).2)

/-- How statements one after the other end. -/
def execAll (env : Environment) (fuel : Nat) : List Stmt → Execution
  | [] => .done
  | s :: rest => (exec env fuel s).seq (execAll env fuel rest)

/-- How a statement that may be absent ends. -/
def execOption (env : Environment) (fuel : Nat) : Option Stmt → Execution
  | none => .done
  | some s => exec env fuel s

end

mutual

/-- Whether a statement declares no function and has only such expressions as are made from numbers,
truth values, variables, operators, assignments and calls of names. -/
def plain : Stmt → Bool
  | expr e => e.plain
  | variableDecl _ _ initial _ => Expr.plainOption initial
  | block body _ => plainAll body
  | branch condition yes no _ => condition.plain && yes.plain && plainOption no
  | whileLoop condition body _ => condition.plain && body.plain
  | forLoop initial condition increment body _ =>
    plainOption initial && Expr.plainOption condition && Expr.plainOption increment && body.plain
  | giveBack value _ => Expr.plainOption value
  | functionDecl _ _ _ _ _ _ => false
  | print e _ => e.plain

/-- Whether all statements of a list are such. -/
def plainAll : List Stmt → Bool
  | [] => true
  | s :: rest => s.plain && plainAll rest

/-- Whether a statement is such, or absent. -/
def plainOption : Option Stmt → Bool
  | none => true
  | some s => s.plain

end

end Stmt

end StackListing
