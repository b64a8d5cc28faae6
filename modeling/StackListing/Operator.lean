import StackListing.Token

/-!
# Operators

The operators of expressions, the tokens that stand for them and the signs that write them.
-/

namespace StackListing

/-- The operators between two operands. -/
inductive BinaryOp where
  | add
  | subtract
  | multiply
  | divide
  | modulo
  | equal
  | notEqual
  | less
  | lessEqual
  | greater
  | greaterEqual
  | and
  | or
deriving DecidableEq

namespace BinaryOp

/-- The operator that a token stands for between two operands. -/
def ofKind? : Kind → Option BinaryOp
  | .plus => some add
  | .dash => some subtract
  | .star => some multiply
  | .slash => some divide
  | .percent => some modulo
  | .equal => some equal
  | .notEqual => some notEqual
  | .less => some less
  | .lessEqual => some lessEqual
  | .greater => some greater
  | .greaterEqual => some greaterEqual
  | .ampAmp => some and
  | .barBar => some or
  | _ => none

/-- The sign of the operator. -/
def symbol : BinaryOp → String
  | add => "+"
  | subtract => "-"
  | multiply => "*"
  | divide => "/"
  | modulo => "%"
  | equal => "=="
  | notEqual => "!="
  | less => "<"
  | lessEqual => "<="
  | greater => ">"
  | greaterEqual => ">="
  | and => "&&"
  | or => "||"

end BinaryOp

/-- The operators before one operand. -/
inductive UnaryOp where
  | negate
  | not
deriving DecidableEq

namespace UnaryOp

/-- The operator that a token stands for before an operand. -/
def ofKind? : Kind → Option UnaryOp
  | .dash => some negate
  | .bang => some not
  | _ => none

/-- The sign of the operator. -/
def symbol : UnaryOp → String
  | negate => "-"
  | not => "!"

end UnaryOp

end StackListing
