import StackListing.Literal
import StackListing.Operator

/-!
# Expressions

Expressions with the place that complaints about them are charged to: the operator of an operation,
the closing parenthesis of a call, the name of a variable or of an assignment's target.  Every
operation is printed with parentheses around it, so that the text shows how it was read.
-/

namespace StackListing

/-- An expression. -/
inductive Expr where
  | literal (value : Literal) (position : Position)
  | var (name : String) (position : Position)
  | unary (op : UnaryOp) (operand : Expr) (position : Position)
  | binary (op : BinaryOp) (left right : Expr) (position : Position)
  | call (callee : Expr) (arguments : List Expr) (position : Position)
  | assign (name : String) (value : Expr) (position : Position)

namespace Expr

/-- The place that complaints about the expression are charged to. -/
def position : Expr → Position
  | literal _ p => p
  | var _ p => p
  | unary _ _ p => p
  | binary _ _ _ p => p
  | call _ _ p => p
  | assign _ _ p => p

/-- The name that the expression consists of, if it is a bare name. -/
def name? : Expr → Option String
  | var name _ => some name
  | _ => none

mutual

/-- The expression as a program writes it. -/
def text : Expr → String
  | literal value _ => value.text
  | var name _ => name
  | unary op operand _ => "(" ++ op.symbol ++ operand.text ++ ")"
  | binary op left right _ => "(" ++ left.text ++ " " ++ op.symbol ++ " " ++ right.text ++ ")"
  | call callee arguments _ => callee.text ++ "(" ++ ", ".intercalate (texts arguments) ++ ")"
  | assign name value _ => name ++ " = " ++ value.text

/-- The texts of expressions. -/
def texts : List Expr → List String
  | [] => []
  | e :: es => e.text :: texts es

end

theorem texts_eq_map : ∀ es : List Expr, texts es = es.map text
  | [] => rfl
  | e :: es => by simp [texts, texts_eq_map es]

end Expr

end StackListing
