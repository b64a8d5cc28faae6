import StackListing.Expr
import StackListing.SymbolTable

/-!
# Types of expressions

Inference finds the type of an expression and the complaints about it, in the order in which they
are met.  An expression without a type has been complained about; nothing further is said about
what contains it.
-/

namespace StackListing

/-- The type of a result of an operator, if it takes operands of these types. -/
def BinaryOp.resultType? (op : BinaryOp) (left right : ValueType) : Option ValueType :=
  match op with
  | .add | .subtract | .multiply | .divide | .modulo =>
    if left.isNumeric && right.isNumeric then some (.promote left right) else none
  | .equal | .notEqual => if left.accepts right then some .bool else none
  | .less | .lessEqual | .greater | .greaterEqual =>
    if left.isNumeric && right.isNumeric then some .bool else none
  | .and | .or => if left = .bool && right = .bool then some .bool else none

/-- The type of a result of an operator, if it takes an operand of this type. -/
def UnaryOp.resultType? (op : UnaryOp) (operand : ValueType) : Option ValueType :=
  match op with
  | .negate => if operand.isNumeric then some operand else none
  | .not => if operand = .bool then some .bool else none

/-- A type, if one was found, and the complaints met on the way. -/
structure Inference where
  type? : Option ValueType
  errors : Diagnostics
deriving DecidableEq

namespace Inference

/-- Nothing but a complaint. -/
def failure (cause : Cause) (position : Position) : Inference := ⟨none, [⟨cause, position⟩]⟩

/-- The complaint about a value of type `actual` where `expected` is declared. -/
def mismatch (cause : String → String → Cause) (expected : ValueType) (position : Position)
    (actual : Option ValueType) : Diagnostics :=
  match actual with
  | none => []
  | some type =>
    if expected.accepts type then [] else [⟨cause expected.name type.name, position⟩]

end Inference

namespace Expr

mutual

/-- **The type of an expression** under the declarations of `t`. -/
def infer (t : SymbolTable) : Expr → Inference
  | literal value _ => ⟨some value.type, []⟩
  | var name position =>
    match t.lookup? name with
    | some s => ⟨some s.type, []⟩
    | none => .failure (.variableNotDeclared name) position
  | unary op operand position =>
    let inner := infer t operand
    match inner.type? with
    | none => inner
    | some type =>
      match op.resultType? type with
      | some result => ⟨some result, inner.errors⟩
      | none => ⟨none, inner.errors ++ [⟨.invalidOperand op.symbol type.name, position⟩]⟩
  | binary op left right position =>
    let l := infer t left
    let r := infer t right
    let errors := l.errors ++ r.errors
    match l.type?, r.type? with
    | some a, some b =>
      match op.resultType? a b with
      | some result => ⟨some result, errors⟩
      | none => ⟨none, errors ++ [⟨.invalidOperands op.symbol a.name b.name, position⟩]⟩
    | _, _ => ⟨none, errors⟩
  | call callee arguments position =>
    match callee.name? with
    | none => .failure .calleeNotCallable position
    | some name =>
      match t.lookup? name with
      | none => .failure (.functionNotFound name) position
      | some s =>
        if s.role = .function then ⟨some s.type, inferAll t arguments⟩
        else .failure (.notAFunction name) position
  | assign name value position =>
    match t.lookup? name with
    | none => .failure (.variableNotDeclared name) position
    | some s =>
      let inner := infer t value
      ⟨some s.type,
        inner.errors ++ Inference.mismatch .typeMismatch s.type position inner.type?⟩

/-- The complaints about expressions, in order. -/
def inferAll (t : SymbolTable) : List Expr → Diagnostics
  | [] => []
  | e :: es => (infer t e).errors ++ inferAll t es

end

theorem inferAll_eq_flatMap (t : SymbolTable) :
    ∀ es : List Expr, inferAll t es = es.flatMap fun e => (e.infer t).errors
  | [] => rfl
  | e :: es => by simp [inferAll, inferAll_eq_flatMap t es]

end Expr

end StackListing
