import StackListing.Proofs.Parsing.Consuming

/-!
# Properties that all rules of the parser keep

Many a property of parsing steps holds of the whole parser because it holds of the primitive steps,
and of a sequence of steps if it holds of its parts.  Such a property is `Sequential`.  This takes
care of most rules; the others are those that report complaints without failing, which are
assignments with a bad target and what contains statements.  A property that these rules keep too is
`Compositional`, and it holds of every expression and every statement.

Most such properties are `Recovering`: they hold of reports, and the recovery from failures keeps
them.  So a new property of the parser is proved by looking at its primitive steps.
-/

-- a rule is one long sequence of steps
set_option synthInstance.maxSize 512

namespace StackListing

namespace Parse

/-- A property of steps, whatever they give. -/
abbrev Property := (α : Type) → Parse α → Prop

/-- The step has the property.  This is a class, so that it is found for a composed step from its
parts. -/
class Has (P : Property) {α : Type} (p : Parse α) : Prop where
  holds : P α p

/-- **A sequential property:** the primitive steps have it, and a sequence has it if its parts
do. -/
class Sequential (P : Property) : Prop where
  pure : ∀ {α : Type} (a : α), P α (pure a)
  throw : ∀ {α : Type} {d : Diagnostic}, d.category = .syntactic → P α (throw d)
  bind : ∀ {α β : Type} {p : Parse α} {f : α → Parse β}, P α p → (∀ a, P β (f a)) → P β (p >>= f)
  atEnd : P Bool (return (← get).stream.atEnd)
  current : P Token current
  peek : ∀ n, P Token (peek n)
  remaining : P Nat remaining
  advance : P Token advance

/-- **A compositional property:** a sequential one that is kept by the rules in which complaints are
reported. -/
class Compositional (P : Property) : Prop extends Sequential P where
  assignment : ∀ {expr : Power → Parse Expr} (left : Expr), (∀ m, Consuming (expr m)) →
    (∀ m, P Expr (expr m)) → P Expr (assignment expr left)
  block : ∀ {stmt : Parse Stmt}, P Stmt stmt → P Stmt (block stmt)
  functionDecl : ∀ {stmt : Parse Stmt}, P Stmt stmt → P Stmt (functionDecl stmt)

/-- **A recovering property:** a sequential one that reports have and recovery keeps. -/
class Recovering (P : Property) : Prop extends Sequential P where
  report : ∀ {d : Diagnostic}, d.category = .syntactic → P Unit (report d)
  recover : ∀ {stmt : Parse Stmt}, P Stmt stmt → P (Option Stmt) (recover stmt)

variable {α β : Type} {P : Property}

/-! ### Rules that report nothing -/

section Sequential

variable [Sequential P]

instance (a : α) : Has P (pure a : Parse α) := ⟨Sequential.pure a⟩

theorem Has.throw {d : Diagnostic} (hd : d.category = .syntactic) : Has P (throw d : Parse α) :=
  ⟨Sequential.throw hd⟩

theorem Has.bind {p : Parse α} {f : α → Parse β} (hp : Has P p) (hf : ∀ a, Has P (f a)) :
    Has P (p >>= f) := ⟨Sequential.bind hp.holds fun a => (hf a).holds⟩

instance (p : Parse α) (f : α → Parse β) [hp : Has P p] [hf : ∀ a, Has P (f a)] :
    Has P (p >>= f) := hp.bind hf

instance (f : α → β) (p : Parse α) [Has P p] : Has P (f <$> p) :=
  inferInstanceAs (Has P (p >>= fun a => pure (f a)))

instance (c : Prop) [Decidable c] (p q : Parse α) [Has P p] [Has P q] :
    Has P (if c then p else q) := by
  split_ifs <;> infer_instance

instance : Has P current := ⟨Sequential.current⟩

instance (n : Nat) : Has P (peek n) := ⟨Sequential.peek n⟩

instance : Has P remaining := ⟨Sequential.remaining⟩

instance : Has P advance := ⟨Sequential.advance⟩

instance (kind : Kind) : Has P (accept kind) := by unfold accept; infer_instance

instance (kind : Kind) (expected : String) : Has P (expect kind expected) := by
  have hthrow (t : Token) : Has P
      (throw ⟨.unexpectedToken expected t.describe, t.position⟩ : Parse Token) := .throw rfl
  unfold expect
  infer_instance

instance (t : Token) : Has P (noExpression t : Parse α) := .throw rfl

theorem Has.type {cause : String → Cause} (h : ∀ found, (cause found).category = .syntactic) :
    Has P (type cause) := by
  unfold Parse.type
  refine .bind inferInstance fun t => ?_
  split
  · infer_instance
  · exact .throw (h _)

instance : Has P (type declarationType) := .type fun _ => rfl

instance : Has P (type parameterType) := .type fun _ => rfl

instance : Has P primary := by
  have hbad (t : Token) : Has P (throw ⟨.badNumber t.value, t.position⟩ : Parse Expr) := .throw rfl
  unfold primary
  refine .bind inferInstance fun t => ?_
  split
  · split <;> infer_instance
  · split <;> infer_instance
  all_goals infer_instance

section Rules

variable (expr : Power → Parse Expr) [∀ m, Has P (expr m)]

instance : Has P (unary expr) := by
  unfold unary
  refine .bind inferInstance fun t => ?_
  split <;> infer_instance

instance : Has P (grouping expr) := by unfold grouping; infer_instance

instance (left : Expr) (power : Power) : Has P (binary expr left power) := by
  unfold binary
  refine .bind inferInstance fun t => ?_
  split <;> infer_instance

instance has_arguments : ∀ n, Has P (arguments expr n)
  | 0 => by unfold arguments; infer_instance
  | n + 1 => by
    have := has_arguments n
    unfold arguments
    infer_instance

instance (callee : Expr) : Has P (call expr callee) := by unfold call; infer_instance

instance (form : OperandForm) : Has P (operand expr form) := by
  cases form <;> unfold operand <;> infer_instance

end Rules

instance : Has P parameter := by unfold parameter; infer_instance

instance has_parameters : ∀ n, Has P (parameters n)
  | 0 => by unfold parameters; infer_instance
  | n + 1 => by
    have := has_parameters n
    unfold parameters
    infer_instance

/-- A block has the property if the loop over its statements has it. -/
theorem Has.blockBody {stmt : Parse Stmt} (h : ∀ n, Has P (statements (· = .closeCurly) stmt n)) :
    Has P (blockBody stmt) := by unfold Parse.blockBody; infer_instance

end Sequential

/-! ### Recovery -/

section Recovering

variable [Recovering P]

instance has_statements (stops : Kind → Bool) (stmt : Parse Stmt) [hstmt : Has P stmt] :
    ∀ n, Has P (statements stops stmt n)
  | 0 => by unfold statements; infer_instance
  | n + 1 => by
    have := has_statements stops stmt n
    have hend : Has P (return (← get).stream.atEnd : Parse Bool) := ⟨Sequential.atEnd⟩
    have hrecover : Has P (recover stmt) := ⟨Recovering.recover hstmt.holds⟩
    unfold statements
    show Has P ((return (← get).stream.atEnd) >>= fun atEnd => current >>= fun t =>
      if atEnd || stops t.kind then pure [] else recover stmt >>= _)
    refine .bind hend fun atEnd => .bind inferInstance fun t => ?_
    split_ifs
    · infer_instance
    · refine .bind hrecover fun v => ?_
      split <;> infer_instance

/-- **A recovering property is compositional.** -/
instance compositional_of_recovering : Compositional P where
  assignment {expr} left _ h := by
    have hexpr (m : Power) : Has P (expr m) := ⟨h m⟩
    have hreport (t : Token) : Has P (report ⟨.invalidAssignmentTarget, t.position⟩) :=
      ⟨Recovering.report rfl⟩
    have hassignment : Has P (assignment expr left) := by
      unfold assignment
      refine .bind inferInstance fun t => .bind inferInstance fun v => ?_
      split <;> infer_instance
    exact hassignment.holds
  block {stmt} h := by
    have hstmt : Has P stmt := ⟨h⟩
    have hbody : Has P (blockBody stmt) := .blockBody inferInstance
    have hblock : Has P (block stmt) := by unfold block; infer_instance
    exact hblock.holds
  functionDecl {stmt} h := by
    have hstmt : Has P stmt := ⟨h⟩
    have hbody : Has P (blockBody stmt) := .blockBody inferInstance
    have hfunction : Has P (functionDecl stmt) := by unfold functionDecl; infer_instance
    exact hfunction.holds

end Recovering

/-! ### All rules -/

section Compositional

variable [Compositional P]

section Rules

variable (expr : Power → Parse Expr) [hexpr : ∀ m, Has P (expr m)]
  [hreads : ∀ m, Consuming (expr m)]

instance (left : Expr) : Has P (assignment expr left) :=
  ⟨Compositional.assignment left hreads fun m => (hexpr m).holds⟩

instance (left : Expr) (power : Power) (form : OperatorForm) :
    Has P (operator expr left power form) := by
  cases form <;> unfold operator <;> infer_instance

instance has_operators (g : Grammar) (minimum : Power) :
    ∀ n left, Has P (operators expr g minimum n left)
  | 0, left => by unfold operators; infer_instance
  | n + 1, left => by
    have := has_operators g minimum n
    unfold operators
    refine .bind inferInstance fun t => ?_
    split <;> infer_instance

end Rules

instance has_exprWithin (g : Grammar) : ∀ n minimum, Has P (exprWithin g n minimum)
  | 0, _ => by unfold exprWithin; infer_instance
  | n + 1, minimum => by
    have := has_exprWithin g n
    unfold exprWithin
    refine .bind inferInstance fun t => ?_
    split <;> infer_instance

/-- **Every expression has the property.** -/
instance has_expr (g : Grammar) (minimum : Power) : Has P (expr g minimum) := by
  unfold expr; infer_instance

section Rules

variable (g : Grammar)

instance (kind : Kind) : Has P (exprUnless g kind) := by unfold exprUnless; infer_instance

instance : Has P (expressionStmt g) := by unfold expressionStmt; infer_instance

instance : Has P (variableDecl g) := by unfold variableDecl; infer_instance

instance : Has P (giveBack g) := by unfold giveBack; infer_instance

instance : Has P (print g) := by unfold print; infer_instance

instance : Has P (forInitial g) := by unfold forInitial; infer_instance

variable (stmt : Parse Stmt) [hstmt : Has P stmt]

instance : Has P (block stmt) := ⟨Compositional.block hstmt.holds⟩

instance : Has P (functionDecl stmt) := ⟨Compositional.functionDecl hstmt.holds⟩

instance : Has P (declarationStmt g stmt) := by unfold declarationStmt; infer_instance

instance : Has P (bodyStmt g stmt) := by unfold bodyStmt; infer_instance

instance : Has P (branch g stmt) := by unfold branch; infer_instance

instance : Has P (whileLoop g stmt) := by unfold whileLoop; infer_instance

instance : Has P (forLoop g stmt) := by unfold forLoop; infer_instance

instance (form : StatementForm) : Has P (statement g stmt form) := by
  cases form <;> unfold statement <;> infer_instance

end Rules

instance has_stmtWithin (g : Grammar) : ∀ n, Has P (stmtWithin g n)
  | 0 => by unfold stmtWithin; infer_instance
  | n + 1 => by
    have := has_stmtWithin g n
    unfold stmtWithin
    refine .bind inferInstance fun t => ?_
    split <;> infer_instance

/-- **Every statement has the property.** -/
instance has_stmt (g : Grammar) : Has P (stmt g) := by unfold stmt; infer_instance

end Compositional

/-- **Every program has a recovering property.** -/
instance has_program [Recovering P] (g : Grammar) : Has P (program g) := by
  unfold program; infer_instance

end Parse

end StackListing
