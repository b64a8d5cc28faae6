import StackListing.Proofs.Typing.Inversion

/-!
# Who complains

Every complaint of the checker is made by one node of the program: an expression, a statement or a
parameter.  What a node says itself, apart from what is said about the nodes inside it, follows from
the types that were found for its operands (`Expr.own`, `Stmt.own`), and the nodes that checking
gets to are listed in the order in which they have their say, with the context that each finds
(`visits`).  The complaints about a program are what these nodes say, one after the other
(`Stmt.errors_check`).

Complaints do not cascade: a node says at most one thing, and it says nothing about types if an
operand that it judges has none.  An operand without a type has been complained about already
(`Expr.errors_ne_nil`).
-/

namespace StackListing

/-! ### Nodes -/

/-- A node of a program. -/
inductive Node where
  | expr (e : Expr)
  | stmt (s : Stmt)
  | parameter (p : Parameter)

namespace Node

/-- The expressions whose types the node judges.  The callee and the arguments of a call are not
judged, and neither is the value of a statement that only evaluates it. -/
def operands : Node → List Expr
  | expr (.unary _ operand _) => [operand]
  | expr (.binary _ left right _) => [left, right]
  | expr (.assign _ value _) => [value]
  | expr (.literal _ _) | expr (.var _ _) | expr (.call _ _ _) => []
  | stmt (.variableDecl _ _ initial _) => initial.toList
  | stmt (.branch condition _ _ _) => [condition]
  | stmt (.whileLoop condition _ _) => [condition]
  | stmt (.forLoop _ condition _ _ _) => condition.toList
  | stmt (.giveBack value _) => value.toList
  | stmt (.expr _) | stmt (.block _ _) | stmt (.functionDecl _ _ _ _ _ _) | stmt (.print _ _) => []
  | parameter _ => []

/-- The place that complaints of the node are charged to.  A construct points at its condition. -/
def place : Node → Position
  | expr e => e.position
  | stmt (.branch condition _ _ _) => condition.position
  | stmt (.whileLoop condition _ _) => condition.position
  | stmt (.forLoop _ (some condition) _ _ _) => condition.position
  | stmt s => s.position
  | parameter p => p.position

end Node

namespace Expr

mutual

/-- The nodes of an expression, the operands before the operation. -/
def nodes : Expr → List Node
  | literal value p => [.expr (literal value p)]
  | var name p => [.expr (var name p)]
  | unary op operand p => nodes operand ++ [.expr (unary op operand p)]
  | binary op left right p => nodes left ++ nodes right ++ [.expr (binary op left right p)]
  | call callee arguments p =>
    nodes callee ++ nodesAll arguments ++ [.expr (call callee arguments p)]
  | assign name value p => nodes value ++ [.expr (assign name value p)]

@[inherit_doc nodes]
def nodesAll : List Expr → List Node
  | [] => []
  | e :: es => nodes e ++ nodesAll es

end

@[inherit_doc nodes]
def nodesOption : Option Expr → List Node
  | none => []
  | some e => e.nodes

end Expr

namespace Stmt

mutual

/-- The nodes of a statement.  A construct with a condition stands behind the condition, a function
before its parameters, and any other statement behind what is in it. -/
def nodes : Stmt → List Node
  | expr e => e.nodes ++ [.stmt (expr e)]
  | variableDecl type name initial p =>
    Expr.nodesOption initial ++ [.stmt (variableDecl type name initial p)]
  | block body p => nodesAll body ++ [.stmt (block body p)]
  | branch c yes no p => c.nodes ++ .stmt (branch c yes no p) :: (nodes yes ++ nodesOption no)
  | whileLoop c body p => c.nodes ++ .stmt (whileLoop c body p) :: nodes body
  | forLoop initial c i body p =>
    nodesOption initial ++ (Expr.nodesOption c ++
      .stmt (forLoop initial c i body p) :: (Expr.nodesOption i ++ nodes body))
  | giveBack value p => Expr.nodesOption value ++ [.stmt (giveBack value p)]
  | functionDecl result name ps body b p =>
    .stmt (functionDecl result name ps body b p) :: (ps.map .parameter ++ nodesAll body)
  | print e p => e.nodes ++ [.stmt (print e p)]

@[inherit_doc nodes]
def nodesAll : List Stmt → List Node
  | [] => []
  | s :: rest => nodes s ++ nodesAll rest

@[inherit_doc nodes]
def nodesOption : Option Stmt → List Node
  | none => []
  | some s => nodes s

end

end Stmt

/-- **The nodes of a program.** -/
def Program.nodes (p : Program) : List Node := Stmt.nodesAll p.statements

/-! ### What a node says -/

/-- What an expression says itself, given the types of its operands. -/
def Expr.own (t : SymbolTable) : Expr → Diagnostics
  | literal _ _ => []
  | var name p => if (t.lookup? name).isSome then [] else [⟨.variableNotDeclared name, p⟩]
  | unary op operand p => op.objection p (operand.infer t).type?
  | binary op left right p => op.objection p (left.infer t).type? (right.infer t).type?
  | call callee _ p =>
    match callee.name? with
    | none => [⟨.calleeNotCallable, p⟩]
    | some name =>
      match t.lookup? name with
      | none => [⟨.functionNotFound name, p⟩]
      | some s => if s.role = .function then [] else [⟨.notAFunction name, p⟩]
  | assign name value p =>
    match t.lookup? name with
    | none => [⟨.variableNotDeclared name, p⟩]
    | some s => Inference.mismatch .typeMismatch s.type p (value.infer t).type?

/-- What a return statement says itself. -/
def Context.returnObjection (c : Context) (position : Position) (value : Option Expr) :
    Diagnostics :=
  if c.inFunction then
    match c.result?, value with
    | none, _ => []
    | some type, none => [⟨.missingReturnValue type.name, position⟩]
    | some type, some e =>
      Inference.mismatch .returnTypeMismatch type position (e.infer c.table).type?
  else [⟨.returnOutsideFunction, position⟩]

/-- What a statement says itself, given the types of the expressions that it judges. -/
def Stmt.own (c : Context) : Stmt → Diagnostics
  | expr _ | print _ _ | block _ _ => []
  | variableDecl type name initial p =>
    if c.table.definedHere name then [SymbolTable.redeclared .var name p]
    else
      Inference.mismatch .typeMismatch type p (initial.bind fun e => (e.infer c.table).type?) ++
        (c.declare name type .var p).errors
  | branch e _ _ _ => conditionObjection "If" e.position (e.infer c.table).type?
  | whileLoop e _ _ => conditionObjection "While" e.position (e.infer c.table).type?
  | forLoop _ none _ _ _ => []
  | forLoop _ (some e) _ _ _ => conditionObjection "For" e.position (e.infer c.table).type?
  | giveBack value p => c.returnObjection p value
  | functionDecl result name _ _ _ p =>
    if c.table.definedHere name then [SymbolTable.redeclared .function name p]
    else (c.declare name result .function p).errors

/-- A node that checking gets to, and the context that it finds there. -/
structure Visit where
  context : Context
  node : Node

/-- **What the node says** in the context. -/
def Visit.reports (v : Visit) : Diagnostics :=
  match v.node with
  | .expr e => e.own v.context.table
  | .stmt s => s.own v.context
  | .parameter p => (v.context.declare p.name p.type .parameter p.position).errors

/-! ### The nodes that checking gets to -/

namespace Expr

/-- Whether the expression is the name of a function. -/
def namesFunction (t : SymbolTable) (e : Expr) : Bool :=
  (e.name?.bind t.lookup?).any fun s => s.role = .function

mutual

/-- The nodes that inference gets to, in the order in which they have their say.  It does not get to
the arguments of what is no function, and to the value for an unknown variable. -/
def visits (c : Context) : Expr → List Visit
  | literal value p => [⟨c, .expr (literal value p)⟩]
  | var name p => [⟨c, .expr (var name p)⟩]
  | unary op operand p => visits c operand ++ [⟨c, .expr (unary op operand p)⟩]
  | binary op left right p =>
    visits c left ++ visits c right ++ [⟨c, .expr (binary op left right p)⟩]
  | call callee arguments p =>
    (if callee.namesFunction c.table then visitsAll c arguments else []) ++
      [⟨c, .expr (call callee arguments p)⟩]
  | assign name value p =>
    (if (c.table.lookup? name).isSome then visits c value else []) ++
      [⟨c, .expr (assign name value p)⟩]

@[inherit_doc visits]
def visitsAll (c : Context) : List Expr → List Visit
  | [] => []
  | e :: es => visits c e ++ visitsAll c es

end

@[inherit_doc visits]
def visitsOption (c : Context) : Option Expr → List Visit
  | none => []
  | some e => visits c e

end Expr

/-- Parameters, each in the context that the ones before it leave. -/
def Parameter.visits (c : Context) : List Parameter → List Visit
  | [] => []
  | p :: ps =>
    ⟨c, .parameter p⟩ :: visits (c.declare p.name p.type .parameter p.position).context ps

namespace Stmt

mutual

/-- The nodes that checking gets to, in the order in which they have their say.  It does not get
into a declaration of a name that is taken, and not to what is given back outside functions. -/
def visits (c : Context) : Stmt → List Visit
  | expr e => e.visits c ++ [⟨c, .stmt (expr e)⟩]
  | print e p => e.visits c ++ [⟨c, .stmt (print e p)⟩]
  | giveBack value p =>
    (if c.inFunction then Expr.visitsOption c value else []) ++ [⟨c, .stmt (giveBack value p)⟩]
  | variableDecl type name initial p =>
    (if c.table.definedHere name then [] else Expr.visitsOption c initial) ++
      [⟨c, .stmt (variableDecl type name initial p)⟩]
  | block body p => visitsAll c.enter body ++ [⟨c, .stmt (block body p)⟩]
  | branch e yes no p =>
    e.visits c ++ ⟨c, .stmt (branch e yes no p)⟩ ::
      (visits c yes ++ visitsOption (yes.check c).context no)
  | whileLoop e body p => e.visits c ++ ⟨c, .stmt (whileLoop e body p)⟩ :: visits c body
  | forLoop initial e i body p =>
    let header := (checkOption c.enter initial).context
    visitsOption c.enter initial ++ (Expr.visitsOption header e ++
      ⟨header, .stmt (forLoop initial e i body p)⟩ ::
        (Expr.visitsOption header i ++ visits header body))
  | functionDecl result name ps body b p =>
    ⟨c, .stmt (functionDecl result name ps body b p)⟩ ::
      if c.table.definedHere name then []
      else
        let function := (c.declare name result .function p).context.enterFunction result
        Parameter.visits function ps ++ visitsAll (function.declareAll ps).context.enter body

@[inherit_doc visits]
def visitsAll (c : Context) : List Stmt → List Visit
  | [] => []
  | s :: rest => visits c s ++ visitsAll (s.check c).context rest

@[inherit_doc visits]
def visitsOption (c : Context) : Option Stmt → List Visit
  | none => []
  | some s => visits c s

end

end Stmt

/-- **The nodes of a program that checking gets to.** -/
def Program.visits (p : Program) : List Visit := Stmt.visitsAll .empty p.statements

/-! ### The complaints are what the nodes say -/

namespace Expr

variable (c : Context)

mutual

/-- **The complaints about an expression are what its nodes say.** -/
theorem errors_infer : ∀ e : Expr,
    (e.infer c.table).errors = (e.visits c).flatMap Visit.reports
  | literal _ _ => rfl
  | var name p => by
    rw [infer]
    cases hs : c.table.lookup? name <;> simp [visits, Visit.reports, own, hs, Inference.failure]
  | unary op operand p => by
    rw [infer_unary, errors_infer operand]
    simp [visits, Visit.reports, own]
  | binary op left right p => by
    rw [infer_binary, errors_infer left, errors_infer right]
    simp [visits, Visit.reports, own]
  | call callee arguments p => by
    have ha := errors_inferAll arguments
    rw [infer]
    cases hname : callee.name? with
    | none => simp [visits, Visit.reports, own, namesFunction, hname, Inference.failure]
    | some name =>
      cases hs : c.table.lookup? name with
      | none => simp [visits, Visit.reports, own, namesFunction, hname, hs, Inference.failure]
      | some s =>
        by_cases hrole : s.role = .function
        · simp [visits, Visit.reports, own, namesFunction, hname, hs, hrole, ha]
        · simp [visits, Visit.reports, own, namesFunction, hname, hs, hrole, Inference.failure]
  | assign name value p => by
    have ih := errors_infer value
    rw [infer]
    cases hs : c.table.lookup? name with
    | none => simp [visits, Visit.reports, own, hs, Inference.failure]
    | some s => simp [visits, Visit.reports, own, hs, ih]

theorem errors_inferAll : ∀ es : List Expr,
    inferAll c.table es = (visitsAll c es).flatMap Visit.reports
  | [] => rfl
  | e :: es => by rw [inferAll, visitsAll, errors_infer e, errors_inferAll es, List.flatMap_append]

end

theorem errors_checkValue (e : Option Expr) :
    c.checkValue e = (visitsOption c e).flatMap Visit.reports := by
  cases e with
  | none => rfl
  | some e => exact errors_infer c e

end Expr

theorem Parameter.errors_declareAll (c : Context) (ps : List Parameter) :
    (c.declareAll ps).errors = (Parameter.visits c ps).flatMap Visit.reports := by
  induction ps generalizing c with
  | nil => rfl
  | cons p ps ih => rw [Context.declareAll, visits, List.flatMap_cons, ← ih]; rfl

namespace Stmt

mutual

/-- **The complaints about a statement are what its nodes say.** -/
theorem errors_check : ∀ (s : Stmt) (c : Context),
    (s.check c).errors = (s.visits c).flatMap Visit.reports
  | expr e, c => by simp [check, visits, Visit.reports, own, e.errors_infer]
  | print e p, c => by simp [check, visits, Visit.reports, own, e.errors_infer]
  | giveBack value p, c => by
    have hown : c.checkGiveBack p value =
        (if c.inFunction then c.checkValue value else []) ++ c.returnObjection p value := by
      unfold Context.checkGiveBack Context.returnObjection Context.checkValue
      split_ifs
      · cases value <;> cases c.result? <;> simp
      · rfl
    rw [check, hown, Expr.errors_checkValue]
    split_ifs with h <;> simp [visits, Visit.reports, own, h]
  | variableDecl type name initial p, c => by
    rw [check]
    split_ifs with h
    · simp [visits, Visit.reports, own, h]
    · cases initial <;>
        simp [visits, Visit.reports, own, h, Context.checkInitial, Expr.visitsOption,
          Expr.errors_infer, Inference.mismatch]
  | block body p, c => by
    rw [check, visits, List.flatMap_append, ← errors_checkAll body c.enter]
    simp [Visit.reports, own]
  | branch e yes no p, c => by
    rw [check, visits, Context.checkCondition_eq, errors_check yes, errors_checkOption no,
      e.errors_infer]
    simp [Visit.reports, own]
  | whileLoop e body p, c => by
    rw [check, visits, Context.checkCondition_eq, errors_check body, e.errors_infer]
    simp [Visit.reports, own]
  | forLoop initial e i body p, c => by
    rw [check, visits, errors_checkOption initial, errors_check body]
    unfold Context.checkHeader
    rw [Expr.errors_checkValue]
    cases e with
    | none => simp [Visit.reports, own, Expr.visitsOption]
    | some e =>
      dsimp only
      rw [Context.checkCondition_eq, e.errors_infer]
      simp [Visit.reports, own, Expr.visitsOption]
  | functionDecl result name ps body b p, c => by
    rw [check]
    split_ifs with h
    · simp [visits, Visit.reports, own, h]
    · simp only [errors_checkAll body, Parameter.errors_declareAll]
      simp [visits, Visit.reports, own, h]

theorem errors_checkAll : ∀ (ss : List Stmt) (c : Context),
    (checkAll c ss).errors = (visitsAll c ss).flatMap Visit.reports
  | [], _ => rfl
  | s :: rest, c => by
    rw [checkAll, visitsAll, errors_check s, errors_checkAll rest, List.flatMap_append]

theorem errors_checkOption : ∀ (s : Option Stmt) (c : Context),
    (checkOption c s).errors = (visitsOption c s).flatMap Visit.reports
  | none, _ => rfl
  | some s, c => errors_check s c

end

end Stmt

/-! ### Every node is visited at most once -/

namespace Expr

variable (c : Context)

mutual

theorem visits_sublist : ∀ e : Expr, ((e.visits c).map Visit.node).Sublist e.nodes
  | literal _ _ => .refl _
  | var _ _ => .refl _
  | unary op operand p => by
    rw [visits, nodes, List.map_append]
    exact (visits_sublist operand).append (.refl _)
  | binary op left right p => by
    rw [visits, nodes, List.map_append, List.map_append]
    exact ((visits_sublist left).append (visits_sublist right)).append (.refl _)
  | call callee arguments p => by
    have ha := visitsAll_sublist arguments
    rw [visits, nodes, List.map_append]
    refine List.Sublist.append ?_ (.refl _)
    split_ifs
    · exact ha.trans (List.sublist_append_right _ _)
    · exact List.nil_sublist _
  | assign name value p => by
    have ih := visits_sublist value
    rw [visits, nodes, List.map_append]
    refine List.Sublist.append ?_ (.refl _)
    split_ifs
    · exact ih
    · exact List.nil_sublist _

theorem visitsAll_sublist : ∀ es : List Expr,
    ((visitsAll c es).map Visit.node).Sublist (nodesAll es)
  | [] => .refl _
  | e :: es => by
    rw [visitsAll, nodesAll, List.map_append]
    exact (visits_sublist e).append (visitsAll_sublist es)

end

theorem visitsOption_sublist (e : Option Expr) :
    ((visitsOption c e).map Visit.node).Sublist (nodesOption e) := by
  cases e with
  | none => exact .refl _
  | some e => exact visits_sublist c e

end Expr

theorem Parameter.visits_sublist (c : Context) (ps : List Parameter) :
    ((Parameter.visits c ps).map Visit.node).Sublist (ps.map Node.parameter) := by
  induction ps generalizing c with
  | nil => exact .refl _
  | cons p ps ih => exact (ih _).cons_cons _

namespace Stmt

mutual

/-- **Checking gets to every node at most once,** and in their order. -/
theorem visits_sublist : ∀ (s : Stmt) (c : Context),
    ((s.visits c).map Visit.node).Sublist s.nodes
  | expr e, c => by
    rw [visits, nodes, List.map_append]
    exact (e.visits_sublist c).append (.refl _)
  | print e p, c => by
    rw [visits, nodes, List.map_append]
    exact (e.visits_sublist c).append (.refl _)
  | giveBack value p, c => by
    rw [visits, nodes, List.map_append]
    refine List.Sublist.append ?_ (.refl _)
    split_ifs
    · exact Expr.visitsOption_sublist c value
    · exact List.nil_sublist _
  | variableDecl type name initial p, c => by
    rw [visits, nodes, List.map_append]
    refine List.Sublist.append ?_ (.refl _)
    split_ifs
    · exact List.nil_sublist _
    · exact Expr.visitsOption_sublist c initial
  | block body p, c => by
    rw [visits, nodes, List.map_append]
    exact (visitsAll_sublist body c.enter).append (.refl _)
  | branch e yes no p, c => by
    rw [visits, nodes, List.map_append, List.map_cons, List.map_append]
    exact (e.visits_sublist c).append
      (((visits_sublist yes c).append (visitsOption_sublist no _)).cons_cons _)
  | whileLoop e body p, c => by
    rw [visits, nodes, List.map_append, List.map_cons]
    exact (e.visits_sublist c).append ((visits_sublist body c).cons_cons _)
  | forLoop initial e i body p, c => by
    rw [visits, nodes, List.map_append, List.map_append, List.map_cons, List.map_append]
    exact (visitsOption_sublist initial _).append ((Expr.visitsOption_sublist _ e).append
      (((Expr.visitsOption_sublist _ i).append (visits_sublist body _)).cons_cons _))
  | functionDecl result name ps body b p, c => by
    rw [visits, nodes, List.map_cons]
    refine List.Sublist.cons_cons _ ?_
    split_ifs
    · exact List.nil_sublist _
    · rw [List.map_append]
      exact (Parameter.visits_sublist _ ps).append (visitsAll_sublist body _)

theorem visitsAll_sublist : ∀ (ss : List Stmt) (c : Context),
    ((visitsAll c ss).map Visit.node).Sublist (nodesAll ss)
  | [], _ => .refl _
  | s :: rest, c => by
    rw [visitsAll, nodesAll, List.map_append]
    exact (visits_sublist s c).append (visitsAll_sublist rest _)

theorem visitsOption_sublist : ∀ (s : Option Stmt) (c : Context),
    ((visitsOption c s).map Visit.node).Sublist (nodesOption s)
  | none, _ => .refl _
  | some s, c => visits_sublist s c

end

end Stmt

/-! ### One complaint at most -/

/-- At most one complaint, charged to the place; and if it is about types, then all the given types
are there. -/
structure Diagnostics.Restrained (place : Position) (types : List (Option ValueType))
    (ds : Diagnostics) : Prop where
  length_le : ds.length ≤ 1
  position_eq : ∀ d ∈ ds, d.position = place
  typed : ∀ d ∈ ds, d.category = .typing → ∀ τ ∈ types, τ.isSome

namespace Diagnostics.Restrained

variable {place : Position} {types : List (Option ValueType)}

theorem nil : Restrained place types [] := ⟨Nat.zero_le 1, nofun, nofun⟩

/-- A complaint that is not about types. -/
theorem untyped {cause : Cause} (h : cause.category ≠ .typing) :
    Restrained place types [⟨cause, place⟩] := by
  refine ⟨Nat.le.refl, fun d hd => ?_, fun d hd hcategory => ?_⟩
  · rw [List.mem_singleton.mp hd]
  · rw [List.mem_singleton.mp hd] at hcategory
    exact absurd hcategory h

/-- A complaint about types that are there. -/
theorem typing (cause : Cause) (h : ∀ τ ∈ types, τ.isSome) :
    Restrained place types [⟨cause, place⟩] := by
  refine ⟨Nat.le.refl, fun d hd => ?_, fun _ _ _ => h⟩
  rw [List.mem_singleton.mp hd]

theorem ite {p : Prop} [Decidable p] {ds es : Diagnostics} (hds : Restrained place types ds)
    (hes : Restrained place types es) : Restrained place types (if p then ds else es) := by
  split_ifs
  · exact hds
  · exact hes

end Diagnostics.Restrained

open Diagnostics (Restrained)

theorem UnaryOp.restrained_objection (op : UnaryOp) (p : Position) (σ : Option ValueType) :
    Restrained p [σ] (op.objection p σ) := by
  cases σ with
  | none => exact .nil
  | some σ => exact .ite .nil (.typing _ (by simp))

theorem BinaryOp.restrained_objection (op : BinaryOp) (p : Position) (σ τ : Option ValueType) :
    Restrained p [σ, τ] (op.objection p σ τ) := by
  cases σ with
  | none => exact .nil
  | some σ =>
    cases τ with
    | none => exact .nil
    | some τ => exact .ite .nil (.typing _ (by simp))

theorem restrained_conditionObjection (construct : String) (p : Position) (σ : Option ValueType) :
    Restrained p [σ] (conditionObjection construct p σ) := by
  cases σ with
  | none => exact .nil
  | some σ => exact .ite .nil (.typing _ (by simp))

theorem Inference.restrained_mismatch (cause : String → String → Cause) (expected : ValueType)
    (p : Position) (σ : Option ValueType) : Restrained p [σ] (mismatch cause expected p σ) := by
  cases σ with
  | none => exact .nil
  | some σ => exact .ite .nil (.typing _ (by simp))

theorem Context.restrained_declare (c : Context) (name : String) (type : ValueType) (role : Role)
    (p : Position) : Restrained p [] (c.declare name type role p).errors := by
  unfold declare SymbolTable.declare
  cases c.table.definedHere name with
  | true => exact .untyped (by simp [Cause.category])
  | false => exact .nil

/-- A name that its scope does not have is declared without a complaint. -/
theorem Context.errors_declare {c : Context} {name : String} (h : ¬ c.table.definedHere name = true)
    (type : ValueType) (role : Role) (p : Position) : (c.declare name type role p).errors = [] := by
  unfold declare SymbolTable.declare
  rw [if_neg h]

/-- The types that inference finds for what a node judges. -/
def Node.types (t : SymbolTable) (n : Node) : List (Option ValueType) :=
  n.operands.map fun e => (e.infer t).type?

theorem Expr.restrained_own (t : SymbolTable) (e : Expr) :
    Restrained e.position ((Node.expr e).types t) (e.own t) := by
  cases e with
  | literal value p => exact .nil
  | var name p => exact .ite .nil (.untyped (by simp [Cause.category]))
  | unary op operand p => exact op.restrained_objection p _
  | binary op left right p => exact op.restrained_objection p _ _
  | call callee arguments p =>
    rw [own]
    split
    · exact .untyped (by simp [Cause.category])
    · split
      · exact .untyped (by simp [Cause.category])
      · exact .ite .nil (.untyped (by simp [Cause.category]))
  | assign name value p =>
    rw [own]
    split
    · exact .untyped (by simp [Cause.category])
    · exact Inference.restrained_mismatch _ _ p _

theorem Stmt.restrained_own (c : Context) (s : Stmt) :
    Restrained (Node.stmt s).place ((Node.stmt s).types c.table) (s.own c) := by
  cases s with
  | expr e => exact .nil
  | print e p => exact .nil
  | block body p => exact .nil
  | branch e yes no p => exact restrained_conditionObjection "If" e.position _
  | whileLoop e body p => exact restrained_conditionObjection "While" e.position _
  | forLoop initial e i body p =>
    cases e with
    | none => exact .nil
    | some e => exact restrained_conditionObjection "For" e.position _
  | variableDecl type name initial p =>
    rw [own]
    split_ifs with h
    · exact .untyped (by simp [Cause.category])
    · rw [Context.errors_declare h, List.append_nil]
      cases initial with
      | none => exact .nil
      | some e => exact Inference.restrained_mismatch _ type p _
  | giveBack value p =>
    rw [own, Context.returnObjection.eq_def]
    split_ifs
    · split
      · exact .nil
      · exact .typing _ nofun
      · exact Inference.restrained_mismatch _ _ p _
    · exact .untyped (by simp [Cause.category])
  | functionDecl result name ps body b p =>
    rw [own]
    split_ifs with h
    · exact .untyped (by simp [Cause.category])
    · rw [Context.errors_declare h]
      exact .nil

/-- **A node says at most one thing,** and nothing about types unless its operands have some. -/
theorem Visit.restrained_reports (v : Visit) :
    Restrained v.node.place (v.node.types v.context.table) v.reports := by
  obtain ⟨c, e | s | p⟩ := v
  · exact e.restrained_own c.table
  · exact s.restrained_own c
  · exact c.restrained_declare p.name p.type .parameter p.position

theorem length_flatMap_reports_le (vs : List Visit) :
    (vs.flatMap Visit.reports).length ≤ vs.length := by
  induction vs with
  | nil => exact Nat.le.refl
  | cons v vs ih =>
    have hv := v.restrained_reports.length_le
    rw [List.flatMap_cons, List.length_append, List.length_cons]
    omega

/-- **Complaints do not cascade.**  An expression is left without a type only if it has been
complained about.  In a program, the complaints are what the nodes say that checking gets to, one
after the other; it gets to every node at most once, a node says at most one thing, at its own
place, and it says nothing about types unless all the operands that it judges have types.  So there
are at most as many complaints as nodes. -/
theorem check_restrained :
    (∀ (t : SymbolTable) (e : Expr), (e.infer t).type? = none → (e.infer t).errors ≠ []) ∧
    ∀ p : Program,
      p.check = p.visits.flatMap Visit.reports ∧
      (p.visits.map Visit.node).Sublist p.nodes ∧
      (∀ v ∈ p.visits, v.reports.length ≤ 1 ∧ ∀ d ∈ v.reports, d.position = v.node.place ∧
        (d.category = .typing →
          ∀ e ∈ v.node.operands, (e.infer v.context.table).type?.isSome)) ∧
      p.check.length ≤ p.nodes.length := by
  refine ⟨fun t => Expr.errors_ne_nil, fun p => ?_⟩
  have hcheck : p.check = p.visits.flatMap Visit.reports :=
    Stmt.errors_checkAll p.statements .empty
  have hvisits : (p.visits.map Visit.node).Sublist p.nodes :=
    Stmt.visitsAll_sublist p.statements .empty
  refine ⟨hcheck, hvisits, fun v _ => ?_, ?_⟩
  · obtain ⟨hlength, hplace, htyped⟩ := v.restrained_reports
    refine ⟨hlength, fun d hd => ⟨hplace d hd, fun hcategory e he => ?_⟩⟩
    exact htyped d hd hcategory _ (List.mem_map_of_mem he)
  · calc p.check.length
        ≤ p.visits.length := by rw [hcheck]; exact length_flatMap_reports_le p.visits
      _ = (p.visits.map Visit.node).length := (List.length_map _).symm
      _ ≤ p.nodes.length := hvisits.length_le

end StackListing
