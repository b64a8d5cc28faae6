import Mathlib.Tactic.Common
import StackListing.Stmt.Check

/-!
# What inference does at one expression

Inference at an operation has three sources: the types and the complaints of the operands, the rule
of the operator, and an objection of its own if the rule is broken.  The equations `infer_unary` and
`infer_binary` say so, and an objection is never made about an operand without a type.

An expression for which inference finds no type has been complained about (`errors_ne_nil`), so
where there is no complaint there is a type.  What that says about the parts of the expression is
stated once for each form of expression (`infer_var_iff` and the lemmas behind it).  Nothing is
assumed of the symbol table.
-/

namespace StackListing

/-! ### Objections -/

/-- What an operator has to say about the type of its operand. -/
def UnaryOp.objection (op : UnaryOp) (position : Position) : Option ValueType → Diagnostics
  | none => []
  | some σ =>
    if (op.resultType? σ).isSome then [] else [⟨.invalidOperand op.symbol σ.name, position⟩]

/-- What an operator has to say about the types of its operands. -/
def BinaryOp.objection (op : BinaryOp) (position : Position) :
    Option ValueType → Option ValueType → Diagnostics
  | some σ, some τ =>
    if (op.resultType? σ τ).isSome then []
    else [⟨.invalidOperands op.symbol σ.name τ.name, position⟩]
  | _, _ => []

@[simp] theorem BinaryOp.objection_none_right (op : BinaryOp) (position : Position)
    (σ : Option ValueType) : op.objection position σ none = [] := by
  cases σ <;> rfl

/-- What a construct has to say about the type of its condition. -/
def conditionObjection (construct : String) (position : Position) :
    Option ValueType → Diagnostics
  | none => []
  | some σ => if σ = .bool then [] else [⟨.nonBooleanCondition construct σ.name, position⟩]

theorem Context.checkCondition_eq (c : Context) (construct : String) (e : Expr) :
    c.checkCondition construct e = (e.infer c.table).errors ++
      conditionObjection construct e.position (e.infer c.table).type? := by
  unfold checkCondition
  dsimp only
  cases (e.infer c.table).type? <;> rfl

theorem Inference.mismatch_some_eq_nil_iff {cause : String → String → Cause}
    {expected τ : ValueType} {position : Position} :
    mismatch cause expected position (some τ) = [] ↔ expected.accepts τ = true := by
  simp [mismatch]

namespace Expr

variable {t : SymbolTable} {ρ : ValueType} {position : Position}

theorem infer_unary (op : UnaryOp) (operand : Expr) : (unary op operand position).infer t =
    ⟨(operand.infer t).type?.bind op.resultType?,
      (operand.infer t).errors ++ op.objection position (operand.infer t).type?⟩ := by
  rw [infer]
  rcases operand.infer t with ⟨_ | σ, errors⟩
  · simp [UnaryOp.objection]
  · cases h : op.resultType? σ <;> simp [UnaryOp.objection, h]

theorem infer_binary (op : BinaryOp) (left right : Expr) : (binary op left right position).infer t =
    ⟨(left.infer t).type?.bind fun σ => (right.infer t).type?.bind fun τ => op.resultType? σ τ,
      (left.infer t).errors ++ (right.infer t).errors ++
        op.objection position (left.infer t).type? (right.infer t).type?⟩ := by
  rw [infer]
  rcases left.infer t with ⟨_ | σ, lerrors⟩
  · simp [BinaryOp.objection]
  · rcases right.infer t with ⟨_ | τ, rerrors⟩
    · simp
    · cases h : op.resultType? σ τ <;> simp [BinaryOp.objection, h]

/-! ### No type, no silence -/

/-- **An expression without a type has been complained about.** -/
theorem errors_ne_nil : ∀ e : Expr, (e.infer t).type? = none → (e.infer t).errors ≠ []
  | literal _ _, h => by cases h
  | var name position, h => by
    rw [infer] at h ⊢
    cases hs : t.lookup? name with
    | none => exact List.cons_ne_nil _ _
    | some s => simp [hs] at h
  | unary op operand position, h => by
    rw [infer_unary] at h ⊢
    cases hσ : (operand.infer t).type? with
    | none => simp [errors_ne_nil operand hσ]
    | some σ =>
      have hρ : op.resultType? σ = none := by simpa [hσ] using h
      simp [UnaryOp.objection, hρ]
  | binary op left right position, h => by
    rw [infer_binary] at h ⊢
    cases hσ : (left.infer t).type? with
    | none => simp [errors_ne_nil left hσ]
    | some σ =>
      cases hτ : (right.infer t).type? with
      | none => simp [errors_ne_nil right hτ]
      | some τ =>
        have hρ : op.resultType? σ τ = none := by simpa [hσ, hτ] using h
        simp [BinaryOp.objection, hρ]
  | call callee arguments position, h => by
    rw [infer] at h ⊢
    split
    · exact List.cons_ne_nil _ _
    · split
      · exact List.cons_ne_nil _ _
      · split_ifs
        · simp [*] at h
        · exact List.cons_ne_nil _ _
  | assign name value position, h => by
    rw [infer] at h ⊢
    split
    · exact List.cons_ne_nil _ _
    · simp [*] at h

/-- Where inference complains about nothing, it finds a type. -/
theorem exists_infer_eq {e : Expr} (h : (e.infer t).errors = []) :
    ∃ τ, e.infer t = ⟨some τ, []⟩ := by
  cases hτ : (e.infer t).type? with
  | none => exact absurd h (e.errors_ne_nil hτ)
  | some τ => exact ⟨τ, by rw [← hτ, ← h]⟩

/-! ### Expressions without complaints -/

theorem infer_var_iff {name : String} :
    (var name position).infer t = ⟨some ρ, []⟩ ↔ ∃ s, t.lookup? name = some s ∧ s.type = ρ := by
  rw [infer]
  cases t.lookup? name <;> simp [Inference.failure]

theorem infer_unary_iff {op : UnaryOp} {operand : Expr} :
    (unary op operand position).infer t = ⟨some ρ, []⟩ ↔
      ∃ σ, operand.infer t = ⟨some σ, []⟩ ∧ op.resultType? σ = some ρ := by
  rw [infer_unary]
  rcases operand.infer t with ⟨_ | σ, errors⟩
  · simp
  · cases hρ : op.resultType? σ <;> simp [UnaryOp.objection, hρ, and_comm]

theorem infer_binary_iff {op : BinaryOp} {left right : Expr} :
    (binary op left right position).infer t = ⟨some ρ, []⟩ ↔
      ∃ σ τ, left.infer t = ⟨some σ, []⟩ ∧ right.infer t = ⟨some τ, []⟩ ∧
        op.resultType? σ τ = some ρ := by
  rw [infer_binary]
  rcases left.infer t with ⟨_ | σ, lerrors⟩
  · simp
  · rcases right.infer t with ⟨_ | τ, rerrors⟩
    · simp
    · cases hρ : op.resultType? σ τ <;>
        simp [BinaryOp.objection, hρ, and_assoc, and_left_comm, and_comm]

theorem infer_call_iff {callee : Expr} {arguments : List Expr} :
    (call callee arguments position).infer t = ⟨some ρ, []⟩ ↔
      ∃ name s, callee.name? = some name ∧ t.lookup? name = some s ∧ s.role = .function ∧
        s.type = ρ ∧ inferAll t arguments = [] := by
  rw [infer]
  cases callee.name? with
  | none => simp [Inference.failure]
  | some name =>
    cases hs : t.lookup? name with
    | none => simp [hs, Inference.failure]
    | some s => by_cases hrole : s.role = .function <;> simp [hs, hrole, Inference.failure]

theorem infer_assign_iff {name : String} {value : Expr} :
    (assign name value position).infer t = ⟨some ρ, []⟩ ↔
      ∃ s σ, t.lookup? name = some s ∧ s.type = ρ ∧ value.infer t = ⟨some σ, []⟩ ∧
        ρ.accepts σ = true := by
  rw [infer]
  cases hs : t.lookup? name with
  | none => simp [Inference.failure]
  | some s =>
    constructor
    · intro h
      simp only [Inference.mk.injEq, Option.some.injEq, List.append_eq_nil_iff] at h
      obtain ⟨rfl, herrors, hmismatch⟩ := h
      obtain ⟨σ, hσ⟩ := exists_infer_eq herrors
      rw [hσ] at hmismatch
      exact ⟨s, σ, rfl, rfl, hσ, Inference.mismatch_some_eq_nil_iff.mp hmismatch⟩
    · rintro ⟨s', σ, hs', rfl, hσ, haccepts⟩
      cases hs'
      simp [hσ, Inference.mismatch_some_eq_nil_iff, haccepts]

theorem inferAll_eq_nil_iff {es : List Expr} :
    inferAll t es = [] ↔ ∀ e ∈ es, ∃ τ, e.infer t = ⟨some τ, []⟩ := by
  rw [inferAll_eq_flatMap, List.flatMap_eq_nil_iff]
  refine forall₂_congr fun e _ => ⟨exists_infer_eq, ?_⟩
  rintro ⟨τ, h⟩
  rw [h]

end Expr

end StackListing
