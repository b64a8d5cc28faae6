import StackListing.Proofs.Execution.ExprCode
import StackListing.Proofs.Printing.Parts
import StackListing.Proofs.Typing.Inversion

/-!
# Truth values in cells

Code knows no types: it combines the bits of its operands for `&&` and `||`, which is the logical
operation only if both cells are zero or one.  Inference knows nothing of cells.  Together they keep
an invariant: as long as every name of type `bool` has a truth value in its cell
(`SymbolTable.Truthful`), an expression that inference finds to be of type `bool` has a truth value,
and evaluating any expression without complaints keeps the invariant, assignments inside operands
included.

`Expr.evalLogical` is the evaluation in which `&&` and `||` are the operations on truth values, and
have no value on other cells.  `Evaluation.Agrees` compares the two evaluations part by part.
-/

namespace StackListing

/-! ### Logical operators -/

/-- The truth value in a cell, if there is one. -/
def truth? (v : Cell) : Except Trap Bool :=
  if v = truth true then .ok true
  else if v = truth false then .ok false
  else .error .unsupported

/-- The value of a binary operator, where `&&` and `||` are the operations on truth values and have
no value on cells without them. -/
def BinaryOp.applyLogical (op : BinaryOp) (a b : Cell) : Except Trap Cell :=
  match op with
  | .and => do return truth ((← truth? a) && (← truth? b))
  | .or => do return truth ((← truth? a) || (← truth? b))
  | op => op.apply a b

namespace Expr

mutual

/-- **The value of an expression with logical operators.** -/
def evalLogical (env : Environment) : Expr → Evaluation Cell
  | literal value _ => value.value
  | var name _ => do return (← get).memory name
  | unary op operand _ => do return op.apply (← evalLogical env operand)
  | binary op left right _ => do
    let a ← evalLogical env left
    let b ← evalLogical env right
    op.applyLogical a b
  | call callee arguments _ =>
    match callee.name? with
    | none => throw .unsupported
    | some name => do
      let vs ← evalLogicalAll env arguments
      modifyGet (env.answer name vs)
  | assign name value _ => do
    let v ← evalLogical env value
    modify (·.assign name v)
    return v

@[inherit_doc evalAll]
def evalLogicalAll (env : Environment) : List Expr → Evaluation (List Cell)
  | [] => return []
  | e :: es => do
    let vs ← evalLogicalAll env es
    let v ← evalLogical env e
    return v :: vs

end

end Expr

/-! ### The invariant -/

/-- The cell is one that a value of the type can have: for `bool`, a truth value. -/
def ValueType.Fits (τ : ValueType) (v : Cell) : Prop := τ = .bool → ∃ b, v = truth b

/-- **Every name of type `bool` has a truth value.** -/
def SymbolTable.Truthful (t : SymbolTable) (memory : Memory) : Prop :=
  ∀ name s, t.lookup? name = some s → s.type.Fits (memory name)

/-- Calls keep the truth values of names, and functions of type `bool` give truth values back. -/
def Environment.Truthful (env : Environment) (t : SymbolTable) : Prop :=
  ∀ name s, t.lookup? name = some s → s.role = .function → ∀ arguments σ, t.Truthful σ.memory →
    s.type.Fits (env.answer name arguments σ).1 ∧ t.Truthful (env.answer name arguments σ).2.memory

theorem ValueType.fits_truth (τ : ValueType) (b : Bool) : τ.Fits (truth b) := fun _ => ⟨b, rfl⟩

theorem ValueType.fits_of_ne {τ : ValueType} (h : τ ≠ .bool) (v : Cell) : τ.Fits v :=
  fun hτ => absurd hτ h

/-- A value for a variable of type `bool` is itself of type `bool`. -/
theorem ValueType.Fits.of_accepts {ρ σ : ValueType} {v : Cell} (hv : σ.Fits v)
    (h : ρ.accepts σ = true) : ρ.Fits v := by
  rintro rfl
  cases σ with
  | bool => exact hv rfl
  | _ => cases h

theorem SymbolTable.Truthful.assign {t : SymbolTable} {σ : Store} (h : t.Truthful σ.memory)
    {name : String} {s : Symbol} (hs : t.lookup? name = some s) {v : Cell} (hv : s.type.Fits v) :
    t.Truthful (σ.assign name v).memory := by
  intro x s' hs'
  by_cases hx : x = name
  · subst hx
    rw [hs] at hs'
    cases hs'
    simpa [Store.assign] using hv
  · simpa [Store.assign, hx] using h x s' hs'

/-! ### Evaluations that agree -/

/-- **Two evaluations agree** wherever the memory is as `I` says; then the value is as `P` says and
the memory stays so. -/
def Evaluation.Agrees {α : Type} (I : Memory → Prop) (P : α → Prop) (x y : Evaluation α) : Prop :=
  ∀ σ : Store, I σ.memory → y σ = x σ ∧ ∀ a σ', x σ = .ok (a, σ') → P a ∧ I σ'.memory

namespace Evaluation.Agrees

variable {α β : Type} {I : Memory → Prop} {P : α → Prop} {Q : β → Prop} {x y : Evaluation α}

theorem pure {a : α} (h : P a) : Agrees I P (Pure.pure a) (Pure.pure a) := by
  intro σ hσ
  refine ⟨rfl, fun a' σ' heq => ?_⟩
  cases heq
  exact ⟨h, hσ⟩

/-- An operation that does not touch the memory. -/
theorem lift {r : Except Trap α} (h : ∀ a, r = .ok a → P a) :
    Agrees I P (liftM r : Evaluation α) (liftM r) := by
  intro σ hσ
  refine ⟨rfl, fun a σ' heq => ?_⟩
  cases r with
  | error => cases heq
  | ok =>
    cases heq
    exact ⟨h a rfl, hσ⟩

theorem modifyGet {f : Store → α × Store}
    (h : ∀ σ, I σ.memory → P (f σ).1 ∧ I (f σ).2.memory) :
    Agrees I P (MonadStateOf.modifyGet f) (MonadStateOf.modifyGet f) := by
  intro σ hσ
  refine ⟨rfl, fun a σ' heq => ?_⟩
  have hf : f σ = (a, σ') := Except.ok.inj heq
  simpa [hf] using h σ hσ

theorem bind {f g : α → Evaluation β} (h : Agrees I P x y)
    (hf : ∀ a, P a → Agrees I Q (f a) (g a)) : Agrees I Q (x >>= f) (y >>= g) := by
  intro σ hσ
  obtain ⟨hxy, hx⟩ := h σ hσ
  have hbind : ∀ (z : Evaluation α) (k : α → Evaluation β),
      (z >>= k) σ = (z σ >>= fun r => k r.1 r.2) := fun _ _ => rfl
  rw [hbind, hbind, hxy]
  rcases hr : x σ with e | ⟨a, σ'⟩
  · exact ⟨rfl, nofun⟩
  · obtain ⟨ha, hσ'⟩ := hx a σ' hr
    exact hf a ha σ' hσ'

end Evaluation.Agrees

/-! ### Operators keep the invariant -/

theorem UnaryOp.fits_apply {op : UnaryOp} {σ ρ : ValueType} (h : op.resultType? σ = some ρ)
    (v : Cell) : ρ.Fits (op.apply v) := by
  cases op with
  | not => exact ρ.fits_truth _
  | negate =>
    refine ρ.fits_of_ne ?_ _
    rintro rfl
    cases σ <;> cases h

/-- On operands of its types, an operator has the value of the logical one. -/
theorem BinaryOp.applyLogical_eq {op : BinaryOp} {σ τ ρ : ValueType}
    (h : op.resultType? σ τ = some ρ) {a b : Cell} (ha : σ.Fits a) (hb : τ.Fits b) :
    op.applyLogical a b = op.apply a b := by
  have hlogical : σ = .bool → τ = .bool →
      BinaryOp.applyLogical .and a b = .ok (a &&& b) ∧
        BinaryOp.applyLogical .or a b = .ok (a ||| b) := by
    intro hσ hτ
    obtain ⟨x, rfl⟩ := ha hσ
    obtain ⟨y, rfl⟩ := hb hτ
    cases x <;> cases y <;> exact ⟨rfl, rfl⟩
  cases op with
  | and | or =>
    have hστ : σ = .bool ∧ τ = .bool := by
      by_contra hne
      simp [resultType?, hne] at h
    simp only [hlogical hστ.1 hστ.2, apply]
  | _ => rfl

theorem BinaryOp.fits_apply {op : BinaryOp} {σ τ ρ : ValueType}
    (h : op.resultType? σ τ = some ρ) {a b v : Cell} (ha : σ.Fits a) (hb : τ.Fits b)
    (hv : op.apply a b = .ok v) : ρ.Fits v := by
  have hlogical := (applyLogical_eq h ha hb).trans hv
  cases op with
  | and | or =>
    cases hx : truth? a with
    | error => simp [applyLogical, hx, bind, Except.bind] at hlogical
    | ok x =>
      cases hy : truth? b with
      | error => simp [applyLogical, hx, hy, bind, Except.bind] at hlogical
      | ok y =>
        simp only [applyLogical, hx, hy] at hlogical
        cases hlogical
        exact ρ.fits_truth _
  | equal | notEqual | less | lessEqual | greater | greaterEqual =>
    cases hv
    exact ρ.fits_truth _
  | add | subtract | multiply | divide | modulo =>
    -- arithmetic has a numeric type
    refine ρ.fits_of_ne ?_ _
    rintro rfl
    cases σ <;> cases τ <;> cases h

/-! ### Expressions keep the invariant -/

theorem Literal.fits_value (l : Literal) {v : Cell} (h : l.value = .ok v) : l.type.Fits v := by
  cases l with
  | boolean b =>
    cases h
    exact ValueType.fits_truth _ b
  | integer | float | string => exact ValueType.fits_of_ne (by simp [type]) v

section Agreement

variable {env : Environment} {t : SymbolTable}

mutual

/-- **Where inference does not complain, the operators are logical,** the value fits the type, and
names of type `bool` keep their truth values. -/
theorem Expr.eval_agrees (henv : env.Truthful t) : ∀ {e : Expr} {τ : ValueType},
    e.infer t = ⟨some τ, []⟩ →
      Evaluation.Agrees t.Truthful τ.Fits (e.eval env) (e.evalLogical env)
  | .literal value _, τ, h => by
    cases h
    exact .lift fun v => value.fits_value
  | .var name _, τ, h => by
    obtain ⟨s, hs, rfl⟩ := Expr.infer_var_iff.mp h
    refine Evaluation.Agrees.modifyGet (f := fun σ => (σ.memory name, σ)) fun σ hσ => ?_
    exact ⟨hσ name s hs, hσ⟩
  | .unary op operand _, ρ, h => by
    obtain ⟨σ, hoperand, hρ⟩ := Expr.infer_unary_iff.mp h
    rw [Expr.eval, Expr.evalLogical]
    exact (Expr.eval_agrees henv hoperand).bind fun v _ => .pure (UnaryOp.fits_apply hρ v)
  | .binary op left right _, ρ, h => by
    obtain ⟨σ, τ, hl, hr, hρ⟩ := Expr.infer_binary_iff.mp h
    rw [Expr.eval, Expr.evalLogical]
    refine (Expr.eval_agrees henv hl).bind fun a ha => ?_
    refine (Expr.eval_agrees henv hr).bind fun b hb => ?_
    rw [BinaryOp.applyLogical_eq hρ ha hb]
    exact .lift fun v => BinaryOp.fits_apply hρ ha hb
  | .call callee arguments _, ρ, h => by
    obtain ⟨name, s, hname, hs, hrole, rfl, harguments⟩ := Expr.infer_call_iff.mp h
    rw [Expr.eval, Expr.evalLogical, hname]
    refine (Expr.evalAll_agrees henv (Expr.inferAll_eq_nil_iff.mp harguments)).bind fun vs _ => ?_
    exact .modifyGet (henv name s hs hrole vs)
  | .assign name value _, ρ, h => by
    obtain ⟨s, σ, hs, rfl, hvalue, haccepts⟩ := Expr.infer_assign_iff.mp h
    rw [Expr.eval, Expr.evalLogical]
    refine (Expr.eval_agrees henv hvalue).bind fun v hv => ?_
    have hfits : s.type.Fits v := hv.of_accepts haccepts
    refine Evaluation.Agrees.bind (P := fun _ => True) (.modifyGet fun σ hσ => ⟨trivial, ?_⟩)
      fun _ _ => .pure hfits
    exact hσ.assign hs hfits

theorem Expr.evalAll_agrees (henv : env.Truthful t) : ∀ {es : List Expr},
    (∀ e ∈ es, ∃ τ, e.infer t = ⟨some τ, []⟩) →
      Evaluation.Agrees t.Truthful (fun _ => True) (Expr.evalAll env es)
        (Expr.evalLogicalAll env es)
  | [], _ => .pure trivial
  | e :: es, h => by
    obtain ⟨⟨τ, he⟩, hes⟩ := List.forall_mem_cons.mp h
    rw [Expr.evalAll, Expr.evalLogicalAll]
    exact (Expr.evalAll_agrees henv hes).bind fun vs _ =>
      (Expr.eval_agrees henv he).bind fun v _ => .pure trivial

end

mutual

/-- Without strings and floats, an expression without complaints has a value over cells. -/
theorem Expr.plain_of_infer : ∀ {e : Expr} {τ : ValueType}, e.infer t = ⟨some τ, []⟩ →
    (∀ value p, .literal value p ∈ e.parts → value.type ≠ .float ∧ value.type ≠ .string) →
      e.plain = true
  | .literal value p, _, _, hconst => by
    have hvalue := hconst value p (List.mem_singleton_self _)
    cases value with
    | integer | boolean => rfl
    | float => exact absurd rfl hvalue.1
    | string => exact absurd rfl hvalue.2
  | .var _ _, _, _, _ => rfl
  | .unary op operand _, _, h, hconst => by
    obtain ⟨σ, hoperand, -⟩ := Expr.infer_unary_iff.mp h
    rw [Expr.plain]
    exact Expr.plain_of_infer hoperand fun value p hp => hconst value p (by simp [Expr.parts, hp])
  | .binary op left right _, _, h, hconst => by
    obtain ⟨σ, τ, hl, hr, -⟩ := Expr.infer_binary_iff.mp h
    have hleft := Expr.plain_of_infer hl
      fun value p hp => hconst value p (by simp [Expr.parts, hp])
    have hright := Expr.plain_of_infer hr
      fun value p hp => hconst value p (by simp [Expr.parts, hp])
    rw [Expr.plain, hleft, hright]
    rfl
  | .call callee arguments _, _, h, hconst => by
    obtain ⟨name, s, hname, -, -, -, harguments⟩ := Expr.infer_call_iff.mp h
    have hplain := Expr.plainAll_of_infer (Expr.inferAll_eq_nil_iff.mp harguments)
      fun value p hp => hconst value p (by simp [Expr.parts, hp])
    rw [Expr.plain, hname, hplain]
    rfl
  | .assign name value _, _, h, hconst => by
    obtain ⟨s, σ, -, -, hvalue, -⟩ := Expr.infer_assign_iff.mp h
    rw [Expr.plain]
    exact Expr.plain_of_infer hvalue fun value p hp => hconst value p (by simp [Expr.parts, hp])

theorem Expr.plainAll_of_infer : ∀ {es : List Expr}, (∀ e ∈ es, ∃ τ, e.infer t = ⟨some τ, []⟩) →
    (∀ value p, .literal value p ∈ Expr.partsAll es → value.type ≠ .float ∧ value.type ≠ .string) →
      Expr.plainAll es = true
  | [], _, _ => rfl
  | e :: es, h, hconst => by
    obtain ⟨⟨τ, he⟩, hes⟩ := List.forall_mem_cons.mp h
    have hhead := Expr.plain_of_infer he
      fun value p hp => hconst value p (by simp [Expr.partsAll, hp])
    have htail := Expr.plainAll_of_infer hes
      fun value p hp => hconst value p (by simp [Expr.partsAll, hp])
    rw [Expr.plainAll, hhead, htail]
    rfl

end

end Agreement

/-! ### Code -/

theorem Expr.quiet_code (e : Expr) (n : Nat) : Quiet (e.code n) (e.code n).length := by
  rw [Quiet, List.getElem?_eq_none Nat.le.refl]
  rfl

/-- **Bitwise operators are sound on checked code.**  Take an expression without floats and strings
that inference finds to be of type `bool`, without a complaint, and a machine on which every name of
type `bool` has a truth value.  The code of the expression leaves a truth value in the accumulator,
every name of type `bool` still has a truth value, and value and store are those of the evaluation
with logical operators, so that every `&&` and `||` inside gets truth values and gives the logical
result.  The one thing that can go wrong is a division, and then it does in that evaluation as
well. -/
theorem Expr.code_logical {env : Environment} {t : SymbolTable} (henv : env.Truthful t) {e : Expr}
    (htype : e.infer t = ⟨some .bool, []⟩)
    (hconst : ∀ value p, .literal value p ∈ e.parts → value.type ≠ .float ∧ value.type ≠ .string)
    (n : Nat) {m : Machine} (hm : t.Truthful m.store.memory) :
    (∃ k m' b, Runs env (e.code n) m.stack k ⟨0, m⟩ ⟨(e.code n).length, m'⟩ ∧
      m'.eax = truth b ∧ m'.stack = m.stack ∧ t.Truthful m'.store.memory ∧
      e.evalLogical env m.store = .ok (truth b, m'.store)) ∨
    (Faults env (e.code n) m.stack ⟨0, m⟩ ∧ e.evalLogical env m.store = .error .division) := by
  have h : Computes env (e.code n) m.stack (e.eval env) 0 (e.code n).length m m.Delivers :=
    Expr.code_computes (Expr.plain_of_infer htype hconst) (.whole (e.code n)) (e.quiet_code n)
  obtain ⟨heval, hkeeps⟩ := Expr.eval_agrees henv htype m.store hm
  rw [heval]
  rcases hx : e.eval env m.store with trap | ⟨v, σ⟩
  · obtain ⟨rfl, hfaults⟩ := (Computes.iff_of_error hx).mp h
    exact .inr ⟨hfaults, rfl⟩
  · obtain ⟨k, m', hr, rfl, hv, hstack, -⟩ := (Computes.iff_of_ok hx).mp h
    obtain ⟨hfits, htruthful⟩ := hkeeps v m'.store hx
    obtain ⟨b, rfl⟩ := hfits rfl
    exact .inl ⟨k, m', b, hr, hv, hstack, htruthful, rfl⟩

/-- Declarations of a number `x`, a truth value `b` and a function `f` of type `bool`. -/
def SymbolTable.flagged : SymbolTable :=
  ((SymbolTable.empty.insert "x" .int .var).insert "b" .bool .var).insert "f" .bool .function

/-- An environment in which calls find out whether `x` is zero. -/
def Environment.testing : Environment where
  reply _ σ _ := ⟨truth (σ.memory "x" == 0), σ.memory, []⟩
  scratch _ _ := (7, 7)
  flags _ _ := ⟨true, true, true⟩

/-- The code of `(b = 6 / 2 == 3) && !f() || b`, where the assignment is inside an operand. -/
theorem Expr.code_logical_flagged :
    let e : Expr := .binary .or
      (.binary .and
        (.assign "b" (.binary .equal
          (.binary .divide (.literal (.integer 6) ⟨1, 1⟩) (.literal (.integer 2) ⟨1, 1⟩) ⟨1, 1⟩)
          (.literal (.integer 3) ⟨1, 1⟩) ⟨1, 1⟩) ⟨1, 1⟩)
        (.unary .not (.call (.var "f" ⟨1, 1⟩) [] ⟨1, 1⟩) ⟨1, 1⟩) ⟨1, 1⟩)
      (.var "b" ⟨1, 1⟩) ⟨1, 1⟩
    e.infer .flagged = ⟨some .bool, []⟩ ∧
      ∃ k m', Runs .testing (e.code 0) [] k ⟨0, .cleared⟩ ⟨(e.code 0).length, m'⟩ ∧
        m'.eax = truth true ∧ m'.store.memory "b" = truth true := by
  intro e
  have htype : e.infer .flagged = ⟨some .bool, []⟩ := by decide
  have henv : Environment.testing.Truthful .flagged :=
    fun name s _ _ arguments σ hσ => ⟨ValueType.fits_truth _ _, hσ⟩
  have hconst : ∀ value p, .literal value p ∈ e.parts →
      value.type ≠ .float ∧ value.type ≠ .string := by
    intro value p hp
    simp only [e, Expr.parts, Expr.partsAll, List.mem_cons, List.mem_append, List.not_mem_nil,
      reduceCtorEq, Expr.literal.injEq, or_false, false_or] at hp
    rcases hp with (⟨rfl, -⟩ | ⟨rfl, -⟩) | ⟨rfl, -⟩ <;> decide
  have hm : SymbolTable.flagged.Truthful Machine.cleared.store.memory :=
    fun name s _ => ValueType.fits_truth _ false
  refine ⟨htype, ?_⟩
  rcases Expr.code_logical henv htype hconst 0 hm with ⟨k, m', b, hr, hv, -, -, heval⟩ | ⟨-, heval⟩
  · obtain ⟨hb, hstore⟩ := Prod.mk.inj (Except.ok.inj heval)
    exact ⟨k, m', hr, hv.trans hb.symm, by rw [← hstore]; rfl⟩
  · cases heval

end StackListing
