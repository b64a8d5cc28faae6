import StackListing.Expr.Code
import StackListing.Proofs.Execution.Runs

/-!
# Code of operators

The code of an operator leaves its value in the accumulator and keeps the stack.  Behind it stand
facts of two's complement: a comparison is read off the sign and the overflow of a difference, and a
division of a cell with its sign extended fails exactly where there is no quotient.
-/

namespace StackListing

/-! ### Comparisons -/

theorem sign_ne_overflow (a b : Cell) : ((a - b).msb != a.ssubOverflow b) = a.slt b := by
  have ha := a.toInt_lt
  have ha' := a.le_toInt
  have hb := b.toInt_lt
  have hb' := b.le_toInt
  rw [BitVec.msb_eq_toInt, BitVec.toInt_sub, BitVec.ssubOverflow, BitVec.slt, Int.bmod_def,
    Bool.eq_iff_iff, bne_iff_ne, Ne, Bool.eq_iff_iff]
  simp only [decide_eq_true_eq, Bool.or_eq_true]
  split <;> omega

theorem decide_sub_eq_zero (a b : Cell) : decide (a - b = 0) = (a == b) := by
  rw [Bool.eq_iff_iff, decide_eq_true_eq, beq_iff_eq]
  constructor
  · intro h
    bv_omega
  · rintro rfl
    exact BitVec.sub_self a

/-- The flags of a difference answer every comparison. -/
theorem Flags.holds_ofDifference (c : Condition) (a b : Cell) :
    (Flags.ofDifference a b).holds c = c.test a b := by
  have hz : (Flags.ofDifference a b).zero = (a == b) := decide_sub_eq_zero a b
  have hs : ((Flags.ofDifference a b).sign != (Flags.ofDifference a b).overflow) = a.slt b :=
    sign_ne_overflow a b
  have he : ((Flags.ofDifference a b).sign == (Flags.ofDifference a b).overflow) = !a.slt b := by
    rw [← hs, bne, Bool.not_not]
  cases c with
  | equal => exact hz
  | notEqual => rw [Flags.holds, hz]; rfl
  | less => exact hs
  | lessEqual => rw [Flags.holds, hz, hs, Condition.test, BitVec.sle_eq_slt_or_eq, Bool.or_comm]
  | greater =>
    rw [Flags.holds, hz, he, Condition.test, ← Bool.not_or, Bool.or_comm,
      ← BitVec.sle_eq_slt_or_eq, BitVec.sle_eq_not_slt, Bool.not_not]
  | greaterEqual => rw [Flags.holds, he, Condition.test, BitVec.sle_eq_not_slt]

theorem get_al_set_al (m : Machine) (b : Bool) : (m.set .al (truth b)).get .al = truth b := by
  have hx : ∀ x t : Cell, (x &&& 0xFFFFFF00 ||| t &&& 0xFF) &&& 0xFF = t &&& 0xFF := by
    intro x t
    have h1 : (0xFFFFFF00 : Cell) &&& 0xFF = 0 := by decide
    rw [BitVec.and_or_distrib_right, BitVec.and_assoc, h1, BitVec.and_assoc, BitVec.and_self]
    simp
  have ht : truth b &&& 0xFF = truth b := by cases b <;> decide
  exact (hx m.eax (truth b)).trans ht

/-! ### Division -/

theorem tdiv_natAbs_le (x y : Int) : (x.tdiv y).natAbs ≤ x.natAbs := by
  rw [Int.natAbs_tdiv]
  exact Nat.div_le_self _ _

/-- The only quotient of cells that does not fit is that of the least one by minus one. -/
theorem not_fits_iff {x y : Int} (hx : -0x80000000 ≤ x) (hx' : x < 0x80000000) (hy : y ≠ 0) :
    (x.tdiv y < -0x80000000 ∨ 0x80000000 ≤ x.tdiv y) ↔ x = -0x80000000 ∧ y = -1 := by
  constructor
  · intro h
    have hle := tdiv_natAbs_le x y
    have hq : x.natAbs / y.natAbs = 0x80000000 := by
      have hd : (x.tdiv y).natAbs = x.natAbs / y.natAbs := Int.natAbs_tdiv x y
      omega
    have hy1 : y.natAbs = 1 := by
      by_contra hne
      have h2 : x.natAbs / y.natAbs ≤ x.natAbs / 2 := Nat.div_le_div_left (by omega) (by omega)
      omega
    have hx1 : x = -0x80000000 := by
      rw [hy1, Nat.div_one] at hq
      omega
    refine ⟨hx1, ?_⟩
    rcases Int.natAbs_eq y with h1 | h1 <;> rw [hy1] at h1
    · rw [h1, hx1] at h
      exact absurd h (by decide)
    · exact h1
  · rintro ⟨rfl, rfl⟩
    decide

/-- The state in which the sign of the accumulator is extended. -/
def Machine.extend (m : Machine) : Machine := { m with edx := if m.eax.msb then -1 else 0 }

theorem Machine.dividend_extend (m : Machine) : m.extend.dividend = m.eax.toInt := by
  have h := BitVec.toInt_eq_msb_cond m.eax
  have hm : (-1 : Cell).toInt = -1 := by decide
  have h0 : (0 : Cell).toInt = 0 := by decide
  rw [Machine.dividend, Machine.extend]
  by_cases hs : m.eax.msb = true
  · rw [if_pos hs] at h
    simp only [if_pos hs, hm]
    omega
  · rw [if_neg hs] at h
    simp only [if_neg hs, h0]
    omega

theorem noQuotient_iff (a b : Cell) :
    (b = 0 ∨ a.toInt.tdiv b.toInt < -0x80000000 ∨ 0x80000000 ≤ a.toInt.tdiv b.toInt) ↔
      NoQuotient a b := by
  refine or_congr_right' fun hb => ?_
  have hb' : b.toInt ≠ 0 := by
    rwa [← BitVec.toInt_zero (w := 32), Ne, BitVec.toInt_inj]
  have hmin : (BitVec.intMin 32).toInt = -0x80000000 := by decide
  have hm : (-1 : Cell).toInt = -1 := by decide
  rw [not_fits_iff a.le_toInt a.toInt_lt hb', ← hmin, ← hm, BitVec.toInt_inj, BitVec.toInt_inj]

/-- The state with the quotient and the remainder of the operand registers. -/
def Machine.divided (m : Machine) : Machine :=
  { m with
    eax := .ofInt 32 (m.eax.toInt.tdiv m.ebx.toInt)
    edx := .ofInt 32 (m.eax.toInt.tmod m.ebx.toInt) }

theorem Machine.divide_extend (m : Machine) : m.extend.divide m.ebx =
    if NoQuotient m.eax m.ebx then .error .divideError else .ok m.divided := by
  rw [Machine.divide, Machine.dividend_extend]
  exact if_congr (noQuotient_iff m.eax m.ebx) rfl rfl

/-! ### Operators -/

/-- A state with the given stack and the frame of another. -/
def Machine.Kept (m : Machine) (stack : List Cell) (m' : Machine) : Prop :=
  m'.stack = stack ∧ m'.ebp = m.ebp ∧ m'.base = m.base

section Code

variable {env : Environment} {code : Listing} {floor : List Cell} {pc pc' : Nat} {m : Machine}

/-- The machine has the value in the accumulator and keeps its stack. -/
def Machine.Delivers (m : Machine) (v : Cell) (m' : Machine) : Prop :=
  m'.eax = v ∧ m.Kept m.stack m'

theorem Machine.Delivers.trans {v w : Cell} {m' m'' : Machine} (h : m.Delivers v m')
    (h' : m'.Delivers w m'') : m.Delivers w m'' := by
  obtain ⟨-, hs, he, hb⟩ := h
  obtain ⟨hw, hs', he', hb'⟩ := h'
  exact ⟨hw, hs'.trans hs, he'.trans he, hb'.trans hb⟩

theorem Condition.code_computes (c : Condition) (hs : Stands code pc c.code pc')
    (hf : floor <:+ m.stack) :
    Computes env code floor (pure (truth (m.flags.holds c))) pc pc' m m.Delivers := by
  simp only [Condition.code, stands_cons, stands_nil] at hs
  obtain ⟨h1, h2, rfl⟩ := hs
  refine .of_exec hf h1 rfl rfl (.of_exec hf h2 rfl rfl (.pure hf ⟨?_, rfl, rfl, rfl⟩))
  exact get_al_set_al m (m.flags.holds c)

theorem Condition.compareCode_computes (c : Condition) (hs : Stands code pc c.compareCode pc')
    (hf : floor <:+ m.stack) :
    Computes env code floor (pure (truth (c.test m.eax m.ebx))) pc pc' m m.Delivers := by
  obtain ⟨h1, hs⟩ := stands_cons.mp hs
  have h2 : m.exec (.cmp Register.eax Register.ebx) =
      .ok { m with flags := .ofDifference m.eax m.ebx } := rfl
  rw [← Flags.holds_ofDifference]
  exact .of_exec hf h1 h2 rfl (c.code_computes hs hf)

theorem UnaryOp.code_computes (op : UnaryOp) (hs : Stands code pc op.code pc')
    (hf : floor <:+ m.stack) :
    Computes env code floor (pure (op.apply m.eax)) pc pc' m m.Delivers := by
  cases op with
  | negate =>
    simp only [UnaryOp.code, stands_cons, stands_nil] at hs
    obtain ⟨h1, rfl⟩ := hs
    exact .of_exec hf h1 rfl rfl (.pure hf ⟨rfl, rfl, rfl, rfl⟩)
  | not =>
    obtain ⟨h1, hs⟩ := stands_cons.mp hs
    have h2 : m.exec (.cmp Register.eax (.immediate 0)) =
        .ok { m with flags := .ofDifference m.eax 0 } := rfl
    have h3 : UnaryOp.not.apply m.eax = truth ((Flags.ofDifference m.eax 0).holds .equal) := by
      rw [Flags.holds_ofDifference]
      rfl
    rw [h3]
    exact .of_exec hf h1 h2 rfl (Condition.equal.code_computes hs hf)

/-- The lines that divide, with whatever comes behind them. -/
theorem division_computes {lines : Listing} {op : Int → Int → Int}
    (hs : Stands code pc
      ([.noted .cdq "sign extend", .noted (.idiv .ebx) "division"] ++ lines) pc')
    (hf : floor <:+ m.stack)
    (h : Computes env code floor (pure (.ofInt 32 (op m.eax.toInt m.ebx.toInt))) (pc + 2) pc'
      m.divided m.Delivers) :
    Computes env code floor (divideWith op m.eax m.ebx) pc pc' m m.Delivers := by
  obtain ⟨h1, hs⟩ := stands_cons.mp hs
  obtain ⟨h2, -⟩ := stands_cons.mp hs
  have hd := m.divide_extend
  have hc : step env code ⟨pc, m⟩ = .ok ⟨pc + 1, m.extend⟩ := step_exec h1 rfl
  by_cases hq : NoQuotient m.eax m.ebx
  · rw [if_pos hq] at hd
    rw [divideWith, if_pos hq]
    refine (Computes.iff_of_error rfl).mpr ⟨rfl, 1, ⟨pc + 1, m.extend⟩, .ebx, _, ?_, h2, ?_⟩
    · exact .step hf hc (.refl hf)
    · exact step_divideError h2 hd
  · rw [if_neg hq] at hd
    rw [divideWith, if_neg hq]
    exact .of_step hf hc rfl (.of_exec hf h2 hd rfl h)

theorem BinaryOp.code_computes (op : BinaryOp) (hs : Stands code pc op.code pc')
    (hf : floor <:+ m.stack) :
    Computes env code floor (op.apply m.eax m.ebx) pc pc' m m.Delivers := by
  cases op with
  | divide =>
    obtain rfl := hs.eq_add
    exact division_computes hs hf (.pure hf ⟨rfl, rfl, rfl, rfl⟩)
  | modulo =>
    refine division_computes hs hf ?_
    obtain ⟨-, hs⟩ := stands_cons.mp hs
    obtain ⟨-, hs⟩ := stands_cons.mp hs
    obtain ⟨h3, hs⟩ := stands_cons.mp hs
    obtain rfl := stands_nil.mp hs
    exact .of_exec hf h3 rfl rfl (.pure hf ⟨rfl, rfl, rfl, rfl⟩)
  | add | subtract | multiply | and | or =>
    obtain ⟨h1, hs⟩ := stands_cons.mp hs
    obtain rfl := stands_nil.mp hs
    exact .of_exec hf h1 rfl rfl (.pure hf ⟨rfl, rfl, rfl, rfl⟩)
  | equal => exact Condition.equal.compareCode_computes hs hf
  | notEqual => exact Condition.notEqual.compareCode_computes hs hf
  | less => exact Condition.less.compareCode_computes hs hf
  | lessEqual => exact Condition.lessEqual.compareCode_computes hs hf
  | greater => exact Condition.greater.compareCode_computes hs hf
  | greaterEqual => exact Condition.greaterEqual.compareCode_computes hs hf

end Code

end StackListing
