import StackListing.Proofs.Execution.ExprCode
import StackListing.Proofs.Execution.Labels

/-!
# Code of statements

Inside a function the code of a statement follows its execution, wherever it stands in a listing in
which no label stands twice.  If the statement ends normally, the machine gets to the line behind
the code; if it gives a value back, the machine gets to the end of the function with that value and
the frame of the caller; if it fails to divide, so does the machine; and if a loop is cut short, the
machine makes at least as many steps as the loop was allowed tests.
-/

namespace StackListing

/-! ### Frames -/

/-- **Inside a function** that was entered in the state `m₀`: the frame register of the caller lies
on the stack, with the cells kept for variables on top of it. -/
def Machine.Inside (m₀ m : Machine) : Prop :=
  m.base = m₀.base ∧ m.ebp = m₀.address (m₀.stack.length + 1) ∧
    ∃ locals : List Cell, locals.length = (frameSize / 4).toNat ∧
      m.stack = locals ++ m₀.ebp :: m₀.stack

namespace Machine.Inside

variable {m₀ m m' : Machine}

theorem suffix (h : m₀.Inside m) : m₀.stack <:+ m.stack := by
  obtain ⟨-, -, locals, -, hs⟩ := h
  rw [hs]
  exact (List.suffix_cons _ _).trans (List.suffix_append _ _)

theorem kept (h : m₀.Inside m) (hk : m.Kept m.stack m') : m₀.Inside m' := by
  obtain ⟨hb, he, hl⟩ := h
  obtain ⟨hs, he', hb'⟩ := hk
  exact ⟨hb'.trans hb, he'.trans he, hs ▸ hl⟩

/-- The cells between the stack pointer and the frame register are those kept for variables. -/
theorem distance (h : m₀.Inside m) :
    ((m.ebp - m.address m.stack.length).toNat / 4) = (frameSize / 4).toNat := by
  obtain ⟨hb, he, locals, hl, hs⟩ := h
  have h64 : m.ebp - m.address m.stack.length = 64 := by
    have hlen : m.stack.length = 16 + (m₀.stack.length + 1) := by
      rw [hs, List.length_append, hl]
      rfl
    rw [he, hlen, Machine.address, Machine.address, hb]
    bv_omega
  rw [h64]
  rfl

end Machine.Inside

section Frames

variable {env : Environment} {code : Listing} {pc pc' : Nat} {m₀ m : Machine}

/-- The code at the entry of a function leads into it. -/
theorem prologue_runs (hs : Stands code pc prologue pc') :
    ∃ m, Runs env code m₀.stack 3 ⟨pc, m₀⟩ ⟨pc', m⟩ ∧ m₀.Inside m ∧ m.store = m₀.store := by
  simp only [prologue, stands_cons, stands_nil] at hs
  obtain ⟨h1, h2, h3, rfl⟩ := hs
  have hf : m₀.stack <:+ m₀.ebp :: m₀.stack := List.suffix_cons _ _
  refine ⟨_, .step List.suffix_rfl (step_exec h1 rfl) (.step hf (step_exec h2 rfl)
    (.step hf (step_exec h3 rfl) (.refl ?_))), ⟨rfl, rfl, _, ?_, rfl⟩, rfl⟩
  · exact hf.trans (List.suffix_append _ _)
  · exact List.length_replicate

/-- The code at the exit of a function leads to its end, with the frame of the caller. -/
theorem epilogue_runs (hs : Stands code pc epilogue pc') (hm : m₀.Inside m) :
    ∃ d : Config, Runs env code m₀.stack 2 ⟨pc, m⟩ d ∧ code[d.pc]? = some (.plain .ret) ∧
      d.machine.eax = m.eax ∧ d.machine.store = m.store ∧ m₀.Kept m₀.stack d.machine := by
  have hf := hm.suffix
  have hd := hm.distance
  obtain ⟨hb, he, locals, hl, hst⟩ := hm
  simp only [epilogue, stands_cons, stands_nil] at hs
  obtain ⟨h1, h2, h3, rfl⟩ := hs
  have hf1 : m₀.stack <:+ m₀.ebp :: m₀.stack := List.suffix_cons _ _
  have hmov : m.exec (.mov Register.esp Register.ebp) =
      .ok { m with stack := m₀.ebp :: m₀.stack } := by
    have hdrop : m.stack.drop ((m.ebp - m.address m.stack.length).toNat / 4) =
        m₀.ebp :: m₀.stack := by
      rw [hd, ← hl, hst, List.drop_left]
    rw [← hdrop]
    rfl
  exact ⟨⟨pc + 1 + 1, { m with stack := m₀.stack, ebp := m₀.ebp }⟩,
    .step hf (step_exec h1 hmov) (.step hf1 (step_exec h2 rfl) (.refl List.suffix_rfl)),
    h3, rfl, rfl, rfl, rfl, hb⟩

end Frames

/-! ### Code that follows an execution -/

/-- **Code follows an execution** from `pc` to `pc'` inside a function, with the given ending of the
execution. -/
def Follows (env : Environment) (code : Listing) (m₀ : Machine) (fuel pc pc' : Nat) (m : Machine) :
    Option Ending → Prop
  | some (.normal σ) => ∃ k m', Runs env code m₀.stack k ⟨pc, m⟩ ⟨pc', m'⟩ ∧ m'.store = σ ∧
      m.Kept m.stack m'
  | some (.returned v σ) => ∃ k d, Runs env code m₀.stack k ⟨pc, m⟩ d ∧
      code[d.pc]? = some (.plain .ret) ∧ d.machine.eax = v ∧ d.machine.store = σ ∧
      m₀.Kept m₀.stack d.machine
  | some (.trapped t) => t = .division ∧ Faults env code m₀.stack ⟨pc, m⟩
  | none => ∃ k d, fuel ≤ k ∧ Runs env code m₀.stack k ⟨pc, m⟩ d

namespace Follows

variable {α : Type} {env : Environment} {code : Listing} {m₀ m m' : Machine}
  {fuel pc pc' q k : Nat} {o : Option Ending}

theorem mono {fuel' : Nat} (hle : fuel' ≤ fuel) (h : Follows env code m₀ fuel pc pc' m o) :
    Follows env code m₀ fuel' pc pc' m o := by
  rcases o with _ | (σ | ⟨v, σ⟩ | t)
  · obtain ⟨k, d, hk, hr⟩ := h
    exact ⟨k, d, Nat.le_trans hle hk, hr⟩
  all_goals exact h

/-- A run before the code, whose steps are counted. -/
theorem prepend (hr : Runs env code m₀.stack k ⟨pc, m⟩ ⟨q, m'⟩) (hk : m.Kept m.stack m')
    (h : Follows env code m₀ fuel q pc' m' o) : Follows env code m₀ (fuel + k) pc pc' m o := by
  rcases o with _ | (σ | ⟨v, σ⟩ | t)
  · obtain ⟨k', d, hle, hr'⟩ := h
    exact ⟨k + k', d, by omega, hr.trans hr'⟩
  · obtain ⟨k', m'', hr', hs, hst, he, hb⟩ := h
    obtain ⟨hst', he', hb'⟩ := hk
    exact ⟨k + k', m'', hr.trans hr', hs, hst.trans hst', he.trans he', hb.trans hb'⟩
  · obtain ⟨k', d, hr', h⟩ := h
    exact ⟨k + k', d, hr.trans hr', h⟩
  · exact ⟨h.1, .of_runs hr h.2⟩

theorem of_runs (hr : Runs env code m₀.stack k ⟨pc, m⟩ ⟨q, m'⟩) (hk : m.Kept m.stack m')
    (h : Follows env code m₀ fuel q pc' m' o) : Follows env code m₀ fuel pc pc' m o :=
  (prepend hr hk h).mono (Nat.le_add_right fuel k)

theorem silent {line : Line} (hl : code[pc]? = some line) (hsilent : line.silent = true)
    (hf : m₀.stack <:+ m.stack) (h : Follows env code m₀ fuel (pc + 1) pc' m o) :
    Follows env code m₀ fuel pc pc' m o :=
  of_runs (.step hf (step_silent hl hsilent) (.refl hf)) ⟨rfl, rfl, rfl⟩ h

/-- Lines behind the code that do nothing may be passed. -/
theorem pass (h : Follows env code m₀ fuel pc q m o)
    (hp : ∀ m', m₀.stack <:+ m'.stack → ∃ k, Runs env code m₀.stack k ⟨q, m'⟩ ⟨pc', m'⟩) :
    Follows env code m₀ fuel pc pc' m o := by
  rcases o with _ | (σ | ⟨v, σ⟩ | t)
  · exact h
  · obtain ⟨k, m', hr, hs, hst, hrest⟩ := h
    obtain ⟨k', hr'⟩ := hp m' (hst ▸ hr.suffix)
    exact ⟨k + k', m', hr.trans hr', hs, hst, hrest⟩
  all_goals exact h

theorem pass_silent {line : Line} (h : Follows env code m₀ fuel pc q m o)
    (hl : code[q]? = some line) (hsilent : line.silent = true) :
    Follows env code m₀ fuel pc (q + 1) m o :=
  h.pass fun _ hf => ⟨1, .step hf (step_silent hl hsilent) (.refl hf)⟩

theorem done (hf : m₀.stack <:+ m.stack) :
    Follows env code m₀ fuel pc pc m (Execution.done m.store) :=
  ⟨0, m, .refl hf, rfl, rfl, rfl, rfl⟩

theorem seq {x y : Execution} (h : Follows env code m₀ fuel pc q m (x m.store))
    (h' : ∀ m', m.Kept m.stack m' → Follows env code m₀ fuel q pc' m' (y m'.store)) :
    Follows env code m₀ fuel pc pc' m (x.seq y m.store) := by
  rcases hx : x m.store with _ | (σ | ⟨v, σ⟩ | t) <;> rw [hx] at h <;>
    simp only [Execution.seq, hx]
  · exact h
  · obtain ⟨k, m', hr, rfl, hk⟩ := h
    exact of_runs hr hk (h' m' hk)
  all_goals exact h

theorem andThen {x : Evaluation α} {next : α → Execution} {Post : α → Machine → Prop}
    (h : Computes env code m₀.stack x pc q m Post)
    (hk : ∀ a m', Post a m' → m.Kept m.stack m')
    (h' : ∀ a m', Post a m' → Follows env code m₀ fuel q pc' m' (next a m'.store)) :
    Follows env code m₀ fuel pc pc' m (x.andThen next m.store) := by
  rcases hx : x m.store with t | ⟨a, σ⟩ <;> simp only [Evaluation.andThen, hx]
  · exact (Computes.iff_of_error hx).mp h
  · obtain ⟨k, m', hr, rfl, hp⟩ := (Computes.iff_of_ok hx).mp h
    exact of_runs hr (hk a m' hp) (h' a m' hp)

end Follows

/-! ### Jumps -/

section Jumps

variable {env : Environment} {code : Listing} {floor : List Cell} {pc pc' q : Nat} {m : Machine}
  {l : Label}

/-- A jump, and the label that it goes to. -/
theorem jmp_runs (hn : (placed code).Nodup) (h : code[pc]? = some (.plain (.jmp l)))
    (hl : code[q]? = some (.label l)) (hf : floor <:+ m.stack) :
    Runs env code floor 2 ⟨pc, m⟩ ⟨q + 1, m⟩ := by
  have hs : step env code ⟨pc, m⟩ = .ok ⟨q, m⟩ := by
    simp only [step, h, Line.plain]
    exact jump_eq_ok hn hl m
  exact .step hf hs (.step hf (step_silent hl rfl) (.refl hf))

/-- The state in which the accumulator is compared with zero. -/
def Machine.compared (m : Machine) : Machine := { m with flags := .ofDifference m.eax 0 }

theorem Machine.zero_compared (m : Machine) : m.compared.flags.zero = (m.eax == 0) :=
  decide_sub_eq_zero m.eax 0

/-- The jump is taken if the accumulator is zero, and passes the label that it goes to. -/
theorem jumpIfZero_runs_zero (hn : (placed code).Nodup) (hs : Stands code pc (jumpIfZero l) pc')
    (hl : code[q]? = some (.label l)) (hf : floor <:+ m.stack) (hz : m.eax = 0) :
    Runs env code floor 3 ⟨pc, m⟩ ⟨q + 1, m.compared⟩ := by
  obtain ⟨h1, hs⟩ := stands_cons.mp hs
  obtain ⟨h2, -⟩ := stands_cons.mp hs
  have hje : step env code ⟨pc + 1, m.compared⟩ = .ok ⟨q, m.compared⟩ := by
    simp only [step, h2, Line.plain, m.zero_compared, hz]
    exact jump_eq_ok hn hl m.compared
  exact .step hf (step_exec h1 rfl) (.step hf hje (.step hf (step_silent hl rfl) (.refl hf)))

theorem jumpIfZero_runs_ne (hs : Stands code pc (jumpIfZero l) pc') (hf : floor <:+ m.stack)
    (hz : m.eax ≠ 0) : Runs env code floor 2 ⟨pc, m⟩ ⟨pc', m.compared⟩ := by
  simp only [jumpIfZero, stands_cons, stands_nil] at hs
  obtain ⟨h1, h2, rfl⟩ := hs
  have hne : m.compared.flags.zero = false := by
    rw [m.zero_compared]
    exact beq_false_of_ne hz
  have hje : step env code ⟨pc + 1, m.compared⟩ = .ok ⟨pc + 1 + 1, m.compared⟩ := by
    simp only [step, h2, Line.plain, hne]
    rfl
  exact .step hf (step_exec h1 rfl) (.step hf hje (.refl hf))

end Jumps

/-! ### Heads of code -/

section Heads

variable {code : Listing} {n pc pc' : Nat}

theorem Expr.quiet : ∀ {e : Expr} {n pc pc' : Nat}, Stands code pc (e.code n) pc' →
    Quiet code pc' → Quiet code pc
  | .literal v _, n, pc, pc', hs, hq => by
    cases v <;> exact quiet_of_stands hs rfl
  | .var _ _, n, pc, pc', hs, hq => quiet_of_stands hs rfl
  | .unary op operand _, n, pc, pc', hs, hq => by
    obtain ⟨q, h1, h2⟩ := stands_append.mp hs
    exact Expr.quiet h1 (quiet_unaryOp h2)
  | .binary op left right _, n, pc, pc', hs, hq => by
    simp only [Expr.code, stands_append, stands_cons, stands_nil] at hs
    obtain ⟨q4, ⟨q3, ⟨q2, ⟨q1, hl, hpush, -⟩, -⟩, -⟩, -⟩ := hs
    exact Expr.quiet hl (quiet_of_line hpush rfl)
  | .call callee arguments _, n, pc, pc', hs, hq => by
    rw [Expr.code] at hs
    split at hs
    · obtain rfl := stands_nil.mp hs
      exact hq
    · exact quiet_of_stands hs rfl
  | .assign _ value _, n, pc, pc', hs, hq => by
    obtain ⟨q, h1, h2⟩ := stands_append.mp hs
    exact Expr.quiet h1 (quiet_of_stands h2 rfl)

theorem Expr.quiet_option {e : Option Expr} (hs : Stands code pc (Expr.codeOption n e) pc')
    (hq : Quiet code pc') : Quiet code pc := by
  cases e with
  | none =>
    obtain rfl := stands_nil.mp hs
    exact hq
  | some e => exact Expr.quiet hs hq

theorem Stmt.quiet {s : Stmt} (hs : Stands code pc (s.code n) pc') (hq : Quiet code pc') :
    Quiet code pc := by
  cases s with
  | expr e => exact Expr.quiet hs hq
  | _ => exact quiet_of_stands hs rfl

theorem Stmt.quiet_all : ∀ {body : List Stmt} {n pc pc' : Nat},
    Stands code pc (Stmt.codeAll n body) pc' → Quiet code pc' → Quiet code pc
  | [], _, _, _, hs, hq => by
    obtain rfl := stands_nil.mp hs
    exact hq
  | s :: rest, _, _, _, hs, hq => by
    obtain ⟨q, h1, h2⟩ := stands_append.mp hs
    exact Stmt.quiet h1 (Stmt.quiet_all h2 hq)

end Heads

/-! ### Parts of statements -/

section Parts

variable {env : Environment} {code : Listing} {m₀ m : Machine} {fuel n pc pc' q : Nat}

/-- The code of an expression, and of what is done with its value in the accumulator. -/
theorem Expr.code_follows {e : Expr} {next : Cell → Execution} (he : e.plain = true)
    (hs : Stands code pc (e.code n) q) (hq : Quiet code q) (hm : m₀.Inside m)
    (hnext : ∀ m', m.Kept m.stack m' → m₀.Inside m' →
      Follows env code m₀ fuel q pc' m' (next m'.eax m'.store)) :
    Follows env code m₀ fuel pc pc' m ((e.eval env).andThen next m.store) := by
  have hc : Computes env code m₀.stack (e.eval env) pc q m m.Delivers :=
    (Expr.code_computes he hs hq).mono hm.suffix
  refine .andThen hc (fun _ _ h => h.2) ?_
  rintro v m1 ⟨rfl, hk⟩
  exact hnext m1 hk (hm.kept hk)

theorem Expr.codeOption_follows {e : Option Expr} (he : Expr.plainOption e = true)
    (hs : Stands code pc (Expr.codeOption n e) pc') (hq : Quiet code pc') (hm : m₀.Inside m) :
    Follows env code m₀ fuel pc pc' m (Expr.execOption env e m.store) := by
  cases e with
  | none =>
    obtain rfl := stands_nil.mp hs
    exact .done hm.suffix
  | some e =>
    refine Expr.code_follows he hs hq hm ?_
    intro m1 _ hm1
    exact .done hm1.suffix

theorem test_some_andThen (e : Expr) (next : Bool → Execution) :
    (Expr.test env (some e)).andThen next = (e.eval env).andThen fun v => next (v != 0) := by
  funext σ
  have ht : Expr.test env (some e) σ = e.eval env σ >>= fun r => .ok (r.1 != 0, r.2) := rfl
  rw [Evaluation.andThen, Evaluation.andThen, ht]
  rcases e.eval env σ with t | ⟨v, σ'⟩ <;> rfl

/-- The code of a loop's condition goes on behind itself if the test succeeds, and behind the label
of the exit if it fails. -/
theorem conditionCode_follows (hn : (placed code).Nodup) {c : Option Expr} {exit : Label}
    {x : Execution} (hc : Expr.plainOption c = true)
    (hs : Stands code pc (Stmt.conditionCode n exit c) pc') (hl : code[q]? = some (.label exit))
    (hm : m₀.Inside m)
    (hx : ∀ m', m.Kept m.stack m' → Follows env code m₀ fuel pc' (q + 1) m' (x m'.store)) :
    Follows env code m₀ fuel pc (q + 1) m
      ((Expr.test env c).andThen (fun goOn => if goOn then x else .done) m.store) := by
  cases c with
  | none =>
    obtain rfl := stands_nil.mp hs
    exact hx m ⟨rfl, rfl, rfl⟩
  | some e =>
    obtain ⟨r, he, hj⟩ := stands_append.mp hs
    rw [test_some_andThen]
    refine Expr.code_follows hc he (quiet_of_stands hj rfl) hm ?_
    intro m1 hk hm1
    have hf := hm1.suffix
    by_cases hz : m1.eax = 0
    · refine .of_runs (jumpIfZero_runs_zero hn hj hl hf hz) ⟨rfl, rfl, rfl⟩ ?_
      rw [hz]
      exact .done hf
    · refine .of_runs (jumpIfZero_runs_ne hj hf hz) ⟨rfl, rfl, rfl⟩ ?_
      rw [bne_iff_ne.mpr hz]
      exact hx m1.compared hk

/-- A loop, from behind its first label on.  A round takes more steps than the one test that it is
counted for, so a loop that is cut short has made as many steps as it was allowed tests. -/
theorem loop_follows (hn : (placed code).Nodup) {c : Option Expr} {start exit : Label}
    {body : Execution} {r : Nat} (hc : Expr.plainOption c = true)
    (hstart : code[pc]? = some (.label start))
    (hs : Stands code (pc + 1) (Stmt.conditionCode n exit c) q)
    (hbody : ∀ m, m₀.Inside m → Follows env code m₀ fuel q r m (body m.store))
    (hjmp : code[r]? = some (.plain (.jmp start))) (hexit : code[r + 1]? = some (.label exit)) :
    ∀ k ≤ fuel, ∀ m, m₀.Inside m → Follows env code m₀ k (pc + 1) (r + 1 + 1) m
      (Execution.loop (Expr.test env c) body k m.store)
  | 0, _, m, hm => ⟨0, _, Nat.le.refl, .refl hm.suffix⟩
  | k + 1, hk, m, hm => by
    rw [Execution.loop]
    refine conditionCode_follows hn hc hs hexit hm ?_
    intro m1 hk1
    have hm1 := hm.kept hk1
    refine ((hbody m1 hm1).mono hk).seq ?_
    intro m2 hk2
    have hm2 := hm1.kept hk2
    have ih := loop_follows hn hc hstart hs hbody hjmp hexit k (by omega) m2 hm2
    exact (ih.prepend (jmp_runs hn hjmp hstart hm2.suffix) ⟨rfl, rfl, rfl⟩).mono (by omega)

/-- The code that prints the accumulator is a call with one argument. -/
theorem printCode_runs {floor : List Cell} (hs : Stands code pc Stmt.printCode pc')
    (hf : floor <:+ m.stack) : ∃ m', Runs env code floor 3 ⟨pc, m⟩ ⟨pc', m'⟩ ∧
      m'.store = (env.answer "print_int" [m.eax] m.store).2 ∧ m.Kept m.stack m' := by
  simp only [Stmt.printCode, stands_cons, stands_nil] at hs
  obtain ⟨h1, h2, h3, rfl⟩ := hs
  have hf1 : floor <:+ m.eax :: m.stack := hf.trans (List.suffix_cons _ _)
  have hcount : argumentCount code[pc + 1 + 1]? = 1 := by
    rw [h3]
    rfl
  have hcall : step env code ⟨pc + 1, { m with stack := m.eax :: m.stack }⟩ =
      .ok ⟨pc + 1 + 1, { m with stack := m.eax :: m.stack }.call env "print_int" 1⟩ := by
    rw [step_call h2, hcount]
  exact ⟨_, .step hf (step_exec h1 rfl) (.step hf1 hcall (.step hf1 (step_exec h3 rfl) (.refl hf))),
    rfl, rfl, rfl, rfl⟩

/-- The exit of a function gives back the accumulator. -/
theorem epilogue_follows (hs : Stands code pc epilogue pc') (hm : m₀.Inside m) :
    Follows env code m₀ fuel pc pc' m (some (.returned m.eax m.store)) := by
  obtain ⟨d, hr, hret, hv, hst, hk⟩ := epilogue_runs hs hm
  exact ⟨2, d, hr, hret, hv, hst, hk⟩

end Parts

section Statements

variable {env : Environment} {code : Listing} {m₀ : Machine} {fuel : Nat}

mutual

/-- **The code of a statement follows its execution.** -/
theorem Stmt.code_follows (hn : (placed code).Nodup) : ∀ {s : Stmt}, s.plain = true →
    ∀ {n pc pc' : Nat} {m : Machine}, Stands code pc (s.code n) pc' → Quiet code pc' →
      m₀.Inside m → Follows env code m₀ fuel pc pc' m (s.exec env fuel m.store)
  | .expr e, he, n, pc, pc', m, hs, hq, hm => by
    rw [Stmt.exec]
    exact Expr.codeOption_follows (e := some e) he hs hq hm
  | .variableDecl _ name none _, he, n, pc, pc', m, hs, hq, hm => by
    simp only [Stmt.code, Stmt.variableCode, stands_append, stands_cons, stands_nil] at hs
    obtain ⟨q, ⟨h1, rfl⟩, rfl⟩ := hs
    have hf := hm.suffix
    refine .silent h1 rfl hf ?_
    exact .done hf
  | .variableDecl _ name (some e) _, he, n, pc, pc', m, hs, hq, hm => by
    simp only [Stmt.code, Stmt.variableCode, stands_append, stands_cons, stands_nil] at hs
    obtain ⟨q, ⟨h1, rfl⟩, r, hv, h2, rfl⟩ := hs
    have hf := hm.suffix
    refine .silent h1 rfl hf ?_
    rw [Stmt.exec]
    refine Expr.code_follows he hv (quiet_of_line h2 rfl) hm ?_
    intro m1 _ hm1
    have hf1 := hm1.suffix
    exact ⟨1, _, .step hf1 (step_exec h2 rfl) (.refl hf1), rfl, rfl, rfl, rfl⟩
  | .block body _, he, n, pc, pc', m, hs, hq, hm => by
    simp only [Stmt.code, stands_append, stands_cons, stands_nil] at hs
    obtain ⟨r, ⟨q, ⟨h1, rfl⟩, hb⟩, h2, rfl⟩ := hs
    have hf := hm.suffix
    refine .silent h1 rfl hf ?_
    rw [Stmt.exec]
    exact (Stmt.codeAll_follows hn he hb (quiet_of_line h2 rfl) hm).pass_silent h2 rfl
  | .branch c yes no _, he, n, pc, pc', m, hs, hq, hm => by
    obtain ⟨he', hno⟩ := Bool.and_eq_true_iff.mp he
    obtain ⟨hc, hyes⟩ := Bool.and_eq_true_iff.mp he'
    simp only [Stmt.code, stands_append, stands_cons, stands_nil] at hs
    obtain ⟨q5, ⟨q4, ⟨q3, ⟨q2, ⟨q1, ⟨q, ⟨h1, rfl⟩, hcond⟩, hjz⟩, hy⟩, hjmp, helse, rfl⟩, hn'⟩,
      hend, rfl⟩ := hs
    have hf := hm.suffix
    refine .silent h1 rfl hf ?_
    rw [Stmt.exec]
    refine Expr.code_follows hc hcond (quiet_of_stands hjz rfl) hm ?_
    intro m1 _ hm1
    have hf1 := hm1.suffix
    have hm2 : m₀.Inside m1.compared := hm1
    by_cases hz : m1.eax = 0
    · refine .of_runs (jumpIfZero_runs_zero hn hjz helse hf1 hz) ⟨rfl, rfl, rfl⟩ ?_
      rw [if_pos hz]
      exact (Stmt.codeOption_follows hn hno hn' (quiet_of_line hend rfl) hm2).pass_silent hend rfl
    · refine .of_runs (jumpIfZero_runs_ne hjz hf1 hz) ⟨rfl, rfl, rfl⟩ ?_
      rw [if_neg hz]
      refine (Stmt.code_follows hn hyes hy (quiet_of_line hjmp rfl) hm2).pass ?_
      intro m' hf'
      exact ⟨2, jmp_runs hn hjmp hend hf'⟩
  | .whileLoop c body _, he, n, pc, pc', m, hs, hq, hm => by
    obtain ⟨hc, hbody⟩ := Bool.and_eq_true_iff.mp he
    simp only [Stmt.code, stands_append, stands_cons, stands_nil] at hs
    obtain ⟨q3, ⟨q2, ⟨q1, ⟨q, ⟨h1, hstart, rfl⟩, hcond⟩, hjz⟩, hb⟩, hjmp, hend, rfl⟩ := hs
    have hf := hm.suffix
    refine .silent h1 rfl hf (.silent hstart rfl hf ?_)
    rw [Stmt.exec]
    refine loop_follows (c := some c) hn hc hstart (stands_append.mpr ⟨q1, hcond, hjz⟩) ?_ hjmp hend
      fuel Nat.le.refl m hm
    intro m1 hm1
    exact Stmt.code_follows hn hbody hb (quiet_of_line hjmp rfl) hm1
  | .forLoop initial c increment body _, he, n, pc, pc', m, hs, hq, hm => by
    obtain ⟨he1, hbody⟩ := Bool.and_eq_true_iff.mp he
    obtain ⟨he2, hinc⟩ := Bool.and_eq_true_iff.mp he1
    obtain ⟨hinit, hc⟩ := Bool.and_eq_true_iff.mp he2
    simp only [Stmt.code, stands_append, stands_cons, stands_nil] at hs
    obtain ⟨q5, ⟨q4, ⟨q3, ⟨q2, ⟨q1, ⟨q, ⟨h1, rfl⟩, hi⟩, hstart, rfl⟩, hcond⟩, hb⟩, hstep⟩,
      hjmp, hend, rfl⟩ := hs
    have hf := hm.suffix
    refine .silent h1 rfl hf ?_
    rw [Stmt.exec]
    refine (Stmt.codeOption_follows hn hinit hi (quiet_of_line hstart rfl) hm).seq ?_
    intro m1 hk1
    have hm1 := hm.kept hk1
    have hf1 := hm1.suffix
    refine .silent hstart rfl hf1 ?_
    refine loop_follows hn hc hstart hcond ?_ hjmp hend fuel Nat.le.refl m1 hm1
    intro m2 hm2
    have hq5 : Quiet code q5 := quiet_of_line hjmp rfl
    refine (Stmt.code_follows hn hbody hb (Expr.quiet_option hstep hq5) hm2).seq ?_
    intro m3 hk3
    exact Expr.codeOption_follows hinc hstep hq5 (hm2.kept hk3)
  | .giveBack none _, he, n, pc, pc', m, hs, hq, hm => by
    simp only [Stmt.code, Stmt.giveBackCode, stands_append, stands_cons, stands_nil] at hs
    obtain ⟨r, ⟨q, ⟨h1, rfl⟩, h2, rfl⟩, hepi⟩ := hs
    have hf := hm.suffix
    refine .silent h1 rfl hf ?_
    exact .of_runs (.step hf (step_exec h2 rfl) (.refl hf)) ⟨rfl, rfl, rfl⟩
      (epilogue_follows (m := { m with eax := 0 }) hepi hm)
  | .giveBack (some e) _, he, n, pc, pc', m, hs, hq, hm => by
    simp only [Stmt.code, Stmt.giveBackCode, stands_append, stands_cons, stands_nil] at hs
    obtain ⟨r, ⟨q, ⟨h1, rfl⟩, hv⟩, hepi⟩ := hs
    have hf := hm.suffix
    refine .silent h1 rfl hf ?_
    rw [Stmt.exec]
    refine Expr.code_follows he hv (quiet_of_stands hepi rfl) hm ?_
    intro m1 _ hm1
    exact epilogue_follows hepi hm1
  | .print e _, he, n, pc, pc', m, hs, hq, hm => by
    simp only [Stmt.code, stands_append, stands_cons, stands_nil] at hs
    obtain ⟨r, ⟨q, ⟨h1, rfl⟩, hv⟩, hprint⟩ := hs
    have hf := hm.suffix
    refine .silent h1 rfl hf ?_
    rw [Stmt.exec]
    refine Expr.code_follows he hv (quiet_of_stands hprint rfl) hm ?_
    intro m1 _ hm1
    obtain ⟨m2, hr, hst, hk2⟩ := printCode_runs hprint hm1.suffix
    exact ⟨3, m2, hr, hst, hk2⟩

/-- The code of statements one after the other follows their execution. -/
theorem Stmt.codeAll_follows (hn : (placed code).Nodup) : ∀ {body : List Stmt},
    Stmt.plainAll body = true → ∀ {n pc pc' : Nat} {m : Machine},
      Stands code pc (Stmt.codeAll n body) pc' → Quiet code pc' → m₀.Inside m →
        Follows env code m₀ fuel pc pc' m (Stmt.execAll env fuel body m.store)
  | [], _, n, pc, pc', m, hs, hq, hm => by
    obtain rfl := stands_nil.mp hs
    exact .done hm.suffix
  | s :: rest, he, n, pc, pc', m, hs, hq, hm => by
    obtain ⟨hes, her⟩ := Bool.and_eq_true_iff.mp he
    obtain ⟨q, h1, h2⟩ := stands_append.mp hs
    rw [Stmt.execAll]
    refine (Stmt.code_follows hn hes h1 (Stmt.quiet_all h2 hq) hm).seq ?_
    intro m1 hk
    exact Stmt.codeAll_follows hn her h2 hq (hm.kept hk)

/-- The code of a statement that may be absent follows its execution. -/
theorem Stmt.codeOption_follows (hn : (placed code).Nodup) : ∀ {s : Option Stmt},
    Stmt.plainOption s = true → ∀ {n pc pc' : Nat} {m : Machine},
      Stands code pc (Stmt.codeOption n s) pc' → Quiet code pc' → m₀.Inside m →
        Follows env code m₀ fuel pc pc' m (Stmt.execOption env fuel s m.store)
  | none, _, n, pc, pc', m, hs, hq, hm => by
    obtain rfl := stands_nil.mp hs
    exact .done hm.suffix
  | some s, he, n, pc, pc', m, hs, hq, hm => Stmt.code_follows hn (s := s) he hs hq hm

end

end Statements

end StackListing
