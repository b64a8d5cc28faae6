import StackListing.Proofs.Execution.Operators

/-!
# Code of expressions

The code of an expression follows its evaluation, wherever it stands in a listing: with the value in
the accumulator, the store of the evaluation and the stack as it was, or with a failure at a
division exactly where the evaluation has one.
-/

namespace StackListing

/-! ### Calls -/

/-- Whether the line at a place takes no arguments off the stack, so that a call right before it has
none. -/
def Quiet (code : Listing) (pc : Nat) : Prop := argumentCount code[pc]? = 0

theorem argumentCount_cleanup {code : Listing} {pc pc' count : Nat}
    (hs : Stands code pc (Expr.cleanup count) pc') (hq : Quiet code pc') :
    argumentCount code[pc]? = count := by
  unfold Expr.cleanup at hs
  split at hs
  next h0 =>
    obtain rfl := stands_nil.mp hs
    rw [h0]
    exact hq
  next h0 =>
    obtain ⟨h1, -⟩ := stands_cons.mp hs
    rw [h1, Line.noted, argumentCount, argumentSize]
    omega

section Code

variable {env : Environment} {code : Listing} {floor : List Cell} {pc pc' : Nat} {m : Machine}

theorem cleanup_runs {args stack : List Cell} (hs : Stands code pc (Expr.cleanup args.length) pc')
    (hm : m.stack = args ++ stack) (hf : floor <:+ stack) :
    ∃ k, Runs env code floor k ⟨pc, m⟩ ⟨pc', { m with stack := stack }⟩ := by
  have hf' : floor <:+ m.stack := hm ▸ hf.trans (List.suffix_append args stack)
  unfold Expr.cleanup at hs
  split at hs
  next h0 =>
    obtain rfl := stands_nil.mp hs
    obtain rfl := List.eq_nil_of_length_eq_zero h0
    have hm' : { m with stack := stack } = m := by rw [← List.nil_append stack, ← hm]
    exact ⟨0, hm' ▸ .refl hf⟩
  next h0 =>
    simp only [stands_cons, stands_nil] at hs
    obtain ⟨h1, rfl⟩ := hs
    have hdrop : m.stack.drop (argumentSize * args.length / 4).toNat = stack := by
      have hn : (argumentSize * args.length / 4).toNat = args.length := by
        rw [argumentSize]
        omega
      rw [hn, hm, List.drop_left]
    have hi : m.exec (.add Register.esp (.immediate (argumentSize * args.length))) =
        .ok { m with stack := stack } := by
      rw [← hdrop]
      rfl
    exact ⟨1, .step hf' (step_exec h1 hi) (.refl hf)⟩

theorem quiet_of_line {line : Line} (h : code[pc]? = some line)
    (hl : argumentCount (some line) = 0) : Quiet code pc := by rwa [Quiet, h]

theorem quiet_of_stands {line : Line} {lines : Listing} (hs : Stands code pc (line :: lines) pc')
    (hl : argumentCount (some line) = 0) : Quiet code pc :=
  quiet_of_line (stands_cons.mp hs).1 hl

theorem quiet_unaryOp {op : UnaryOp} (hs : Stands code pc op.code pc') : Quiet code pc := by
  cases op <;> exact quiet_of_stands hs rfl

/-- The machine has the values on top of its stack. -/
def Machine.Stacks (m : Machine) (count : Nat) (vs : List Cell) (m' : Machine) : Prop :=
  vs.length = count ∧ m.Kept (vs ++ m.stack) m'

mutual

/-- **The code of an expression follows its evaluation.** -/
theorem Expr.code_computes : ∀ {e : Expr}, e.plain = true → ∀ {n pc pc' : Nat} {m : Machine},
    Stands code pc (e.code n) pc' → Quiet code pc' →
      Computes env code m.stack (e.eval env) pc pc' m m.Delivers
  | .literal (.integer k) _, he, n, pc, pc', m, hs, hq => by
    simp only [Expr.code, Literal.code, stands_cons, stands_nil] at hs
    obtain ⟨h1, rfl⟩ := hs
    exact .of_exec List.suffix_rfl h1 rfl rfl (.pure List.suffix_rfl ⟨rfl, rfl, rfl, rfl⟩)
  | .literal (.boolean b) _, he, n, pc, pc', m, hs, hq => by
    simp only [Expr.code, Literal.code, stands_cons, stands_nil] at hs
    obtain ⟨h1, rfl⟩ := hs
    have hb : BitVec.ofInt 32 (if b then 1 else 0) = truth b := by cases b <;> rfl
    exact .of_exec List.suffix_rfl h1 rfl rfl (.pure List.suffix_rfl ⟨hb, rfl, rfl, rfl⟩)
  | .var name _, he, n, pc, pc', m, hs, hq => by
    simp only [Expr.code, stands_cons, stands_nil] at hs
    obtain ⟨h1, rfl⟩ := hs
    exact .of_exec List.suffix_rfl h1 rfl rfl (.pure List.suffix_rfl ⟨rfl, rfl, rfl, rfl⟩)
  | .unary op operand _, he, n, pc, pc', m, hs, hq => by
    obtain ⟨q, h1, h2⟩ := stands_append.mp hs
    rw [Expr.eval]
    refine (Expr.code_computes (e := operand) he h1 (quiet_unaryOp h2)).bind ?_
    intro v m1 hm
    obtain ⟨rfl, hst, -⟩ := id hm
    refine (op.code_computes h2 (hst ▸ List.suffix_rfl)).weaken ?_
    intro w m2 hw
    exact hm.trans hw
  | .binary op left right _, he, n, pc, pc', m, hs, hq => by
    obtain ⟨hel, her⟩ := Bool.and_eq_true_iff.mp he
    simp only [Expr.code, stands_append, stands_cons, stands_nil] at hs
    obtain ⟨q4, ⟨q3, ⟨q2, ⟨q1, hl, hpush, rfl⟩, hr⟩, hmov, hpop, rfl⟩, hop⟩ := hs
    rw [Expr.eval]
    refine (Expr.code_computes hel hl (quiet_of_line hpush rfl)).bind ?_
    rintro a m1 ⟨rfl, hst, heb, hba⟩
    have hf : m.stack <:+ m1.stack := hst ▸ List.suffix_rfl
    have hf1 : m.stack <:+ m1.eax :: m1.stack := hf.trans (List.suffix_cons _ _)
    have hr' := Expr.code_computes (m := { m1 with stack := m1.eax :: m1.stack }) her hr
      (quiet_of_line hmov rfl)
    refine .of_exec hf hpush rfl rfl ((hr'.mono hf1).bind ?_)
    rintro b m2 ⟨rfl, hst2, heb2, hba2⟩
    have hf2 : m.stack <:+ m2.stack := hst2 ▸ hf1
    have hpop' : { m2 with ebx := m2.eax }.exec (.pop .eax) =
        .ok { m2 with ebx := m2.eax, eax := m1.eax, stack := m1.stack } := by
      rw [Machine.exec, hst2]
      rfl
    refine .of_exec hf2 hmov rfl rfl (.of_exec hf2 hpop hpop' rfl ?_)
    refine (op.code_computes
      (m := { m2 with ebx := m2.eax, eax := m1.eax, stack := m1.stack }) hop hf).weaken ?_
    rintro w m3 ⟨hw, hst3, heb3, hba3⟩
    exact ⟨hw, hst3.trans hst, heb3.trans (heb2.trans heb), hba3.trans (hba2.trans hba)⟩
  | .call callee arguments _, he, n, pc, pc', m, hs, hq => by
    obtain ⟨hc, ha⟩ := Bool.and_eq_true_iff.mp he
    obtain ⟨name, hname⟩ := Option.isSome_iff_exists.mp hc
    simp only [Expr.code, hname, stands_append, stands_cons, stands_nil] at hs
    obtain ⟨q2, ⟨q1, ⟨q, ⟨hcomment, rfl⟩, hargs⟩, hcall, rfl⟩, hclean⟩ := hs
    rw [Expr.eval, hname]
    refine .of_step List.suffix_rfl (step_silent hcomment rfl) rfl ?_
    refine (Expr.codeAll_computes ha hargs).bind ?_
    rintro vs m1 ⟨hlen, hst, heb, hba⟩
    have hf : m.stack <:+ m1.stack := hst ▸ List.suffix_append vs m.stack
    have hcount : argumentCount code[q1 + 1]? = vs.length :=
      hlen ▸ argumentCount_cleanup hclean hq
    have htake : m1.stack.take vs.length = vs := by rw [hst, List.take_left]
    have hstep : step env code ⟨q1, m1⟩ = .ok ⟨q1 + 1, m1.call env name vs.length⟩ :=
      hcount ▸ step_call hcall
    obtain ⟨k, hk⟩ := cleanup_runs (m := m1.call env name vs.length) (hlen ▸ hclean) hst
      List.suffix_rfl
    have hanswer : (m1.call env name vs.length).eax = (env.answer name vs m1.store).1 ∧
        (m1.call env name vs.length).store = (env.answer name vs m1.store).2 := by
      rw [Machine.call, htake]
      exact ⟨rfl, rfl⟩
    exact (Computes.iff_of_ok rfl).mpr
      ⟨k + 1, _, .step hf hstep hk, hanswer.2, hanswer.1, rfl, heb, hba⟩
  | .assign name value _, he, n, pc, pc', m, hs, hq => by
    simp only [Expr.code, stands_append, stands_cons, stands_nil] at hs
    obtain ⟨q, hv, hmov, rfl⟩ := hs
    rw [Expr.eval]
    refine (Expr.code_computes (e := value) he hv (quiet_of_line hmov rfl)).bind ?_
    rintro v m1 ⟨rfl, hst, heb, hba⟩
    have hf : m.stack <:+ m1.stack := hst ▸ List.suffix_rfl
    exact .of_exec hf hmov rfl rfl (.pure hf ⟨rfl, hst, heb, hba⟩)

/-- The code of arguments leaves their values on the stack. -/
theorem Expr.codeAll_computes : ∀ {es : List Expr}, Expr.plainAll es = true →
    ∀ {n index pc pc' : Nat} {m : Machine}, Stands code pc (Expr.codeAll n index es) pc' →
      Computes env code m.stack (Expr.evalAll env es) pc pc' m (m.Stacks es.length)
  | [], _, n, index, pc, pc', m, hs => by
    obtain rfl := stands_nil.mp hs
    exact .pure List.suffix_rfl ⟨rfl, rfl, rfl, rfl⟩
  | e :: es, he, n, index, pc, pc', m, hs => by
    obtain ⟨he, hes⟩ := Bool.and_eq_true_iff.mp he
    simp only [Expr.codeAll, stands_append, stands_cons, stands_nil] at hs
    obtain ⟨q2, ⟨q1, h1, h2⟩, hpush, rfl⟩ := hs
    rw [Expr.evalAll]
    refine (Expr.codeAll_computes hes h1).bind ?_
    rintro vs m1 ⟨hlen, hst, heb, hba⟩
    have hf : m.stack <:+ m1.stack := hst ▸ List.suffix_append vs m.stack
    refine ((Expr.code_computes he h2 (quiet_of_line hpush rfl)).mono hf).bind ?_
    rintro v m2 ⟨rfl, hst2, heb2, hba2⟩
    have hf2 : m.stack <:+ m2.stack := hst2 ▸ hf
    refine .of_exec hf2 hpush rfl rfl (.pure (hf2.trans (List.suffix_cons _ _)) ?_)
    refine ⟨congrArg (· + 1) hlen, ?_, heb2.trans heb, hba2.trans hba⟩
    exact congrArg (m2.eax :: ·) (hst2.trans hst)

end

end Code

/-! ### The code by itself -/

theorem step_length (env : Environment) (code : Listing) (m : Machine) :
    step env code ⟨code.length, m⟩ = .error .finished := by
  rw [step, List.getElem?_eq_none Nat.le.refl]

/-- A run that gets to the end of a listing does not fail to divide. -/
theorem Runs.not_faults {env : Environment} {code : Listing} {floor floor' : List Cell} {k : Nat}
    {c : Config} {m : Machine} (h : Runs env code floor k c ⟨code.length, m⟩) :
    ¬ Faults env code floor' c := by
  rintro ⟨k', d, r, remark, hr, hline, hs⟩
  obtain rfl := h.unique hr (step_length env code m) hs
  rw [step_length] at hs
  cases hs

/-- **Code of expressions is correct.**  Where the evaluation has a value, the code leaves it in the
accumulator, with the store of the evaluation and the stack as it was, and the run never takes away
what it found on the stack.  It fails to divide exactly where the evaluation does, and that is all
that can go wrong. -/
theorem Expr.code_evaluates (env : Environment) {e : Expr} (he : e.plain = true) (n : Nat)
    (m : Machine) :
    (∀ v σ, e.eval env m.store = .ok (v, σ) →
      ∃ k m', Runs env (e.code n) m.stack k ⟨0, m⟩ ⟨(e.code n).length, m'⟩ ∧
        m'.eax = v ∧ m'.store = σ ∧ m'.stack = m.stack ∧ m'.ebp = m.ebp) ∧
    (Faults env (e.code n) m.stack ⟨0, m⟩ ↔ e.eval env m.store = .error .division) ∧
    e.eval env m.store ≠ .error .unsupported := by
  have hq : Quiet (e.code n) (e.code n).length := by
    rw [Quiet, List.getElem?_eq_none Nat.le.refl]
    rfl
  have h : Computes env (e.code n) m.stack (e.eval env) 0 (e.code n).length m m.Delivers :=
    Expr.code_computes he (.whole (e.code n)) hq
  rcases hx : e.eval env m.store with t | ⟨v, σ⟩
  · obtain ⟨rfl, hf⟩ := (Computes.iff_of_error hx).mp h
    simpa using hf
  · obtain ⟨k, m', hr, hs, hv, hst, hb, -⟩ := (Computes.iff_of_ok hx).mp h
    refine ⟨?_, ?_, by simp⟩
    · rintro v' σ' heq
      cases heq
      exact ⟨k, m', hr, hv, hs, hst, hb⟩
    · simpa using hr.not_faults

/-- An environment in which a call gives back the difference of its first two arguments. -/
def Environment.difference : Environment where
  reply _ σ arguments := ⟨arguments.getD 0 0 - arguments.getD 1 0, σ.memory, []⟩
  scratch _ _ := (7, 7)
  flags _ _ := ⟨true, true, true⟩

/-- A machine with an empty stack, on which everything is zero. -/
def Machine.cleared : Machine :=
  ⟨0, 0, 0, 0, ⟨false, false, false⟩, 0, [], ⟨fun _ => 0, []⟩⟩

/-- The code of `f(x = 7, 10) / 2 + x`, with the quotient of minus three. -/
theorem Expr.code_evaluates_quotient :
    let e : Expr := .binary .add
      (.binary .divide
        (.call (.var "f" ⟨1, 1⟩)
          [.assign "x" (.literal (.integer 7) ⟨1, 1⟩) ⟨1, 1⟩, .literal (.integer 10) ⟨1, 1⟩] ⟨1, 1⟩)
        (.literal (.integer 2) ⟨1, 1⟩) ⟨1, 1⟩)
      (.var "x" ⟨1, 1⟩) ⟨1, 1⟩
    e.plain = true ∧ ∃ k m', Runs .difference (e.code 0) [] k ⟨0, .cleared⟩
      ⟨(e.code 0).length, m'⟩ ∧ m'.eax = 6 ∧ m'.store.memory "x" = 7 := by
  intro e
  have he : e.plain = true := by decide
  obtain ⟨k, m', hr, hv, hs, -⟩ := (Expr.code_evaluates .difference he 0 .cleared).1 6
    ⟨fun x => if x = "x" then 7 else 0, []⟩ rfl
  exact ⟨he, k, m', hr, hv, by rw [hs]; rfl⟩

end StackListing
