import StackListing.Proofs.Recovery.Progress

/-!
# Recursion without a bound

Expressions contain expressions and statements contain statements, and the parser bounds the depth
of both by the number of tokens left.  Written without the bound, each of the two is a recursion
`p = F p`.  It is well founded because `F` uses its step only behind a token (`Guarded`), and so it
has one solution only.  The solution is the bounded parser (`expr_solves_iff`, `stmt_solves_iff`):
the bound is never reached.
-/

namespace StackListing

namespace Parse

open ParseState

variable {α β ι : Type} {s t : ParseState} {n : Nat}

/-! ### Recursions that read a token first -/

/-- Behind a step that reads a token, agreement is needed for one token less. -/
theorem Agree.bind_consuming {p : Parse α} [Steady p] [Consuming p] {f g : α → Parse β}
    (h : ∀ a, Agree n (f a) (g a)) : Agree (n + 1) (p >>= f) (p >>= g) := by
  intro s hs hn
  refine bind_congr_of_ok fun a t ht => ?_
  have hlt := Consuming.reads hs ht
  exact h a t ((Steady.of_ok ht).closed hs) (by omega)

/-- **The recursion uses its step only behind a token:** where one token more is left than two steps
agree on, the recursions over them agree, and at the end they use no step. -/
structure Guarded (F : (ι → Parse α) → ι → Parse α) : Prop where
  ending : ∀ p q i, Agree 0 (F p i) (F q i)
  step : ∀ {n : Nat} {p q : ι → Parse α}, (∀ i, Steady (p i)) → (∀ i, Agree n (p i) (q i)) →
    ∀ i, Agree (n + 1) (F p i) (F q i)

/-- The steps `p` are what the recursion makes of them. -/
def Solves (F : (ι → Parse α) → ι → Parse α) (p : ι → Parse α) : Prop :=
  ∀ i (s : ParseState), s.stream.stop.kind = .endOfInput → p i s = F p i s

section Guarded

variable {F : (ι → Parse α) → ι → Parse α} {p q : ι → Parse α}

theorem Guarded.agree (hF : Guarded F) (hsteady : ∀ i, Steady (p i)) (hp : Solves F p)
    (hq : Solves F q) (n : Nat) (i : ι) : Agree n (p i) (q i) := by
  induction n generalizing i with
  | zero =>
    intro s hs hn
    rw [hp i s hs, hq i s hs]
    exact hF.ending p q i s hs hn
  | succ n ih =>
    intro s hs hn
    rw [hp i s hs, hq i s hs]
    exact hF.step hsteady ih i s hs hn

/-- **A guarded recursion has one solution only.** -/
theorem Guarded.solves_iff (hF : Guarded F) (hsteady : ∀ i, Steady (p i)) (hp : Solves F p) :
    Solves F q ↔ ∀ i (s : ParseState), s.stream.stop.kind = .endOfInput → q i s = p i s := by
  constructor
  · intro hq i s hs
    exact (hF.agree hsteady hp hq _ i s hs le_rfl).symm
  · intro hq i s hs
    have hagree (i : ι) : Agree s.stream.remaining (p i) (q i) := fun t ht _ => (hq i t ht).symm
    rw [hq i s hs, hp i s hs]
    exact hF.step hsteady hagree i s hs (Nat.le_succ _)

variable {within : Nat → ι → Parse α} (hF : Guarded F) (hsteady : ∀ n i, Steady (within n i))
  (hzero : ∀ p i, Agree 0 (within 0 i) (F p i)) (hsucc : ∀ n, within (n + 1) = F (within n))

include hF hsteady hzero hsucc

theorem Guarded.within_agree_succ (n : Nat) (i : ι) :
    Agree n (within n i) (within (n + 1) i) := by
  induction n generalizing i with
  | zero =>
    rw [hsucc]
    exact hzero _ i
  | succ n ih =>
    rw [hsucc (n + 1), hsucc n]
    rw [hsucc n] at ih
    exact hF.step (hsteady n) ih i

theorem Guarded.within_agree {k : Nat} (h : n ≤ k) (i : ι) :
    Agree n (within n i) (within k i) := by
  induction k, h using Nat.le_induction with
  | base => exact .refl n _
  | succ k hk ih => exact ih.trans ((hF.within_agree_succ hsteady hzero hsucc k i).mono hk)

/-- Bounded by the tokens left, the steps solve the recursion. -/
theorem Guarded.solves_within :
    Solves F fun i => remaining >>= fun n => within n i := by
  intro i s hs
  have hagree (n : Nat) (i : ι) :
      Agree n (within n i) (remaining >>= fun n => within n i) := fun t ht hn =>
    (hF.within_agree hsteady hzero hsucc hn i t ht le_rfl).symm
  show within s.stream.remaining i s = _
  cases hn : s.stream.remaining with
  | zero => exact hzero _ i s hs hn.le
  | succ n =>
    rw [hsucc]
    exact hF.step (hsteady n) (hagree n) i s hs hn.le

end Guarded

/-! ### Expressions -/

/-- An expression, given a step for the expressions inside: an operand and its operators. -/
def exprRule (expr : Power → Parse Expr) (minimum : Power) : Parse Expr := do
  let t ← current
  match Grammar.standard.operand? t.kind with
  | none => noExpression t
  | some form =>
    let left ← operand expr form
    operators expr .standard minimum (← remaining) left

theorem exprRule_none {expr : Power → Parse Expr} {m : Power}
    (hf : Grammar.standard.operand? s.stream.current.kind = none) :
    exprRule expr m s = noExpression s.stream.current s := by
  unfold exprRule
  rw [current_bind, hf]

theorem exprRule_some {expr : Power → Parse Expr} {m : Power} {f : OperandForm}
    (hf : Grammar.standard.operand? s.stream.current.kind = some f) :
    exprRule expr m s = (operand expr f >>= fun left => remaining >>= fun k =>
      operators expr .standard m k left) s := by
  unfold exprRule
  rw [current_bind, hf]

theorem operand?_atEnd (hs : s.stream.stop.kind = .endOfInput) (hn : s.stream.remaining ≤ 0) :
    Grammar.standard.operand? s.stream.current.kind = none := by
  rw [current_of_remaining hs (Nat.le_zero.mp hn)]
  rfl

theorem guarded_exprRule : Guarded exprRule where
  ending p q m s hs hn := by
    have hf := operand?_atEnd hs hn
    rw [exprRule_none hf, exprRule_none hf]
  step {n p q} hsteady h m s hs hn := by
    cases hf : Grammar.standard.operand? s.stream.current.kind with
    | none => rw [exprRule_none hf, exprRule_none hf]
    | some f =>
      rw [exprRule_some hf, exprRule_some hf, bind_apply, bind_apply, ← operand_congr h hs hn hf,
        ← bind_apply, ← bind_apply]
      refine bind_congr_of_ok fun left t ht => ?_
      have hlead := Steady.of_ok ht
      exact Agree.operators h m _ left t (hlead.closed hs) (hlead.remaining_le.trans hn)

/-- **The parser of expressions is the only solution of its recursion.** -/
theorem expr_solves_iff {f : Power → Parse Expr} :
    Solves exprRule f ↔ ∀ m (s : ParseState), s.stream.stop.kind = .endOfInput →
      f m s = expr .standard m s := by
  have hsolves : Solves exprRule (expr .standard) := by
    refine guarded_exprRule.solves_within (steady_exprWithin .standard) ?_ fun n => rfl
    intro p m s hs hn
    have hf := operand?_atEnd hs hn
    rw [exprRule_none hf, exprWithin_none hf]
  exact guarded_exprRule.solves_iff (fun m => inferInstance) hsolves

/-! ### Statements -/

/-- A statement, given a step for the statements inside: its first token decides its form. -/
def stmtRule (stmt : Parse Stmt) : Parse Stmt := do
  match Grammar.standard.statement? (← current).kind with
  | none => expressionStmt .standard
  | some form => statement .standard stmt form

theorem stmtRule_none {stmt : Parse Stmt}
    (hf : Grammar.standard.statement? s.stream.current.kind = none) :
    stmtRule stmt s = expressionStmt .standard s := by
  unfold stmtRule
  rw [current_bind, hf]

theorem stmtRule_some {stmt : Parse Stmt} {f : StatementForm}
    (hf : Grammar.standard.statement? s.stream.current.kind = some f) :
    stmtRule stmt s = statement .standard stmt f s := by
  unfold stmtRule
  rw [current_bind, hf]

theorem statement?_atEnd (hs : s.stream.stop.kind = .endOfInput) (hn : s.stream.remaining ≤ 0) :
    Grammar.standard.statement? s.stream.current.kind = none := by
  rw [current_of_remaining hs (Nat.le_zero.mp hn)]
  rfl

section Rules

variable {step step' : Parse Stmt} (h : Agree n step step')

include h

theorem Agree.recover : Agree n (recover step) (recover step') := by
  intro s hs hn
  rw [recover_apply, recover_apply, h s hs hn]

theorem Agree.bodyStmt : Agree n (bodyStmt .standard step) (bodyStmt .standard step') :=
  Agree.bind_right fun _ => Agree.ite (.refl n _) h

variable [Steady step]

theorem Agree.statements (stops : Kind → Bool) (j : Nat) :
    Agree n (statements stops step j) (statements stops step' j) := by
  induction j with
  | zero => exact .refl n _
  | succ j ih =>
    intro s hs hn
    by_cases hends : Ends stops s
    · rw [statements_stopped hends, statements_stopped hends]
    · rw [statements_round hends, statements_round hends]
      exact h.recover.bind (fun v => ih.bind fun xs => .refl n _) s hs hn

theorem Agree.blockBody : Agree n (blockBody step) (blockBody step') :=
  Agree.bind_right fun j => (h.statements _ j).bind fun _ => .refl n _

theorem Agree.functionDecl : Agree (n + 1) (functionDecl step) (functionDecl step') := by
  refine Agree.bind_consuming fun result => Agree.bind_right fun name => ?_
  refine Agree.bind_right fun _ => Agree.bind_right fun t => Agree.ite ?_ ?_
  · refine Agree.bind_right fun ps => Agree.bind_right fun _ => Agree.bind_right fun brace => ?_
    exact h.blockBody.bind fun body => .refl n _
  · refine Agree.bind_right fun j => Agree.bind_right fun ps => Agree.bind_right fun _ => ?_
    exact Agree.bind_right fun brace => h.blockBody.bind fun body => .refl n _

theorem statement_congr (hs : s.stream.stop.kind = .endOfInput)
    (hn : s.stream.remaining ≤ n + 1) {f : StatementForm}
    (hf : Grammar.standard.statement? s.stream.current.kind = some f) :
    statement .standard step f s = statement .standard step' f s := by
  have hc : s.stream.current.kind ≠ .endOfInput := fun hk => by rw [hk] at hf; cases hf
  cases f with
  | declaration =>
    have hdecl : Agree (n + 1) (declarationStmt .standard step) (declarationStmt .standard step') :=
      Agree.bind_right fun x => Agree.bind_right fun y => Agree.ite h.functionDecl (.refl _ _)
    exact hdecl s hs hn
  | branch =>
    refine advance_bind_congr hs hn hc (Agree.bind_right fun _ => Agree.bind_right fun c => ?_)
    refine Agree.bind_right fun _ => h.bodyStmt.bind fun yes => Agree.bind_right fun b => ?_
    refine Agree.ite (Agree.bind ?_ fun no => .refl n _) (.refl n _)
    exact h.bodyStmt.bind fun no => .refl n _
  | whileLoop =>
    refine advance_bind_congr hs hn hc (Agree.bind_right fun _ => Agree.bind_right fun c => ?_)
    exact Agree.bind_right fun _ => h.bodyStmt.bind fun body => .refl n _
  | forLoop =>
    refine advance_bind_congr hs hn hc (Agree.bind_right fun _ => Agree.bind_right fun a => ?_)
    refine Agree.bind_right fun b => Agree.bind_right fun _ => Agree.bind_right fun c => ?_
    exact Agree.bind_right fun _ => h.bodyStmt.bind fun body => .refl n _
  | giveBack => rfl
  | print => rfl
  | block => exact advance_bind_congr hs hn hc (h.blockBody.bind fun body => .refl n _)

end Rules

theorem guarded_stmtRule : Guarded fun (p : Unit → Parse Stmt) i => stmtRule (p i) where
  ending p q i s hs hn := by
    have hf := statement?_atEnd hs hn
    rw [stmtRule_none hf, stmtRule_none hf]
  step {n p q} hsteady h i s hs hn := by
    have := hsteady i
    cases hf : Grammar.standard.statement? s.stream.current.kind with
    | none => rw [stmtRule_none hf, stmtRule_none hf]
    | some f =>
      rw [stmtRule_some hf, stmtRule_some hf]
      exact statement_congr (h i) hs hn hf

/-- **The parser of statements is the only solution of its recursion.** -/
theorem stmt_solves_iff {f : Parse Stmt} :
    (∀ s : ParseState, s.stream.stop.kind = .endOfInput → f s = stmtRule f s) ↔
      ∀ s : ParseState, s.stream.stop.kind = .endOfInput → f s = stmt .standard s := by
  have hsolves : Solves (fun p i => stmtRule (p i)) fun _ : Unit => stmt .standard := by
    have hsteady (n : Nat) (_ : Unit) := steady_stmtWithin .standard n
    refine guarded_stmtRule.solves_within hsteady ?_ fun n => rfl
    intro p i s hs hn
    rw [stmtRule_none (statement?_atEnd hs hn)]
    rfl
  have hiff := guarded_stmtRule.solves_iff (q := fun _ => f) (fun _ => inferInstance) hsolves
  exact ⟨fun h => hiff.mp (fun _ => h) (), fun h => hiff.mpr (fun _ => h) ()⟩

end Parse

end StackListing
