import Mathlib.Order.Nat
import StackListing.Proofs.Grammar.ExprReading

/-!
# Steps that agree

The parser of expressions carries a bound on the tokens that are left.  `Agree n p q` says that the
steps `p` and `q` do the same wherever at most `n` tokens are left: they give the same result, fail
alike, stop at the same token and report the same complaints.  Unlike `Reads` this is about every
run, with or without complaints.

Each rule for expressions reads a token before it uses the step for the expressions inside it.  So
if two such steps agree up to `n` tokens, the rules over them agree up to `n + 1`, and the bound of
`exprWithin` makes no difference as soon as it is large enough (`exprWithin_agree`).
-/

namespace StackListing

namespace ParseState

variable {s t : ParseState}

theorem Leads.closed (h : s.Leads t) (hs : s.stream.stop.kind = .endOfInput) :
    t.stream.stop.kind = .endOfInput := by
  rw [h.stop]; exact hs

theorem Leads.remaining_le (h : s.Leads t) : t.stream.remaining ≤ s.stream.remaining := by
  obtain ⟨ts, ha, -⟩ := h.read
  unfold TokenStream.remaining
  rw [ha, List.length_append]
  omega

/-- Behind a token that is no end marker one token less is left. -/
theorem remaining_advance (hs : s.stream.stop.kind = .endOfInput)
    (hc : s.stream.current.kind ≠ .endOfInput) :
    s.stream.advance.remaining + 1 = s.stream.remaining := by
  obtain ⟨⟨b, a, e, z⟩, ds⟩ := s
  cases a with
  | nil => exact absurd hs hc
  | cons x xs => rfl

theorem current_of_remaining (hs : s.stream.stop.kind = .endOfInput)
    (h : s.stream.remaining = 0) : s.stream.current.kind = .endOfInput := by
  have ha : s.stream.ahead = [] := List.eq_nil_of_length_eq_zero h
  unfold TokenStream.current
  rw [ha]
  exact hs

end ParseState

namespace Parse

open ParseState

variable {α β : Type} {n : Nat} {s t : ParseState}

/-- **The steps agree on what has at most `n` tokens left.** -/
def Agree (n : Nat) (p q : Parse α) : Prop :=
  ∀ s : ParseState, s.stream.stop.kind = .endOfInput → s.stream.remaining ≤ n → p s = q s

theorem Agree.refl (n : Nat) (p : Parse α) : Agree n p p := fun _ _ _ => rfl

theorem Agree.trans {p q r : Parse α} (h : Agree n p q) (h' : Agree n q r) : Agree n p r :=
  fun s hs hn => (h s hs hn).trans (h' s hs hn)

theorem Agree.mono {p q : Parse α} {k : Nat} (h : Agree k p q) (hn : n ≤ k) : Agree n p q :=
  fun s hs hs' => h s hs (hs'.trans hn)

/-! ### Composed steps -/

theorem current_bind (f : Token → Parse β) :
    (current >>= f) s = f s.stream.current s := rfl

theorem remaining_bind (f : Nat → Parse β) :
    (remaining >>= f) s = f s.stream.remaining s := rfl

theorem advance_bind (f : Token → Parse β) :
    (advance >>= f) s = f s.stream.current ⟨s.stream.advance, s.errors⟩ := rfl

/-- Two continuations that agree do so behind the same step. -/
theorem bind_congr_of_ok {p : Parse α} {f g : α → Parse β}
    (h : ∀ a t, p s = .ok a t → f a t = g a t) : (p >>= f) s = (p >>= g) s := by
  rw [bind_apply, bind_apply]
  cases hp : p s with
  | ok a t => exact h a t hp
  | error d t => rfl

theorem Agree.bind {p q : Parse α} {f g : α → Parse β} [Steady p] (h : Agree n p q)
    (hf : ∀ a, Agree n (f a) (g a)) : Agree n (p >>= f) (q >>= g) := by
  intro s hs hn
  have hq : (q >>= g) s = (p >>= g) s := by rw [bind_apply, bind_apply, h s hs hn]
  rw [hq]
  refine bind_congr_of_ok fun a t ht => ?_
  have hlead := Steady.of_ok ht
  exact hf a t (hlead.closed hs) (hlead.remaining_le.trans hn)

theorem Agree.bind_right {p : Parse α} {f g : α → Parse β} [Steady p]
    (hf : ∀ a, Agree n (f a) (g a)) : Agree n (p >>= f) (p >>= g) :=
  (Agree.refl n p).bind hf

theorem Agree.ite {c : Prop} [Decidable c] {p p' q q' : Parse α} (hp : Agree n p p')
    (hq : Agree n q q') : Agree n (if c then p else q) (if c then p' else q') := by
  split_ifs
  · exact hp
  · exact hq

/-- Behind a token that was read, agreement is needed for one token less. -/
theorem advance_bind_congr {f g : Token → Parse β} (hs : s.stream.stop.kind = .endOfInput)
    (hn : s.stream.remaining ≤ n + 1) (hc : s.stream.current.kind ≠ .endOfInput)
    (h : Agree n (f s.stream.current) (g s.stream.current)) :
    (advance >>= f) s = (advance >>= g) s := by
  have hrem := remaining_advance hs hc
  refine h ⟨s.stream.advance, s.errors⟩ ((Leads.advance s).closed hs) ?_
  show s.stream.advance.remaining ≤ n
  omega

/-- A step that begins with a token and succeeds leaves less than it found. -/
theorem remaining_lt_of_advance {f : Token → Parse β} (hf : ∀ x, Steady (f x))
    (hs : s.stream.stop.kind = .endOfInput) (hc : s.stream.current.kind ≠ .endOfInput) {b : β}
    (h : (advance >>= f) s = .ok b t) : t.stream.remaining < s.stream.remaining := by
  have hrem := remaining_advance hs hc
  have hrun : f s.stream.current ⟨s.stream.advance, s.errors⟩ = .ok b t := h
  have hle : t.stream.remaining ≤ s.stream.advance.remaining :=
    (Steady.of_ok (p := f s.stream.current) hrun).remaining_le
  omega

/-! ### The rules for expressions -/

theorem operand_ne_end {f : OperandForm}
    (hf : Grammar.standard.operand? s.stream.current.kind = some f) :
    s.stream.current.kind ≠ .endOfInput := by
  intro hk
  rw [hk] at hf
  cases hf

theorem operator_ne_end {p : Power} {f : OperatorForm}
    (hf : Grammar.standard.operator? s.stream.current.kind = some (p, f)) :
    s.stream.current.kind ≠ .endOfInput := by
  intro hk
  rw [hk] at hf
  cases hf

/-! The loop over operators ends where it stops and takes an operator that holds strongly enough. -/

theorem operators_of_stops {expr : Power → Parse Expr} {m : Power} {k : Nat} {left : Expr}
    (h : Stops m s) : operators expr .standard m k left s = .ok left s := by
  cases k with
  | zero => rfl
  | succ k =>
    unfold operators
    rw [current_bind]
    cases hop : Grammar.standard.operator? s.stream.current.kind with
    | none => rfl
    | some r =>
      obtain ⟨p, f⟩ := r
      have hm : ¬ m < p := not_lt.mpr (h p f hop)
      simp only [hm, if_false]
      rfl

theorem operators_succ {expr : Power → Parse Expr} {m p : Power} {f : OperatorForm} {k : Nat}
    {left : Expr} (hop : Grammar.standard.operator? s.stream.current.kind = some (p, f))
    (hm : m.rank < p.rank) : operators expr .standard m (k + 1) left s =
      (operator expr left p f >>= operators expr .standard m k) s := by
  have hm' : m < p := hm
  conv_lhs => unfold operators
  rw [current_bind, hop]
  simp only [hm', if_true]

section Rules

variable {expr expr' : Power → Parse Expr} [∀ m, Steady (expr m)]

theorem Agree.arguments (h : ∀ m, Agree n (expr m) (expr' m)) (j : Nat) :
    Agree n (arguments expr j) (arguments expr' j) := by
  induction j with
  | zero => exact (h .lowest).bind fun _ => .refl n _
  | succ j ih =>
    refine (h .lowest).bind fun e => Agree.bind_right fun c => Agree.ite ?_ (.refl n _)
    exact ih.bind fun es => .refl n _

theorem operand_congr (h : ∀ m, Agree n (expr m) (expr' m))
    (hs : s.stream.stop.kind = .endOfInput) (hn : s.stream.remaining ≤ n + 1) {f : OperandForm}
    (hf : Grammar.standard.operand? s.stream.current.kind = some f) :
    operand expr f s = operand expr' f s := by
  have hc := operand_ne_end hf
  cases f with
  | primary => rfl
  | unary =>
    refine advance_bind_congr hs hn hc ?_
    split
    · exact (h .unary).bind fun e => .refl n _
    · exact .refl n _
  | grouping => exact advance_bind_congr hs hn hc ((h .lowest).bind fun e => .refl n _)

theorem operator_congr (h : ∀ m, Agree n (expr m) (expr' m))
    (hs : s.stream.stop.kind = .endOfInput) (hn : s.stream.remaining ≤ n + 1) {p : Power}
    {f : OperatorForm} (hf : Grammar.standard.operator? s.stream.current.kind = some (p, f))
    (left : Expr) : operator expr left p f s = operator expr' left p f s := by
  have hc := operator_ne_end hf
  cases f with
  | binary =>
    refine advance_bind_congr hs hn hc ?_
    split
    · exact (h p).bind fun e => .refl n _
    · exact .refl n _
  | assignment => exact advance_bind_congr hs hn hc ((h .lowest).bind fun e => .refl n _)
  | call =>
    refine advance_bind_congr hs hn hc (Agree.bind_right fun t => Agree.ite (.refl n _) ?_)
    exact Agree.bind_right fun j => (Agree.arguments h j).bind fun es => .refl n _

/-- An operator with what it joins takes at least its own token. -/
theorem remaining_lt_of_operator (hs : s.stream.stop.kind = .endOfInput) {p : Power}
    {f : OperatorForm} (hf : Grammar.standard.operator? s.stream.current.kind = some (p, f))
    {left e : Expr} (h : operator expr left p f s = .ok e t) :
    t.stream.remaining < s.stream.remaining := by
  have hc := operator_ne_end hf
  cases f with
  | binary =>
    refine remaining_lt_of_advance (fun x => ?_) hs hc h
    split <;> infer_instance
  | assignment =>
    refine remaining_lt_of_advance (fun x => Steady.bind inferInstance fun v => ?_) hs hc h
    split <;> infer_instance
  | call => exact remaining_lt_of_advance inferInstance hs hc h

/-- **The loop goes on until it stops:** where it succeeds, no operator that holds more strongly
than the minimum comes next. -/
theorem operators_stops {m : Power} : ∀ (k : Nat) {left e : Expr} {s : ParseState},
    s.stream.stop.kind = .endOfInput → s.stream.remaining ≤ k →
      operators expr .standard m k left s = .ok e t → Stops m t := by
  intro k
  induction k with
  | zero =>
    intro left e s hs hk h
    have hend := current_of_remaining hs (Nat.le_zero.mp hk)
    have hstop : Stops m s := stops_of_none (by rw [hend]; rfl)
    cases h
    exact hstop
  | succ k ih =>
    intro left e s hs hk h
    by_cases hstop : Stops m s
    · rw [operators_of_stops hstop] at h
      cases h
      exact hstop
    · obtain ⟨p, f, -, hop, hlt, -⟩ := exists_of_not_stops hs hstop
      rw [operators_succ hop hlt, bind_apply] at h
      cases h1 : operator expr left p f s with
      | error d t1 => simp [h1] at h
      | ok e1 t1 =>
        simp only [h1] at h
        have hrem := remaining_lt_of_operator hs hop h1
        exact ih ((Steady.of_ok h1).closed hs) (by omega) h

theorem Agree.operators (h : ∀ m, Agree n (expr m) (expr' m)) (m : Power) (k : Nat) :
    ∀ left, Agree (n + 1) (operators expr .standard m k left)
      (operators expr' .standard m k left) := by
  induction k with
  | zero => exact fun left => .refl _ _
  | succ k ih =>
    intro left s hs hn
    by_cases hstop : Stops m s
    · rw [operators_of_stops hstop, operators_of_stops hstop]
    · obtain ⟨p, f, -, hop, hlt, -⟩ := exists_of_not_stops hs hstop
      have hstep : (operator expr' left p f >>= Parse.operators expr' .standard m k) s =
          (operator expr left p f >>= Parse.operators expr' .standard m k) s := by
        rw [bind_apply, bind_apply, operator_congr h hs hn hop]
      rw [operators_succ hop hlt, operators_succ hop hlt, hstep]
      refine bind_congr_of_ok fun e t ht => ?_
      have hlead := Steady.of_ok ht
      exact ih e t (hlead.closed hs) (hlead.remaining_le.trans hn)

end Rules

/-! ### The bound makes no difference -/

theorem exprWithin_succ {m : Power} {f : OperandForm}
    (hf : Grammar.standard.operand? s.stream.current.kind = some f) :
    exprWithin .standard (n + 1) m s = (operand (exprWithin .standard n) f >>= fun left =>
      remaining >>= fun k => operators (exprWithin .standard n) .standard m k left) s := by
  conv_lhs => unfold exprWithin
  rw [current_bind, hf]

theorem exprWithin_none {m : Power}
    (hf : Grammar.standard.operand? s.stream.current.kind = none) :
    exprWithin .standard n m s = noExpression s.stream.current s := by
  cases n with
  | zero => rfl
  | succ n =>
    unfold exprWithin
    rw [current_bind, hf]

/-- An expression is read up to a token that does not continue it. -/
theorem exprWithin_stops {m : Power} {e : Expr} (hs : s.stream.stop.kind = .endOfInput)
    (h : exprWithin .standard n m s = .ok e t) : Stops m t := by
  cases hf : Grammar.standard.operand? s.stream.current.kind with
  | none =>
    rw [exprWithin_none hf] at h
    cases h
  | some f =>
    cases n with
    | zero => cases h
    | succ n =>
      rw [exprWithin_succ hf, bind_apply] at h
      cases h1 : operand (exprWithin .standard n) f s with
      | error d t1 => simp [h1] at h
      | ok left t1 =>
        simp only [h1] at h
        exact operators_stops _ ((Steady.of_ok h1).closed hs) le_rfl h

theorem exprWithin_agree_succ (m : Power) :
    Agree n (exprWithin .standard n m) (exprWithin .standard (n + 1) m) := by
  induction n generalizing m with
  | zero =>
    intro s hs hn
    have hend := current_of_remaining hs (Nat.le_zero.mp hn)
    have hf : Grammar.standard.operand? s.stream.current.kind = none := by rw [hend]; rfl
    rw [exprWithin_none hf, exprWithin_none hf]
  | succ n ih =>
    intro s hs hn
    cases hf : Grammar.standard.operand? s.stream.current.kind with
    | none => rw [exprWithin_none hf, exprWithin_none hf]
    | some f =>
      rw [exprWithin_succ hf, exprWithin_succ hf]
      have hoperand := operand_congr ih hs hn hf
      rw [bind_apply, bind_apply, ← hoperand, ← bind_apply, ← bind_apply]
      refine bind_congr_of_ok fun left t ht => ?_
      have hlead := Steady.of_ok ht
      exact Agree.operators ih m _ left t (hlead.closed hs) (hlead.remaining_le.trans hn)

/-- **A larger bound reads the same.** -/
theorem exprWithin_agree (m : Power) {k : Nat} (h : n ≤ k) :
    Agree n (exprWithin .standard n m) (exprWithin .standard k m) := by
  induction k, h using Nat.le_induction with
  | base => exact .refl n _
  | succ k hk ih => exact ih.trans ((exprWithin_agree_succ m).mono hk)

end Parse

end StackListing
