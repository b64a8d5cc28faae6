import Mathlib.Logic.Function.Iterate
import StackListing.Proofs.Descent.Levels
import StackListing.Proofs.Grammar.Acceptance
import StackListing.Proofs.Parsing.Agree

/-!
# One loop over powers reads as ten levels do

The parser of expressions has one loop that goes on while an operator holds more strongly than a
minimum; recursive descent has a function for each level.  The two do the same from every place of
every token stream, also where they complain or fail.

The argument is that a loop with the minimum `m` can be cut in two: it is the loop with the next
tighter power as minimum, and then what is left to do at that power (`operators_split`).  Cut at
every power, the loop becomes the levels.  At a power of binary operators what is left is a chain of
the operators of that power (`chain_tail`), and for assignments it is at most one assignment
(`assigned_tail`), since its value takes all that follows.
-/

namespace StackListing

open Parse ParseState

namespace Descent

variable {n : Nat} {s : ParseState} {m p : Power}

/-! ### Cutting the loop -/

/-- **The loop is cut at a power:** it runs with that power as minimum first, and then does what is
left to do where no operator holds more strongly than that. -/
theorem operators_split {expr : Power → Parse Expr} [∀ m, Steady (expr m)]
    {tail : Expr → Parse Expr}
    (hmp : m.rank < p.rank)
    (htail : ∀ (k : Nat) (left : Expr) (s : ParseState), s.stream.stop.kind = .endOfInput →
      s.stream.remaining ≤ n → s.stream.remaining ≤ k → Stops p s →
        operators expr .standard m k left s = tail left s) :
    ∀ (k : Nat) (left : Expr) (s : ParseState), s.stream.stop.kind = .endOfInput →
      s.stream.remaining ≤ n → s.stream.remaining ≤ k →
        operators expr .standard m k left s =
          (operators expr .standard p k left >>= tail) s := by
  intro k
  induction k with
  | zero =>
    intro left s hs hn hk
    have hend := current_of_remaining hs (Nat.le_zero.mp hk)
    have hstop : Stops p s := stops_of_none (by rw [hend]; rfl)
    rw [bind_apply, operators_of_stops hstop]
    exact htail 0 left s hs hn hk hstop
  | succ k ih =>
    intro left s hs hn hk
    by_cases hstop : Stops p s
    · rw [bind_apply, operators_of_stops hstop]
      exact htail (k + 1) left s hs hn hk hstop
    · obtain ⟨q, f, -, hop, hlt, -⟩ := exists_of_not_stops hs hstop
      rw [operators_succ hop (hmp.trans hlt), bind_apply, bind_apply, operators_succ hop hlt,
        ← bind_apply, ← bind_apply, bind_assoc]
      refine bind_congr_of_ok fun e t ht => ?_
      have hlead := Steady.of_ok ht
      have hrem := remaining_lt_of_operator hs hop ht
      exact ih e t (hlead.closed hs) (by omega) (by omega)

theorem exprWithin_split {tail : Expr → Parse Expr} (hmp : m.rank < p.rank)
    (htail : ∀ (k : Nat) (left : Expr) (s : ParseState), s.stream.stop.kind = .endOfInput →
      s.stream.remaining ≤ n + 1 → s.stream.remaining ≤ k → Stops p s →
        operators (Parse.exprWithin .standard n) .standard m k left s = tail left s) :
    Agree (n + 1) (Parse.exprWithin .standard (n + 1) m)
      (Parse.exprWithin .standard (n + 1) p >>= tail) := by
  intro s hs hn
  cases hf : Grammar.standard.operand? s.stream.current.kind with
  | none =>
    rw [bind_apply, exprWithin_none hf, exprWithin_none hf]
    rfl
  | some f =>
    rw [bind_apply, exprWithin_succ hf, exprWithin_succ hf, ← bind_apply, bind_assoc]
    refine bind_congr_of_ok fun left t ht => ?_
    have hlead := Steady.of_ok ht
    have hle := hlead.remaining_le
    rw [bind_assoc, remaining_bind, remaining_bind]
    exact operators_split hmp htail _ left t (hlead.closed hs) (by omega) le_rfl

/-! ### The levels of binary operators -/

/-- The signs are those of the operators with the power `p`, and these are all binary. -/
def SignsOf (p : Power) (signs : Signs) : Prop :=
  ∀ k ∈ Kind.all, (Grammar.standard.operator? k).all (fun r => r.1 ≠ p ∨ r.2 = .binary) ∧
    signs.lookup k = if (Grammar.standard.operator? k).any (·.1 = p) then BinaryOp.ofKind? k
      else none

instance (p : Power) (signs : Signs) : Decidable (SignsOf p signs) :=
  inferInstanceAs (Decidable (∀ k ∈ Kind.all, _ ∧ _))

theorem SignsOf.joins {signs : Signs} (h : SignsOf p signs) {k : Kind} {f : OperatorForm}
    (hop : Grammar.standard.operator? k = some (p, f)) :
    f = .binary ∧ ∃ op, BinaryOp.ofKind? k = some op ∧ signs.lookup k = some op := by
  obtain ⟨hform, hlookup⟩ := h k (Kind.mem_all k)
  rw [hop] at hform hlookup
  obtain rfl : f = .binary := by simpa using hform
  obtain ⟨w, hw⟩ := exists_infixWord (t := ⟨k, "", .start⟩) hop
  have hnamed : BinaryOp.ofKind? k = some w.op := by
    have := w.named
    rwa [hw] at this
  exact ⟨rfl, w.op, hnamed, by simpa [hnamed] using hlookup⟩

theorem SignsOf.others {signs : Signs} (h : SignsOf p signs) {k : Kind}
    (hop : ∀ f, Grammar.standard.operator? k ≠ some (p, f)) : signs.lookup k = none := by
  obtain ⟨-, hlookup⟩ := h k (Kind.mem_all k)
  rw [hlookup, if_neg]
  intro hany
  cases hr : Grammar.standard.operator? k with
  | none => simp [hr] at hany
  | some r =>
    obtain ⟨q, f⟩ := r
    rw [hr] at hany
    obtain rfl : q = p := by simpa using hany
    exact hop f hr

theorem chain_of_none {signs : Signs} {operand : Parse Expr} {j : Nat} {left : Expr}
    (h : signs.lookup s.stream.current.kind = none) :
    chain signs operand j left s = .ok left s := by
  cases j with
  | zero => rfl
  | succ j =>
    unfold chain
    rw [current_bind, h]
    rfl

theorem chain_succ {signs : Signs} {operand : Parse Expr} {j : Nat} {left : Expr} {op : BinaryOp}
    (h : signs.lookup s.stream.current.kind = some op) :
    chain signs operand (j + 1) left s = (advance >>= fun _ => operand >>= fun right =>
      chain signs operand j (.binary op left right s.stream.current.position)) s := by
  conv_lhs => unfold chain
  rw [current_bind, h]

theorem binary_bind {expr : Power → Parse Expr} {left : Expr} {op : BinaryOp}
    (h : BinaryOp.ofKind? s.stream.current.kind = some op) (f : Expr → Parse Expr) :
    (Parse.binary expr left p >>= f) s = (expr p >>= fun right =>
      f (.binary op left right s.stream.current.position)) ⟨s.stream.advance, s.errors⟩ := by
  unfold Parse.binary
  rw [bind_assoc, advance_bind]
  simp only [h, bind_assoc, pure_bind]

/-- Where no operator holds more strongly than `p`, the loop with the next weaker minimum is a chain
of the operators of power `p`. -/
theorem chain_tail {signs : Signs} {next : Parse Expr} (hmp : p.rank = m.rank + 1)
    (hsigns : SignsOf p signs) (hnext : Agree n (Parse.exprWithin .standard n p) next) :
    ∀ (k j : Nat) (left : Expr) (s : ParseState), s.stream.stop.kind = .endOfInput →
      s.stream.remaining ≤ n + 1 → s.stream.remaining ≤ k → s.stream.remaining ≤ j → Stops p s →
        operators (Parse.exprWithin .standard n) .standard m k left s =
          chain signs next j left s := by
  have hends : ∀ (k j : Nat) (left : Expr) (s : ParseState), Stops m s →
      operators (Parse.exprWithin .standard n) .standard m k left s =
        chain signs next j left s := by
    intro k j left s hstop
    have hnone : signs.lookup s.stream.current.kind = none := by
      refine hsigns.others fun f hf => ?_
      have hle := hstop p f hf
      omega
    rw [operators_of_stops hstop, chain_of_none hnone]
  intro k
  induction k with
  | zero =>
    intro j left s hs hn hk hj _
    have hend := current_of_remaining hs (Nat.le_zero.mp hk)
    exact hends 0 j left s (stops_of_none (by rw [hend]; rfl))
  | succ k ih =>
    intro j left s hs hn hk hj hp
    by_cases hstop : Stops m s
    · exact hends (k + 1) j left s hstop
    · -- The operator has exactly the power `p`: it holds more strongly than `m` but not than `p`.
      obtain ⟨q, f, -, hop, hlt, -⟩ := exists_of_not_stops hs hstop
      have hle := hp q f hop
      obtain rfl : q = p := Power.rank_injective (by omega)
      obtain ⟨rfl, op, hop', hlookup⟩ := hsigns.joins hop
      have hc := operator_ne_end hop
      have hrem := remaining_advance hs hc
      obtain ⟨j, rfl⟩ : ∃ j', j = j' + 1 := ⟨j - 1, by omega⟩
      rw [operators_succ hop hlt, chain_succ hlookup, advance_bind]
      refine (binary_bind hop' _).trans ?_
      have hs1 : s.stream.advance.stop.kind = .endOfInput := (Leads.advance s).closed hs
      have hright := hnext ⟨s.stream.advance, s.errors⟩ hs1
        (show s.stream.advance.remaining ≤ n by omega)
      rw [bind_apply, bind_apply, ← hright, ← bind_apply, ← bind_apply]
      refine bind_congr_of_ok fun right t ht => ?_
      have hlead := Steady.of_ok ht
      have hle : t.stream.remaining ≤ s.stream.advance.remaining := hlead.remaining_le
      exact ih j _ t (hlead.closed hs1) (by omega) (by omega) (by omega)
        (exprWithin_stops hs1 ht)

/-- **One level of binary operators.**  If `next` does what the loop does with the minimum `p`, then
operands of `next` with signs of power `p` between them are what it reads with the next weaker
minimum. -/
theorem agree_leftAssociative {signs : Signs} {next : Parse Expr} (hmp : p.rank = m.rank + 1)
    (hsigns : SignsOf p signs)
    (hnext : Agree (n + 1) (Parse.exprWithin .standard (n + 1) p) next) :
    Agree (n + 1) (Parse.exprWithin .standard (n + 1) m) (leftAssociative signs next) := by
  have hright : Agree n (Parse.exprWithin .standard n p) next :=
    (exprWithin_agree p (Nat.le_succ n)).trans (hnext.mono (Nat.le_succ n))
  have hcut : Agree (n + 1) (Parse.exprWithin .standard (n + 1) m)
      (Parse.exprWithin .standard (n + 1) p >>= fun left => remaining >>= fun j =>
        chain signs next j left) := by
    refine exprWithin_split (by omega) fun k left s hs hn hk hstop => ?_
    rw [remaining_bind]
    exact chain_tail hmp hsigns hright k _ left s hs hn hk le_rfl hstop
  exact hcut.trans (hnext.bind fun left => .refl _ _)

/-! ### Assignments -/

theorem kind_of_rank_le {k : Kind} {q : Power} {f : OperatorForm}
    (h : Grammar.standard.operator? k = some (q, f)) (hq : q.rank ≤ Power.assignment.rank) :
    k = .assign := by
  cases k <;> simp [Grammar.standard] at h <;> obtain ⟨rfl, -⟩ := h <;> revert hq <;> decide

/-- Where only an assignment could go on, the loop with the lowest minimum reads at most one: behind
the value nothing is left that it could take. -/
theorem assigned_tail {whole : Parse Expr}
    (hwhole : Agree n (Parse.exprWithin .standard n .lowest) whole) (k : Nat) (left : Expr)
    (s : ParseState) (hs : s.stream.stop.kind = .endOfInput) (hn : s.stream.remaining ≤ n + 1)
    (hk : s.stream.remaining ≤ k) (hstop : Stops .assignment s) :
    operators (Parse.exprWithin .standard n) .standard .lowest k left s =
      assigned whole left s := by
  unfold assigned
  rw [current_bind]
  by_cases hc : s.stream.current.kind = .assign
  · have hop : Grammar.standard.operator? s.stream.current.kind =
        some (.assignment, .assignment) := operator_assignment.mpr ⟨hc, rfl⟩
    have hrem := remaining_advance hs (operator_ne_end hop)
    obtain ⟨k, rfl⟩ : ∃ k', k = k' + 1 := ⟨k - 1, by omega⟩
    have hs1 : s.stream.advance.stop.kind = .endOfInput := (Leads.advance s).closed hs
    have hvalue := hwhole ⟨s.stream.advance, s.errors⟩ hs1
      (show s.stream.advance.remaining ≤ n by omega)
    rw [operators_succ hop (by decide), if_pos hc, advance_bind]
    show (Parse.assignment (Parse.exprWithin .standard n) left >>= _) s = _
    unfold Parse.assignment
    rw [bind_assoc, advance_bind, bind_assoc, bind_apply, bind_apply, ← hvalue, ← bind_apply,
      ← bind_apply]
    refine bind_congr_of_ok fun value t ht => ?_
    have hstop' : Stops .lowest t := exprWithin_stops hs1 ht
    have hend : ∀ ds, Stops .lowest ⟨t.stream, ds⟩ := fun _ => hstop'
    cases left with
    | var name position => exact operators_of_stops (hend _)
    | _ => exact operators_of_stops (hend _)
  · rw [if_neg hc]
    refine operators_of_stops fun q f hf => ?_
    exact absurd (kind_of_rank_le hf (hstop q f hf)) hc

theorem agree_assignment {whole prefixed : Parse Expr}
    (hwhole : Agree n (Parse.exprWithin .standard n .lowest) whole)
    (hnext : Agree (n + 1) (Parse.exprWithin .standard (n + 1) .assignment)
      (logicalOr whole prefixed)) :
    Agree (n + 1) (Parse.exprWithin .standard (n + 1) .lowest) (assignment whole prefixed) := by
  have hcut := exprWithin_split (m := .lowest) (p := .assignment) (by decide)
    (assigned_tail hwhole)
  exact hcut.trans (hnext.bind fun left => .refl _ _)

/-! ### Calls and prefix operators -/

theorem rank_le_unary {k : Kind} {q : Power} {f : OperatorForm}
    (h : Grammar.standard.operator? k = some (q, f)) (hk : k ≠ .openParen) :
    q.rank ≤ Power.unary.rank := by
  cases k <;> simp [Grammar.standard] at h hk <;> obtain ⟨rfl, -⟩ := h <;> decide

theorem agree_arguments {whole : Parse Expr}
    (hwhole : Agree n (Parse.exprWithin .standard n .lowest) whole) (j : Nat) :
    Agree n (Parse.arguments (Parse.exprWithin .standard n) j) (arguments whole j) := by
  induction j with
  | zero => exact hwhole.bind fun _ => .refl n _
  | succ j ih =>
    refine hwhole.bind fun e => Agree.bind_right fun c => Agree.ite ?_ (.refl n _)
    exact ih.bind fun es => .refl n _

/-- With a prefix operator's minimum the loop reads calls only. -/
theorem agree_calls {whole : Parse Expr}
    (hwhole : Agree n (Parse.exprWithin .standard n .lowest) whole) (k : Nat) :
    ∀ callee, Agree (n + 1)
      (operators (Parse.exprWithin .standard n) .standard .unary k callee)
      (calls whole k callee) := by
  induction k with
  | zero => exact fun callee => .refl _ _
  | succ k ih =>
    intro callee s hs hn
    unfold calls
    rw [current_bind]
    by_cases hc : s.stream.current.kind = .openParen
    · have hop : Grammar.standard.operator? s.stream.current.kind = some (.call, .call) :=
        operator_call.mpr ⟨hc, rfl⟩
      rw [operators_succ hop (by decide), if_pos hc]
      show (Parse.call (Parse.exprWithin .standard n) callee >>= _) s = _
      unfold Parse.call
      rw [bind_assoc]
      refine advance_bind_congr hs hn (operator_ne_end hop) ?_
      rw [bind_assoc]
      refine Agree.bind_right fun t => ?_
      have hclose : ∀ args : List Expr, Agree n
          ((expect .closeParen "Expected ')' after arguments" >>= fun paren =>
            pure (.call callee args paren.position)) >>=
              operators (Parse.exprWithin .standard n) .standard .unary k)
          (expect .closeParen "Expected ')' after arguments" >>= fun paren =>
            calls whole k (.call callee args paren.position)) := by
        intro args
        rw [bind_assoc]
        refine Agree.bind_right fun paren => ?_
        rw [pure_bind]
        exact (ih _).mono (Nat.le_succ n)
      dsimp only
      split_ifs
      · rw [pure_bind, pure_bind]
        exact hclose []
      · rw [bind_assoc]
        refine Agree.bind_right fun j => ?_
        rw [bind_assoc]
        exact (agree_arguments hwhole j).bind hclose
    · rw [if_neg hc]
      exact operators_of_stops fun q f hf => rank_le_unary hf hc

/-! What the tightest levels do is decided by what the current token begins. -/

theorem primary_of_primary {whole : Parse Expr}
    (hf : Grammar.standard.operand? s.stream.current.kind = some .primary) :
    primary whole s = Parse.primary s := by
  unfold primary
  rw [current_bind]
  revert hf
  cases s.stream.current.kind <;> intro hf <;> first | rfl | cases hf

theorem primary_of_grouping {whole : Parse Expr}
    (hf : Grammar.standard.operand? s.stream.current.kind = some .grouping) :
    primary whole s = (advance >>= fun _ => whole >>= fun e =>
      expect .closeParen "Expected ')' after expression" >>= fun _ => pure e) s := by
  have hk := operand_grouping.mp hf
  unfold primary
  rw [current_bind, hk]

theorem primary_of_none {whole : Parse Expr}
    (hf : Grammar.standard.operand? s.stream.current.kind = none) :
    primary whole s = noExpression s.stream.current s := by
  unfold primary
  rw [current_bind]
  revert hf
  cases s.stream.current.kind <;> intro hf <;> first | rfl | cases hf

theorem unary_of_not_unary {whole prefixed : Parse Expr}
    (hf : Grammar.standard.operand? s.stream.current.kind ≠ some .unary) :
    unary whole prefixed s = call whole s := by
  unfold unary
  rw [current_bind]
  revert hf
  cases s.stream.current.kind <;> intro hf <;> first | rfl | exact absurd rfl hf

theorem unary_of_unary (whole prefixed : Parse Expr)
    (hf : Grammar.standard.operand? s.stream.current.kind = some .unary) :
    ∃ op, UnaryOp.ofKind? s.stream.current.kind = some op ∧ unary whole prefixed s =
      (advance >>= fun _ => prefixed >>= fun e =>
        pure (.unary op e s.stream.current.position)) s := by
  unfold unary
  simp only [current_bind]
  revert hf
  cases s.stream.current.kind <;> intro hf <;> first | exact ⟨_, rfl, rfl⟩ | cases hf

theorem agree_call {whole : Parse Expr}
    (hwhole : Agree n (Parse.exprWithin .standard n .lowest) whole)
    (hs : s.stream.stop.kind = .endOfInput) (hn : s.stream.remaining ≤ n + 1)
    (hf : Grammar.standard.operand? s.stream.current.kind ≠ some .unary) :
    Parse.exprWithin .standard (n + 1) .unary s = call whole s := by
  have hoperand : ∀ f, Grammar.standard.operand? s.stream.current.kind = some f →
      operand (Parse.exprWithin .standard n) f s = primary whole s := by
    intro f hf'
    cases f with
    | primary => exact (primary_of_primary hf').symm
    | grouping =>
      rw [primary_of_grouping hf']
      exact advance_bind_congr hs hn (operand_ne_end hf') (hwhole.bind fun e => .refl n _)
    | unary => exact absurd hf' hf
  unfold call
  cases hf' : Grammar.standard.operand? s.stream.current.kind with
  | none =>
    rw [exprWithin_none hf', bind_apply, primary_of_none hf']
    rfl
  | some f =>
    rw [exprWithin_succ hf', bind_apply, bind_apply, ← hoperand f hf', ← bind_apply, ← bind_apply]
    refine bind_congr_of_ok fun callee t ht => ?_
    have hlead := Steady.of_ok ht
    exact agree_calls hwhole _ callee t (hlead.closed hs) (hlead.remaining_le.trans hn)

/-- **The level of prefix operators.**  Behind an operand that was read there are no calls left, so
the loop ends at once where a prefix operator began. -/
theorem agree_unary {whole prefixed : Parse Expr}
    (hwhole : Agree n (Parse.exprWithin .standard n .lowest) whole)
    (hprefixed : Agree n (Parse.exprWithin .standard n .unary) prefixed) :
    Agree (n + 1) (Parse.exprWithin .standard (n + 1) .unary) (unary whole prefixed) := by
  intro s hs hn
  by_cases hf : Grammar.standard.operand? s.stream.current.kind = some .unary
  · obtain ⟨op, hop, hunary⟩ := unary_of_unary whole prefixed hf
    have hrem := remaining_advance hs (operand_ne_end hf)
    have hs1 : s.stream.advance.stop.kind = .endOfInput := (Leads.advance s).closed hs
    have hoperand := hprefixed ⟨s.stream.advance, s.errors⟩ hs1
      (show s.stream.advance.remaining ≤ n by omega)
    rw [exprWithin_succ hf, hunary, advance_bind]
    show (Parse.unary (Parse.exprWithin .standard n) >>= _) s = _
    unfold Parse.unary
    rw [bind_assoc, advance_bind]
    simp only [hop, bind_assoc, pure_bind]
    rw [bind_apply, bind_apply, ← hoperand, ← bind_apply, ← bind_apply]
    refine bind_congr_of_ok fun e t ht => ?_
    exact operators_of_stops (exprWithin_stops hs1 ht)
  · rw [unary_of_not_unary hf]
    exact agree_call hwhole hs hn hf

/-! ### All levels -/

theorem rank_le_multiplicative {k : Kind} {q : Power} {f : OperatorForm}
    (h : Grammar.standard.operator? k = some (q, f)) (hq : q.rank ≤ Power.unary.rank) :
    q.rank ≤ Power.multiplicative.rank := by
  cases k <;> simp [Grammar.standard] at h <;> obtain ⟨rfl, -⟩ := h <;> revert hq <;> decide

/-- No operator has the power of prefix operators, so operands of `*` are read as theirs are. -/
theorem agree_multiplicative {next : Parse Expr}
    (hnext : Agree (n + 1) (Parse.exprWithin .standard (n + 1) .unary) next) :
    Agree (n + 1) (Parse.exprWithin .standard (n + 1) .multiplicative) next := by
  have hcut : Agree (n + 1) (Parse.exprWithin .standard (n + 1) .multiplicative)
      (Parse.exprWithin .standard (n + 1) .unary >>= fun left => pure left) := by
    refine exprWithin_split (by decide) fun k left s hs hn hk hstop => ?_
    exact operators_of_stops fun q f hf => rank_le_multiplicative hf (hstop q f hf)
  rw [bind_pure] at hcut
  exact hcut.trans hnext

theorem agree_levels {whole prefixed : Parse Expr}
    (hwhole : Agree n (Parse.exprWithin .standard n .lowest) whole)
    (hprefixed : Agree n (Parse.exprWithin .standard n .unary) prefixed) :
    Agree (n + 1) (Parse.exprWithin .standard (n + 1) .lowest) (assignment whole prefixed) := by
  have hunary := agree_multiplicative (agree_unary hwhole hprefixed)
  have hmultiplicative : Agree (n + 1) (Parse.exprWithin .standard (n + 1) .additive)
      (multiplicative whole prefixed) := agree_leftAssociative rfl (by decide) hunary
  have hadditive : Agree (n + 1) (Parse.exprWithin .standard (n + 1) .relational)
      (additive whole prefixed) := agree_leftAssociative rfl (by decide) hmultiplicative
  have hrelational : Agree (n + 1) (Parse.exprWithin .standard (n + 1) .equality)
      (relational whole prefixed) := agree_leftAssociative rfl (by decide) hadditive
  have hequality : Agree (n + 1) (Parse.exprWithin .standard (n + 1) .logicalAnd)
      (equality whole prefixed) := agree_leftAssociative rfl (by decide) hrelational
  have hand : Agree (n + 1) (Parse.exprWithin .standard (n + 1) .logicalOr)
      (logicalAnd whole prefixed) := agree_leftAssociative rfl (by decide) hequality
  have hor : Agree (n + 1) (Parse.exprWithin .standard (n + 1) .assignment)
      (logicalOr whole prefixed) := agree_leftAssociative rfl (by decide) hand
  exact agree_assignment hwhole hor

/-! ### Expressions -/

/-- Within the same bound the two parsers do the same. -/
theorem exprWithin_agree_descent (n : Nat) :
    Agree n (Parse.exprWithin .standard n .lowest) (exprWithin n) ∧
      Agree n (Parse.exprWithin .standard n .unary) (prefixedWithin n) := by
  induction n with
  | zero => exact ⟨.refl 0 _, .refl 0 _⟩
  | succ n ih =>
    obtain ⟨hwhole, hprefixed⟩ := ih
    constructor
    · rw [exprWithin]
      exact agree_levels hwhole hprefixed
    · rw [prefixedWithin]
      exact agree_unary hwhole hprefixed

/-- Where any number of tokens is left, each parser chooses a bound that is large enough. -/
theorem agree_expr (n : Nat) : Agree n (Parse.exprWithin .standard n .lowest) expr := by
  intro s hs hn
  have hbound := exprWithin_agree .lowest hn s hs le_rfl
  exact hbound.symm.trans ((exprWithin_agree_descent _).1 s hs le_rfl)

theorem agree_prefixed (n : Nat) : Agree n (Parse.exprWithin .standard n .unary) prefixed := by
  intro s hs hn
  have hbound := exprWithin_agree .unary hn s hs le_rfl
  exact hbound.symm.trans ((exprWithin_agree_descent _).2 s hs le_rfl)

/-- The bound never shows: the levels of recursive descent use one another without one. -/
theorem expr_unfold (hs : s.stream.stop.kind = .endOfInput) :
    expr s = assignment expr prefixed s := by
  have hlevels := agree_levels (agree_expr _) (agree_prefixed _) s hs (Nat.le_succ _)
  exact (agree_expr _ s hs (Nat.le_succ _)).symm.trans hlevels

@[inherit_doc expr_unfold]
theorem prefixed_unfold (hs : s.stream.stop.kind = .endOfInput) :
    prefixed s = unary expr prefixed s := by
  have hunary := agree_unary (agree_expr _) (agree_prefixed _) s hs (Nat.le_succ _)
  exact (agree_prefixed _ s hs (Nat.le_succ _)).symm.trans hunary

end Descent

/-- The parser at the `k`-th of the given tokens, or at their end marker if there are not so many,
with complaints that were reported before. -/
def ParseState.atToken (tokens : List Token) (k : Nat) (errors : Diagnostics) : ParseState :=
  ⟨TokenStream.advance^[k] (TokenStream.ofTokens tokens), errors⟩

theorem ParseState.atToken_closed (tokens : List Token) (k : Nat) (errors : Diagnostics) :
    (atToken tokens k errors).stream.stop.kind = .endOfInput := by
  induction k with
  | zero => exact (ofTokens_spec tokens).2
  | succ k ih =>
    have hstep : (atToken tokens (k + 1) errors).stream =
        (atToken tokens k errors).stream.advance := Function.iterate_succ_apply' _ _ _
    rw [hstep]
    exact (Leads.advance (atToken tokens k errors)).closed ih

/-- **The loop over powers and recursive descent are the same parser.**  From every place of every
token stream they give the same expression with the same positions, or the same failure; they stop
at the same token, and they report the same complaints on the way.  And recursive descent is what it
seems: its two entries are its levels, used by one another without a bound. -/
theorem expr_eq_descent (tokens : List Token) (k : Nat) (errors : Diagnostics) :
    Parse.expr .standard .lowest (.atToken tokens k errors) =
        Descent.expr (.atToken tokens k errors) ∧
      Descent.expr (.atToken tokens k errors) =
        Descent.assignment Descent.expr Descent.prefixed (.atToken tokens k errors) ∧
      Descent.prefixed (.atToken tokens k errors) =
        Descent.unary Descent.expr Descent.prefixed (.atToken tokens k errors) := by
  have hs := ParseState.atToken_closed tokens k errors
  exact ⟨Descent.agree_expr _ _ hs le_rfl, Descent.expr_unfold hs, Descent.prefixed_unfold hs⟩

end StackListing
