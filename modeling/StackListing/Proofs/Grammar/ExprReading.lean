import Mathlib.Order.Nat
import StackListing.Proofs.Grammar.Tree
import StackListing.Proofs.Parsing.Reads

/-!
# The expression parser reads derivation trees

The parser of expressions reads an operand and then operators as long as they hold more strongly
than a minimum.  Here it is shown to read exactly the tokens that trees of the level above that
minimum derive: `exprWithin_reads_iff` for a bounded number of tokens, by induction on that number,
and `expr_reads_iff` for the expression parser itself.

In one direction a tree is followed from its first operand on, with the loop over operators as the
continuation (`ExprTree.reads_of_loop`).  In the other the loop keeps a tree of what was read so far
(`loop_sound`); it stops before any operator that would have to go deeper into that tree.
-/

namespace StackListing

open Parse ParseState

/-! ### The table and the levels -/

namespace Power

/-- The level of the expressions that are read with the minimum `m`. -/
def inner? : Power → Option Power
  | .unary => some .unary
  | .call => none
  | m => m.tighter?

/-- The greatest minimum with which trees of level `p` are read to their end. -/
def floor : Power → Power
  | .lowest | .assignment => .lowest
  | .logicalOr => .assignment
  | .logicalAnd => .logicalOr
  | .equality => .logicalAnd
  | .relational => .equality
  | .additive => .relational
  | .multiplicative => .additive
  | .unary | .call => .unary
  | .primary => .call

theorem rank_tighter {p q : Power} (h : p.tighter? = some q) : q.rank = p.rank + 1 := by
  cases p <;> simp [tighter?] at h <;> subst h <;> rfl

theorem rank_injective {p q : Power} (h : p.rank = q.rank) : p = q := by
  cases p <;> cases q <;> simp_all [rank]

theorem exists_tighter {p q : Power} (h : p.rank < q.rank) : ∃ p', p.tighter? = some p' := by
  cases p
  case primary => cases q <;> simp [rank] at h
  all_goals exact ⟨_, rfl⟩

theorem floor_tighter {p q : Power} (h : p.tighter? = some q) : p.rank ≤ q.floor.rank := by
  cases p <;> simp [tighter?] at h <;> subst h <;> decide

theorem rank_floor_le (p : Power) : p.floor.rank ≤ p.rank := by cases p <;> decide

theorem floor_inner {m q : Power} (h : m.inner? = some q) : m.rank ≤ q.floor.rank := by
  cases m <;> simp [inner?, tighter?] at h <;> subst h <;> decide

theorem inner_le {m p q : Power} (h : m.inner? = some q) (hp : m.rank < p.rank) :
    q.rank ≤ p.rank := by
  cases m <;> simp [inner?, tighter?] at h <;> subst h <;> revert hp <;> cases p <;> decide

theorem inner_le_unary {m q : Power} (h : m.inner? = some q) : q.rank ≤ Power.unary.rank := by
  cases m <;> simp [inner?, tighter?] at h <;> subst h <;> decide

end Power

theorem InfixWord.operator {p : Power} (t : InfixWord p) :
    Grammar.standard.operator? t.token.kind = some (p, .binary) := by
  obtain ⟨⟨k, v, pos⟩, op, hop, rfl⟩ := t
  cases k <;> simp [BinaryOp.ofKind?] at hop <;> subst hop <;> rfl

theorem InfixWord.inner {p q : Power} (t : InfixWord p) (h : p.tighter? = some q) :
    p.inner? = some q := by
  obtain ⟨-, op, -, rfl⟩ := t
  cases op <;> exact h

theorem InfixWord.tighter {p : Power} (t : InfixWord p) : ∃ q, p.tighter? = some q := by
  obtain ⟨-, op, -, rfl⟩ := t
  cases op <;> exact ⟨_, rfl⟩

theorem InfixWord.rank_floor {p : Power} (t : InfixWord p) : p.floor.rank < p.rank := by
  obtain ⟨-, op, -, rfl⟩ := t
  cases op <;> decide

theorem InfixWord.level_ne {p : Power} (t : InfixWord p) :
    p ≠ .primary ∧ p ≠ .unary ∧ p ≠ .assignment := by
  obtain ⟨-, op, -, rfl⟩ := t
  cases op <;> decide

theorem exists_infixWord {t : Token} {p : Power}
    (h : Grammar.standard.operator? t.kind = some (p, .binary)) :
    ∃ w : InfixWord p, w.token = t := by
  obtain ⟨k, v, pos⟩ := t
  cases k <;> simp [Grammar.standard] at h <;> subst h <;> exact ⟨⟨_, _, rfl, rfl⟩, rfl⟩

theorem exists_prefixWord {t : Token} (h : Grammar.standard.operand? t.kind = some .unary) :
    ∃ w : PrefixWord, w.token = t := by
  obtain ⟨k, v, pos⟩ := t
  cases k <;> simp [Grammar.standard] at h <;> exact ⟨⟨_, _, rfl⟩, rfl⟩

theorem operand_grouping {k : Kind} :
    Grammar.standard.operand? k = some .grouping ↔ k = .openParen := by
  cases k <;> simp [Grammar.standard]

theorem operator_assignment {k : Kind} {p : Power} :
    Grammar.standard.operator? k = some (p, .assignment) ↔ k = .assign ∧ p = .assignment := by
  cases k <;> simp [Grammar.standard, eq_comm]

theorem operator_call {k : Kind} {p : Power} :
    Grammar.standard.operator? k = some (p, .call) ↔ k = .openParen ∧ p = .call := by
  cases k <;> simp [Grammar.standard, eq_comm]

theorem operator_rank_le {k : Kind} {p : Power} {f : OperatorForm}
    (h : Grammar.standard.operator? k = some (p, f)) : p.rank ≤ Power.call.rank := by
  cases k <;> simp [Grammar.standard] at h <;> obtain ⟨rfl, -⟩ := h <;> decide

/-! ### Where an expression ends -/

/-- No operator that holds more strongly than `m` comes next. -/
def Stops (m : Power) (s : ParseState) : Prop :=
  ∀ p f, Grammar.standard.operator? s.stream.current.kind = some (p, f) → p.rank ≤ m.rank

theorem Stops.mono {m m' : Power} {s : ParseState} (h : Stops m s) (hm : m.rank ≤ m'.rank) :
    Stops m' s := fun p f hp => (h p f hp).trans hm

theorem stops_of_none {m : Power} {s : ParseState}
    (h : Grammar.standard.operator? s.stream.current.kind = none) : Stops m s := by
  intro p f hp
  rw [h] at hp
  cases hp

theorem stops_call (m : Power) (hm : Power.call.rank ≤ m.rank) (s : ParseState) : Stops m s :=
  fun _ _ hp => (operator_rank_le hp).trans hm

theorem exists_of_not_stops {m : Power} {s : ParseState} (hs : s.stream.stop.kind = .endOfInput)
    (h : ¬ Stops m s) : ∃ p f t, Grammar.standard.operator? s.stream.current.kind = some (p, f) ∧
      m.rank < p.rank ∧ s.Past [s.stream.current] t := by
  unfold Stops at h
  push Not at h
  obtain ⟨p, f, hop, hlt⟩ := h
  refine ⟨p, f, _, hop, hlt, past_current hs fun hk => ?_⟩
  rw [hk] at hop
  cases hop

theorem LinkTrees.stops {p : Power} {s t : ParseState} (links : LinkTrees p)
    (h : s.Past links.tokens t) (ht : Stops p t) : Stops p s := by
  cases links with
  | nil =>
    obtain ⟨-, rfl⟩ := past_nil.mp h
    exact ht
  | binary hq w right rest =>
    intro p' f hp
    rw [h.current, w.operator] at hp
    cases hp
    exact le_rfl
  | callEmpty l r rest => exact stops_call _ le_rfl s
  | call l args r rest => exact stops_call _ le_rfl s

/-- Only the levels of operators have links. -/
theorem LinkTrees.eq_nil_or {p : Power} (links : LinkTrees p) :
    links = .nil ∨ p.floor.rank < p.rank := by
  cases links with
  | nil => exact .inl rfl
  | binary hq w right rest => exact .inr w.rank_floor
  | callEmpty l r rest => exact .inr (by decide)
  | call l args r rest => exact .inr (by decide)

/-! ### Where an expression begins -/

theorem TargetTree.begins : ∀ d : TargetTree, ∃ x xs f, d.tokens = x :: xs ∧
    Grammar.standard.operand? x.kind = some f
  | .name t => ⟨t.1, [], .primary, rfl, by rw [t.2]; rfl⟩
  | .paren l inner r => ⟨l.1, inner.tokens ++ [r.1], .grouping, rfl, by rw [l.2]; rfl⟩

theorem LiteralWord.operand (t : LiteralWord) :
    Grammar.standard.operand? t.token.kind = some .primary := by
  obtain ⟨⟨k, v, pos⟩, l, hl⟩ := t
  cases k <;> simp [Literal.ofToken?] at hl <;> rfl

theorem PrefixWord.operand (t : PrefixWord) :
    Grammar.standard.operand? t.token.kind = some .unary := by
  obtain ⟨⟨k, v, pos⟩, op, hop⟩ := t
  cases k <;> simp [UnaryOp.ofKind?] at hop <;> rfl

/-- The first token of an expression begins an operand. -/
theorem ExprTree.begins {p : Power} : ∀ d : ExprTree p, ∃ x xs f, d.tokens = x :: xs ∧
    Grammar.standard.operand? x.kind = some f
  | .literal t => ⟨t.token, [], .primary, rfl, t.operand⟩
  | .var t => ⟨t.1, [], .primary, rfl, by rw [t.2]; rfl⟩
  | .paren l inner r => ⟨l.1, inner.tokens ++ [r.1], .grouping, rfl, by rw [l.2]; rfl⟩
  | .unary t operand => ⟨t.token, operand.tokens, .unary, rfl, t.operand⟩
  | .assign target sign value => by
    obtain ⟨x, xs, f, hx, hf⟩ := target.begins
    exact ⟨x, xs ++ sign.1 :: value.tokens, f, by simp [ExprTree.tokens, hx], hf⟩
  | .joined h first links => by
    obtain ⟨x, xs, f, hx, hf⟩ := first.begins
    exact ⟨x, xs ++ links.tokens, f, by simp [ExprTree.tokens, hx], hf⟩

theorem ExprTree.tokens_pos {p : Power} (d : ExprTree p) : 0 < d.tokens.length := by
  obtain ⟨x, xs, f, hx, -⟩ := d.begins
  rw [hx]
  exact Nat.succ_pos _

theorem ArgumentTrees.begins (d : ArgumentTrees) : ∃ x xs f, d.tokens = x :: xs ∧
    Grammar.standard.operand? x.kind = some f := by
  cases d with
  | one e => exact e.begins
  | more e comma rest =>
    obtain ⟨x, xs, f, hx, hf⟩ := e.begins
    exact ⟨x, xs ++ comma.1 :: rest.tokens, f, by simp [ArgumentTrees.tokens, hx], hf⟩

/-! ### Following a tree -/

/-- **Expressions of at most `n` tokens are read as trees.**  With the minimum `m`, what is read are
the trees of the level above `m`, up to an operator that holds no more strongly than `m`. -/
def ReadsTrees (n : Nat) : Prop :=
  ∀ {m q : Power}, m.inner? = some q → ∀ {s t : ParseState} {ts : List Token} {e : Expr},
    s.stream.remaining ≤ n →
      (Reads (exprWithin .standard n m) s ts e t ↔
        (∃ d : ExprTree q, d.tokens = ts ∧ d.expr = e) ∧ s.Past ts t ∧ Stops m t)

variable {n : Nat} {s t u : ParseState} {ts vs : List Token} {e : Expr}

theorem ReadsTrees.reads (ih : ReadsTrees n) {m q : Power} (hm : m.inner? = some q)
    (hn : s.stream.remaining ≤ n) (d : ExprTree q) (hp : s.Past d.tokens t) (ht : Stops m t) :
    Reads (exprWithin .standard n m) s d.tokens d.expr t :=
  (ih hm hn).mpr ⟨⟨d, rfl, rfl⟩, hp, ht⟩

/-- Arguments are read as trees. -/
theorem ArgumentTrees.reads (ih : ReadsTrees n) :
    ∀ (args : ArgumentTrees) {k : Nat} {s t : ParseState}, s.stream.remaining ≤ n →
      s.stream.remaining ≤ k → s.Past args.tokens t → t.stream.current.kind = .closeParen →
        Reads (arguments (exprWithin .standard n) k) s args.tokens args.exprs t
  | .one e, k, s, t, hn, hk, hp, ht => by
    have hs : Stops .lowest t := stops_of_none (by rw [ht]; rfl)
    have he := ih.reads (m := .lowest) rfl hn e hp hs
    cases k with
    | zero => exact he.bind_pure
    | succ k =>
      have hc : t.stream.current.kind ≠ .comma := by rw [ht]; decide
      exact he.bind_reject (by decide) hc (reads_pure.mpr ⟨rfl, rfl, hp.here⟩)
  | .more e comma rest, k, s, t, hn, hk, hp, ht => by
    obtain ⟨s1, h1, hp⟩ := past_append.mp hp
    obtain ⟨s2, h2, hp⟩ := past_cons.mp hp
    have hs : Stops .lowest s1 := stops_of_none (by rw [h2.current, comma.2]; rfl)
    have he := ih.reads (m := .lowest) rfl hn e h1 hs
    have hrem := h1.remaining
    have hrem' := h2.remaining_one
    cases k with
    | zero => omega
    | succ k =>
      have hrest := ArgumentTrees.reads ih rest (k := k) (by omega) (by omega) hp ht
      exact he.bind (Reads.accept_bind comma (by decide) h2 hrest.bind_pure)

/-! The loop over operators ends where it stops and takes an operator that holds strongly enough. -/

theorem reads_operators_of_stops {expr : Power → Parse Expr} {m : Power} {k : Nat} {left : Expr}
    (h : Stops m s) : Reads (operators expr .standard m k left) s ts e u ↔
      Reads (pure left : Parse Expr) s ts e u := by
  cases k with
  | zero => rfl
  | succ k =>
    unfold operators
    rw [reads_current_bind]
    cases hop : Grammar.standard.operator? s.stream.current.kind with
    | none => rfl
    | some r =>
      obtain ⟨p, f⟩ := r
      have : ¬ m < p := not_lt.mpr (h p f hop)
      simp only [this, if_false]

theorem reads_operators_succ {expr : Power → Parse Expr} {m p : Power} {f : OperatorForm} {k : Nat}
    {left : Expr} (hop : Grammar.standard.operator? s.stream.current.kind = some (p, f))
    (hm : m.rank < p.rank) : Reads (operators expr .standard m (k + 1) left) s ts e u ↔
      Reads (operator expr left p f >>= operators expr .standard m k) s ts e u := by
  have hm' : m < p := hm
  conv_lhs => unfold operators
  rw [reads_current_bind, hop]
  simp only [hm', if_true]

/-- The loop over operators, begun with `left`, reads the links of a tree and goes on behind
them. -/
theorem LinkTrees.reads_loop (ih : ReadsTrees n) {m p : Power} (hm : m.rank < p.rank) :
    ∀ (links : LinkTrees p) {left : Expr} {k : Nat} {s t : ParseState}, s.stream.remaining ≤ n →
      s.stream.remaining ≤ k → s.Past links.tokens t → Stops p t →
      (∀ k, t.stream.remaining ≤ k →
        Reads (operators (exprWithin .standard n) .standard m k (links.join left)) t vs e u) →
      Reads (operators (exprWithin .standard n) .standard m k left) s (links.tokens ++ vs) e u
  | .nil, left, k, s, t, hn, hk, hp, ht, h => by
    obtain ⟨-, rfl⟩ := past_nil.mp hp
    exact h k hk
  | .binary hq w right rest, left, k, s, t, hn, hk, hp, ht, h => by
    have hop : Grammar.standard.operator? s.stream.current.kind = some (p, .binary) := by
      rw [hp.current]; exact w.operator
    obtain ⟨s1, h1, hp⟩ := past_cons.mp hp
    obtain ⟨s2, h2, hp⟩ := past_append.mp hp
    have hrem1 := h1.remaining_one
    have hrem2 := h2.remaining
    have hright := ih.reads (w.inner hq) (by omega) right h2 (rest.stops hp ht)
    cases k with
    | zero => omega
    | succ k =>
      have hrest := LinkTrees.reads_loop ih hm rest (k := k) (by omega) (by omega) hp ht h
      rw [reads_operators_succ hop hm, LinkTrees.tokens, List.cons_append, List.append_assoc,
        ← List.cons_append]
      refine Reads.bind ?_ hrest
      refine Reads.advance_bind h1 ?_
      simp only [w.named]
      exact hright.bind_pure
  | .callEmpty l r rest, left, k, s, t, hn, hk, hp, ht, h => by
    have hop : Grammar.standard.operator? s.stream.current.kind = some (.call, .call) := by
      rw [hp.current]; exact operator_call.mpr ⟨l.2, rfl⟩
    obtain ⟨s1, h1, hp⟩ := past_cons.mp hp
    obtain ⟨s2, h2, hp⟩ := past_cons.mp hp
    have hrem1 := h1.remaining_one
    have hrem2 := h2.remaining_one
    cases k with
    | zero => omega
    | succ k =>
      have hrest := LinkTrees.reads_loop ih hm rest (k := k) (by omega) (by omega) hp ht h
      rw [reads_operators_succ hop hm]
      have hcall : Reads (Parse.call (exprWithin .standard n) left) s [l.1, r.1]
          (.call left [] r.1.position) s2 := by
        refine Reads.advance_bind h1 ?_
        rw [reads_current_bind, h2.current, if_pos r.2]
        exact (Reads.expect_bind r (by decide) h2 (reads_pure.mpr ⟨rfl, rfl, h2.here⟩))
      exact hcall.bind hrest
  | .call l args r rest, left, k, s, t, hn, hk, hp, ht, h => by
    have hop : Grammar.standard.operator? s.stream.current.kind = some (.call, .call) := by
      rw [hp.current]; exact operator_call.mpr ⟨l.2, rfl⟩
    obtain ⟨s1, h1, hp⟩ := past_cons.mp hp
    obtain ⟨s2, h2, hp⟩ := past_append.mp hp
    obtain ⟨s3, h3, hp⟩ := past_cons.mp hp
    have hrem1 := h1.remaining_one
    have hrem2 := h2.remaining
    have hrem3 := h3.remaining_one
    cases k with
    | zero => omega
    | succ k =>
      have hrest := LinkTrees.reads_loop ih hm rest (k := k) (by omega) (by omega) hp ht h
      rw [reads_operators_succ hop hm]
      have hargs := args.reads ih (k := s1.stream.remaining) (by omega) le_rfl h2
        (by rw [h3.current]; exact r.2)
      have hcall : Reads (Parse.call (exprWithin .standard n) left) s
          (l.1 :: (args.tokens ++ [r.1]))
          (.call left args.exprs r.1.position) s3 := by
        refine Reads.advance_bind h1 ?_
        have hc : s1.stream.current.kind ≠ .closeParen := by
          obtain ⟨x, xs, f, hx, hf⟩ := args.begins
          rw [hx] at h2
          rw [h2.current]
          intro hk
          rw [hk] at hf
          cases hf
        rw [reads_current_bind, if_neg hc, reads_remaining_bind]
        exact hargs.bind (Reads.expect_bind r (by decide) h3 (reads_pure.mpr ⟨rfl, rfl, h3.here⟩))
      have htok : (LinkTrees.call l args r rest).tokens ++ vs =
          l.1 :: (args.tokens ++ [r.1]) ++ (rest.tokens ++ vs) := by simp [LinkTrees.tokens]
      rw [htok]
      exact hcall.bind hrest

/-! ### Operands -/

theorem LiteralWord.reads (w : LiteralWord) (hp : s.Past [w.token] t) :
    Reads primary s [w.token] (.literal w.value w.token.position) t := by
  obtain ⟨⟨k, v, pos⟩, l, hl⟩ := w
  refine Reads.advance_bind hp ?_
  have hr : ∀ e : Expr, Reads (pure e : Parse Expr) t [] e t := fun e =>
    reads_pure.mpr ⟨rfl, rfl, hp.here⟩
  cases k <;> simp [Literal.ofToken?] at hl
  case integerLiteral =>
    obtain ⟨i, hi, rfl⟩ := hl
    simp only [hi]
    exact hr _
  case floatLiteral =>
    obtain ⟨x, hx, rfl⟩ := hl
    simp only [hx]
    exact hr _
  all_goals
    subst hl
    exact hr _

/-- What the parser reads as a primary is a constant or a variable. -/
theorem primary_sound (hs : s.stream.current.kind ≠ .endOfInput) (h : Reads primary s ts e t) :
    ∃ d : ExprTree .primary, d.tokens = ts ∧ d.expr = e := by
  obtain ⟨x, t1, vs, rfl, -, -, h⟩ := h.of_advance hs fun x => by
    split
    · split <;> infer_instance
    · split <;> infer_instance
    all_goals infer_instance
  have lit : ∀ l, Literal.ofToken? x = some l →
      Reads (pure (.literal l x.position) : Parse Expr) t1 vs e t →
        ∃ d : ExprTree .primary, d.tokens = x :: vs ∧ d.expr = e := by
    intro l hl h
    obtain ⟨rfl, rfl, -⟩ := reads_pure.mp h
    exact ⟨.literal ⟨x, l, hl⟩, rfl, rfl⟩
  obtain ⟨k, v, pos⟩ := x
  cases k
  case integerLiteral =>
    cases hi : Number.readInteger? v with
    | none => simp only [hi] at h; exact absurd h reads_throw
    | some i => simp only [hi] at h; exact lit (.integer i) (by simp [Literal.ofToken?, hi]) h
  case floatLiteral =>
    cases hx : Number.readFloat? v with
    | none => simp only [hx] at h; exact absurd h reads_throw
    | some x => simp only [hx] at h; exact lit (.float x) (by simp [Literal.ofToken?, hx]) h
  case stringLiteral => exact lit (.string v) rfl h
  case trueWord => exact lit (.boolean true) rfl h
  case falseWord => exact lit (.boolean false) rfl h
  case identifier =>
    obtain ⟨rfl, rfl, -⟩ := reads_pure.mp h
    exact ⟨.var ⟨⟨.identifier, v, pos⟩, rfl⟩, rfl, rfl⟩
  all_goals exact absurd h reads_noExpression

/-! ### Levels -/

/-- A tree of a level is one of every looser level. -/
theorem ExprTree.weaken {q : Power} (d : ExprTree q) : ∀ (j : Nat) (p : Power),
    p.rank + j = q.rank → ∃ d' : ExprTree p, d'.tokens = d.tokens ∧ d'.expr = d.expr
  | 0, p, h => by
    obtain rfl := Power.rank_injective h
    exact ⟨d, rfl, rfl⟩
  | j + 1, p, h => by
    obtain ⟨p', hp⟩ := Power.exists_tighter (show p.rank < q.rank by omega)
    obtain ⟨d', htok, hexpr⟩ := d.weaken j p' (by rw [Power.rank_tighter hp]; omega)
    refine ⟨.joined hp d' .nil, ?_, ?_⟩
    · rw [ExprTree.tokens, LinkTrees.tokens, List.append_nil, htok]
    · rw [ExprTree.expr, LinkTrees.join, hexpr]

theorem ExprTree.exists_of_le {p q : Power} (d : ExprTree q) (h : p.rank ≤ q.rank) :
    ∃ d' : ExprTree p, d'.tokens = d.tokens ∧ d'.expr = d.expr :=
  d.weaken (q.rank - p.rank) p (by omega)

/-- A target is a primary that stands for a variable. -/
theorem TargetTree.exists_tree : ∀ d : TargetTree, ∃ d' : ExprTree .primary,
    d'.tokens = d.tokens ∧ d'.expr = .var d.token.value d.token.position
  | .name t => ⟨.var t, rfl, rfl⟩
  | .paren l inner r => by
    obtain ⟨d, htok, hexpr⟩ := inner.exists_tree
    obtain ⟨d', htok', hexpr'⟩ := d.exists_of_le (p := .assignment) (by decide)
    refine ⟨.paren l d' r, ?_, ?_⟩
    · rw [ExprTree.tokens, TargetTree.tokens, htok', htok]
    · rw [ExprTree.expr, TargetTree.token, hexpr', hexpr]

/-! ### Trees are read -/

theorem reads_exprWithin_succ {m : Power} {f : OperandForm}
    (hf : Grammar.standard.operand? s.stream.current.kind = some f) :
    Reads (exprWithin .standard (n + 1) m) s ts e u ↔
      Reads (operand (exprWithin .standard n) f >>= fun left => remaining >>= fun k =>
        operators (exprWithin .standard n) .standard m k left) s ts e u := by
  conv_lhs => unfold exprWithin
  rw [reads_current_bind, hf]

theorem ExprTree.reads_primary (ih : ReadsTrees n) (d : ExprTree .primary)
    (hn : s.stream.remaining ≤ n + 1) (hp : s.Past d.tokens t) :
    ∃ f, Grammar.standard.operand? s.stream.current.kind = some f ∧
      Reads (operand (exprWithin .standard n) f) s d.tokens d.expr t := by
  cases d with
  | literal w => exact ⟨.primary, by rw [hp.current]; exact w.operand, w.reads hp⟩
  | var w =>
    refine ⟨.primary, by rw [hp.current, w.2]; rfl, Reads.advance_bind hp ?_⟩
    simp only [w.2]
    exact reads_pure.mpr ⟨rfl, rfl, hp.here⟩
  | paren l inner r =>
    refine ⟨.grouping, by rw [hp.current, l.2]; rfl, ?_⟩
    obtain ⟨s1, h1, hp⟩ := past_cons.mp hp
    obtain ⟨s2, h2, hp⟩ := past_append.mp hp
    have hrem := h1.remaining_one
    have hstop : Stops .lowest s2 := stops_of_none (by rw [hp.current, r.2]; rfl)
    have hinner := ih.reads (m := .lowest) rfl (by omega) inner h2 hstop
    exact Reads.advance_bind h1 (hinner.bind
      (Reads.expect_bind r (by decide) hp (reads_pure.mpr ⟨rfl, rfl, hp.here⟩)))
  | joined hq first links => cases hq

theorem ExprTree.reads_of_loop_primary (ih : ReadsTrees n) {m : Power} (d : ExprTree .primary)
    (hn : s.stream.remaining ≤ n + 1) (hp : s.Past d.tokens t)
    (h : ∀ k, t.stream.remaining ≤ k →
      Reads (operators (exprWithin .standard n) .standard m k d.expr) t vs e u) :
    Reads (exprWithin .standard (n + 1) m) s (d.tokens ++ vs) e u := by
  obtain ⟨f, hf, hd⟩ := d.reads_primary ih hn hp
  rw [reads_exprWithin_succ hf]
  exact hd.bind (reads_remaining_bind.mpr (h _ le_rfl))

/-- **A tree is read from its first operand on:** the parser reads the tokens of the tree and goes
on behind it with the loop over operators, begun with the tree's expression. -/
theorem ExprTree.reads_of_loop (ih : ReadsTrees n) {m p : Power} :
    ∀ (d : ExprTree p) {s t : ParseState} {vs : List Token}, m.rank ≤ p.floor.rank →
      s.stream.remaining ≤ n + 1 → s.Past d.tokens t → Stops p.floor t →
      (∀ k, t.stream.remaining ≤ k →
        Reads (operators (exprWithin .standard n) .standard m k d.expr) t vs e u) →
      Reads (exprWithin .standard (n + 1) m) s (d.tokens ++ vs) e u
  | .literal w, s, t, vs, _, hn, hp, _, h => reads_of_loop_primary ih (.literal w) hn hp h
  | .var w, s, t, vs, _, hn, hp, _, h => reads_of_loop_primary ih (.var w) hn hp h
  | .paren l inner r, s, t, vs, _, hn, hp, _, h =>
    reads_of_loop_primary ih (.paren l inner r) hn hp h
  | .unary w operand, s, t, vs, _, hn, hp, ht, h => by
    rw [reads_exprWithin_succ (by rw [hp.current]; exact w.operand)]
    obtain ⟨s1, h1, hp⟩ := past_cons.mp hp
    have hrem := h1.remaining_one
    have hop := ih.reads (m := .unary) rfl (by omega) operand hp ht
    have hunary : Reads (Parse.unary (exprWithin .standard n)) s (w.token :: operand.tokens)
        (.unary w.op operand.expr w.token.position) t := by
      refine Reads.advance_bind h1 ?_
      simp only [w.named]
      exact hop.bind_pure
    exact hunary.bind (reads_remaining_bind.mpr (h _ le_rfl))
  | .assign target sign value, s, t, vs, hm, hn, hp, ht, h => by
    obtain ⟨s1, h1, hp⟩ := past_append.mp hp
    obtain ⟨d, htok, hexpr⟩ := target.exists_tree
    have hop : Grammar.standard.operator? s1.stream.current.kind =
        some (.assignment, .assignment) := by
      rw [hp.current]; exact operator_assignment.mpr ⟨sign.2, rfl⟩
    obtain ⟨s2, h2, hp⟩ := past_cons.mp hp
    have hpos := d.tokens_pos
    have hrem1 := h1.remaining
    have hrem2 := h2.remaining_one
    have hrem3 := hp.remaining
    rw [htok] at hpos
    have hvalue := ih.reads (m := .lowest) rfl (by omega) value hp ht
    rw [ExprTree.tokens, ← htok, List.append_assoc]
    refine d.reads_of_loop_primary ih hn (htok ▸ h1) fun k hk => ?_
    cases k with
    | zero => omega
    | succ k =>
      rw [reads_operators_succ hop (lt_of_le_of_lt hm (by decide)), hexpr]
      exact Reads.bind (Reads.advance_bind h2 hvalue.bind_pure) (h k (by omega))
  | .joined (p := p) (q := q) hq first links, s, t, vs, hm, hn, hp, ht, h => by
    obtain ⟨s1, h1, h2⟩ := past_append.mp hp
    have hpq := Power.floor_tighter hq
    have hp' := p.rank_floor_le
    have hpos := first.tokens_pos
    have hrem := h1.remaining
    have hs1 : Stops q.floor s1 := (links.stops h2 (ht.mono hp')).mono hpq
    rw [ExprTree.tokens, List.append_assoc]
    refine first.reads_of_loop ih (by omega) hn h1 hs1 fun k hk => ?_
    obtain rfl | hlt := links.eq_nil_or
    · obtain ⟨-, rfl⟩ := past_nil.mp h2
      exact h k hk
    · exact links.reads_loop ih (by omega) (by omega) hk h2 (ht.mono hp') h

/-! ### What is read is a tree -/

/-- Links one behind the other. -/
def LinkTrees.append {p : Power} : LinkTrees p → LinkTrees p → LinkTrees p
  | .nil, more => more
  | .binary h t right rest, more => .binary h t right (rest.append more)
  | .callEmpty l r rest, more => .callEmpty l r (rest.append more)
  | .call l args r rest, more => .call l args r (rest.append more)

theorem LinkTrees.tokens_append {p : Power} :
    ∀ links more : LinkTrees p, (links.append more).tokens = links.tokens ++ more.tokens
  | .nil, _ => rfl
  | .binary h t right rest, more => by simp [append, tokens, tokens_append rest more]
  | .callEmpty l r rest, more => by simp [append, tokens, tokens_append rest more]
  | .call l args r rest, more => by simp [append, tokens, tokens_append rest more]

theorem LinkTrees.join_append {p : Power} : ∀ (links more : LinkTrees p) (left : Expr),
    (links.append more).join left = more.join (links.join left)
  | .nil, _, _ => rfl
  | .binary _ _ _ rest, more, _ => join_append rest more _
  | .callEmpty _ _ rest, more, _ => join_append rest more _
  | .call _ _ _ rest, more, _ => join_append rest more _

/-- A tree of a level of operators can be continued by further links. -/
theorem ExprTree.exists_link {p : Power} (d : ExprTree p) (links : LinkTrees p)
    (h : p ≠ .primary ∧ p ≠ .unary ∧ p ≠ .assignment) :
    ∃ d' : ExprTree p, d'.tokens = d.tokens ++ links.tokens ∧ d'.expr = links.join d.expr := by
  cases d with
  | joined hq first more =>
    refine ⟨.joined hq first (more.append links), ?_, ?_⟩
    · rw [tokens, tokens, more.tokens_append, List.append_assoc]
    · rw [expr, expr, more.join_append]
  | literal | var | paren => exact absurd rfl h.1
  | unary => exact absurd rfl h.2.1
  | assign => exact absurd rfl h.2.2

theorem LinkTrees.join_eq_var {p : Power} {name : String} {pos : Position} :
    ∀ (links : LinkTrees p) {left : Expr}, links.join left = .var name pos → links = .nil
  | .nil, _, _ => rfl
  | .binary _ _ _ rest, _, h => by
    obtain rfl := join_eq_var rest h
    cases h
  | .callEmpty _ _ rest, _, h => by
    obtain rfl := join_eq_var rest h
    cases h
  | .call _ _ _ rest, _, h => by
    obtain rfl := join_eq_var rest h
    cases h

/-- A tree that stands for a variable is a target. -/
theorem ExprTree.exists_target {p : Power} {name : String} {pos : Position} :
    ∀ d : ExprTree p, d.expr = .var name pos → ∃ target : TargetTree,
      target.tokens = d.tokens ∧ target.token.value = name ∧ target.token.position = pos
  | .var w, h => by
    cases h
    exact ⟨.name w, rfl, rfl, rfl⟩
  | .paren l inner r, h => by
    obtain ⟨target, htok, hname, hpos⟩ := inner.exists_target h
    refine ⟨.paren l target r, ?_, hname, hpos⟩
    rw [TargetTree.tokens, tokens, htok]
  | .joined hq first links, h => by
    obtain rfl := links.join_eq_var h
    obtain ⟨target, htok, hvar⟩ := first.exists_target h
    refine ⟨target, ?_, hvar⟩
    rw [tokens, LinkTrees.tokens, List.append_nil, htok]
  | .literal w, h => by cases h
  | .unary w operand, h => by cases h
  | .assign target sign value, h => by cases h

/-- What the parser reads as arguments are trees. -/
theorem arguments_sound (ih : ReadsTrees n) : ∀ (k : Nat) {s t : ParseState} {ts : List Token}
    {es : List Expr}, s.stream.remaining ≤ n →
      Reads (arguments (exprWithin .standard n) k) s ts es t →
        ∃ args : ArgumentTrees, args.tokens = ts ∧ args.exprs = es
  | 0, s, t, ts, es, hn, h => by
    obtain ⟨e, s1, us, vs, rfl, he, h⟩ := reads_bind.mp h
    obtain ⟨⟨d, rfl, rfl⟩, hp, -⟩ := (ih (m := .lowest) rfl hn).mp he
    obtain ⟨rfl, rfl, -⟩ := reads_pure.mp h
    exact ⟨.one d, (List.append_nil _).symm, rfl⟩
  | k + 1, s, t, ts, es, hn, h => by
    obtain ⟨e, s1, us, vs, rfl, he, h⟩ := reads_bind.mp h
    obtain ⟨⟨d, rfl, rfl⟩, hp, -⟩ := (ih (m := .lowest) rfl hn).mp he
    have hrem := hp.remaining
    obtain ⟨comma, s2, vs, rfl, hc, h⟩ | ⟨-, h⟩ := h.of_accept (by decide) inferInstance
    · have hrem' := hc.remaining_one
      obtain ⟨es, s3, us, vs, rfl, h1, h⟩ := reads_bind.mp h
      obtain ⟨args, rfl, rfl⟩ := arguments_sound ih k (by omega) h1
      obtain ⟨rfl, rfl, -⟩ := reads_pure.mp h
      exact ⟨.more d comma args, by rw [ArgumentTrees.tokens, List.append_nil], rfl⟩
    · obtain ⟨rfl, rfl, -⟩ := reads_pure.mp h
      exact ⟨.one d, (List.append_nil _).symm, rfl⟩

/-- What the parser reads as a call is a link. -/
theorem call_sound (ih : ReadsTrees n) {left : Expr} (hs : s.stream.current.kind = .openParen)
    (hn : s.stream.remaining ≤ n + 1)
    (h : Reads (Parse.call (exprWithin .standard n) left) s ts e t) :
    ∃ link : LinkTrees .call, link.tokens = ts ∧ link.join left = e ∧ 0 < ts.length := by
  obtain ⟨x, s1, vs, rfl, hx, h1, h⟩ := h.of_advance (by rw [hs]; decide) inferInstance
  have hrem := h1.remaining_one
  let l : Word .openParen := ⟨x, by rw [hx, hs]⟩
  rw [reads_current_bind] at h
  split_ifs at h
  · rw [reads_pure_bind] at h
    obtain ⟨r, s2, vs, rfl, -, h⟩ := h.of_expect (by decide) inferInstance
    obtain ⟨rfl, rfl, -⟩ := reads_pure.mp h
    exact ⟨.callEmpty l r .nil, rfl, rfl, Nat.succ_pos _⟩
  · rw [reads_remaining_bind] at h
    obtain ⟨es, s2, us, vs, rfl, hargs, h⟩ := reads_bind.mp h
    obtain ⟨args, rfl, rfl⟩ := arguments_sound ih _ (by omega) hargs
    obtain ⟨r, s3, vs, rfl, -, h⟩ := h.of_expect (by decide) inferInstance
    obtain ⟨rfl, rfl, -⟩ := reads_pure.mp h
    exact ⟨.call l args r .nil, rfl, rfl, Nat.succ_pos _⟩

/-- What the parser reads as an operator of level `p` and its right operand is a link. -/
theorem binary_sound (ih : ReadsTrees n) {left : Expr} {p : Power}
    (hop : Grammar.standard.operator? s.stream.current.kind = some (p, .binary))
    (hn : s.stream.remaining ≤ n + 1)
    (h : Reads (Parse.binary (exprWithin .standard n) left p) s ts e t) :
    ∃ link : LinkTrees p, link.tokens = ts ∧ link.join left = e ∧ 0 < ts.length ∧ Stops p t := by
  have hs : s.stream.current.kind ≠ .endOfInput := by
    intro hk
    rw [hk] at hop
    cases hop
  obtain ⟨x, s1, vs, rfl, hx, h1, h⟩ := h.of_advance hs fun x => by split <;> infer_instance
  rw [← hx] at hop
  obtain ⟨w, rfl⟩ := exists_infixWord hop
  obtain ⟨q, hq⟩ := w.tighter
  have hrem := h1.remaining_one
  simp only [w.named] at h
  obtain ⟨e, s2, us, vs, rfl, hright, h⟩ := reads_bind.mp h
  obtain ⟨⟨right, rfl, rfl⟩, -, hstop⟩ := (ih (w.inner hq) (by omega)).mp hright
  obtain ⟨rfl, rfl, hp⟩ := reads_pure.mp h
  obtain ⟨-, rfl⟩ := past_nil.mp hp
  exact ⟨.binary hq w right .nil, rfl, rfl, Nat.succ_pos _, hstop⟩

/-- What the parser reads as the value of an assignment, without complaint, makes an assignment of
the tree before it, which stands for a variable. -/
theorem assignment_sound (ih : ReadsTrees n) {c : Power} (d : ExprTree c)
    (hs : s.stream.current.kind = .assign) (hn : s.stream.remaining ≤ n + 1)
    (h : Reads (Parse.assignment (exprWithin .standard n) d.expr) s ts e t) :
    ∃ d' : ExprTree .assignment, d'.tokens = d.tokens ++ ts ∧ d'.expr = e ∧ 0 < ts.length ∧
      Stops .lowest t := by
  obtain ⟨x, s1, vs, rfl, hx, h1, h⟩ := h.of_advance (by rw [hs]; decide) fun x => by
    refine Steady.bind inferInstance fun value => ?_
    split <;> infer_instance
  have hrem := h1.remaining_one
  obtain ⟨value, s2, us, vs, rfl, hvalue, h⟩ := h.of_bind fun value => by
    split <;> infer_instance
  obtain ⟨⟨d', rfl, rfl⟩, -, hstop⟩ := (ih (m := .lowest) rfl (by omega)).mp hvalue
  split at h
  · rename_i name pos heq
    obtain ⟨rfl, rfl, hp⟩ := reads_pure.mp h
    obtain ⟨-, rfl⟩ := past_nil.mp hp
    obtain ⟨target, htok, rfl, rfl⟩ := d.exists_target heq
    refine ⟨.assign target ⟨x, by rw [hx, hs]⟩ d', ?_, rfl, Nat.succ_pos _, hstop⟩
    rw [ExprTree.tokens, htok, List.append_nil]
  · obtain ⟨_, _, _, _, -, hrep, -⟩ := reads_bind.mp h
    exact absurd hrep reads_report

/-- An operator that holds strongly enough is read as part of a tree. -/
theorem operator_sound (ih : ReadsTrees n) {c p : Power} {f : OperatorForm} (d : ExprTree c)
    (hop : Grammar.standard.operator? s.stream.current.kind = some (p, f)) (hc : p.rank ≤ c.rank)
    (hn : s.stream.remaining ≤ n + 1)
    (h : Reads (operator (exprWithin .standard n) d.expr p f) s ts e t) :
    ∃ d' : ExprTree p, d'.tokens = d.tokens ++ ts ∧ d'.expr = e ∧ 0 < ts.length ∧ Stops p t := by
  cases f with
  | binary =>
    obtain ⟨link, rfl, rfl, hpos, hstop⟩ := binary_sound ih hop hn h
    obtain ⟨d1, htok, hexpr⟩ := d.exists_of_le hc
    obtain ⟨w, -⟩ := exists_infixWord hop
    obtain ⟨d2, htok', hexpr'⟩ := d1.exists_link link w.level_ne
    exact ⟨d2, by rw [htok', htok], by rw [hexpr', hexpr], hpos, hstop⟩
  | call =>
    obtain ⟨hk, rfl⟩ := operator_call.mp hop
    obtain ⟨link, rfl, rfl, hpos⟩ := call_sound ih hk hn h
    obtain ⟨d1, htok, hexpr⟩ := d.exists_of_le hc
    obtain ⟨d2, htok', hexpr'⟩ := d1.exists_link link (by decide)
    exact ⟨d2, by rw [htok', htok], by rw [hexpr', hexpr], hpos, stops_call _ le_rfl t⟩
  | assignment =>
    obtain ⟨hk, rfl⟩ := operator_assignment.mp hop
    obtain ⟨d', htok, hexpr, hpos, hstop⟩ := assignment_sound ih d hk hn h
    exact ⟨d', htok, hexpr, hpos, hstop.mono (by decide)⟩

theorem loop_end {expr : Power → Parse Expr} {m q c : Power} {k : Nat} {d : ExprTree c}
    (hc : q.rank ≤ c.rank) (hs : Stops m s)
    (h : Reads (operators expr .standard m k d.expr) s ts e t) :
    (∃ d' : ExprTree q, d'.tokens = d.tokens ++ ts ∧ d'.expr = e) ∧ Stops m t := by
  rw [reads_operators_of_stops hs] at h
  obtain ⟨rfl, rfl, hp⟩ := reads_pure.mp h
  obtain ⟨-, rfl⟩ := past_nil.mp hp
  obtain ⟨d', htok, hexpr⟩ := d.exists_of_le hc
  exact ⟨⟨d', by rw [htok, List.append_nil], hexpr⟩, hs⟩

/-- **The loop over operators keeps a tree of what was read so far.** -/
theorem loop_sound (ih : ReadsTrees n) {m q : Power} (hm : m.inner? = some q) :
    ∀ (k : Nat) {c : Power} (d : ExprTree c) {s : ParseState} {ts : List Token},
      q.rank ≤ c.rank → Stops c s → s.stream.remaining ≤ n + 1 → s.stream.remaining ≤ k →
      Reads (operators (exprWithin .standard n) .standard m k d.expr) s ts e t →
        (∃ d' : ExprTree q, d'.tokens = d.tokens ++ ts ∧ d'.expr = e) ∧ Stops m t := by
  intro k
  induction k with
  | zero =>
    intro c d s ts hc hs hn hk h
    by_cases hstop : Stops m s
    · exact loop_end hc hstop h
    · obtain ⟨p, f, s1, -, -, hp⟩ := exists_of_not_stops h.past.closed hstop
      have := hp.remaining_one
      omega
  | succ k ihk =>
    intro c d s ts hc hs hn hk h
    by_cases hstop : Stops m s
    · exact loop_end hc hstop h
    · obtain ⟨p, f, -, hop, hlt, -⟩ := exists_of_not_stops h.past.closed hstop
      rw [reads_operators_succ hop hlt] at h
      obtain ⟨e1, s1, us, vs, rfl, h1, h2⟩ := reads_bind.mp h
      have hrem := h1.past.remaining
      obtain ⟨d1, htok, rfl, hpos, hs1⟩ := operator_sound ih d hop (hs p f hop) hn h1
      obtain ⟨⟨d', htok', hexpr⟩, ht⟩ :=
        ihk d1 (Power.inner_le hm hlt) hs1 (by omega) (by omega) h2
      exact ⟨⟨d', by rw [htok', htok, List.append_assoc], hexpr⟩, ht⟩

/-- An operand is read as a tree, with no call behind it unless it is one that can be called. -/
theorem operand_sound (ih : ReadsTrees n) {f : OperandForm}
    (hf : Grammar.standard.operand? s.stream.current.kind = some f)
    (hn : s.stream.remaining ≤ n + 1)
    (h : Reads (operand (exprWithin .standard n) f) s ts e t) :
    ∃ (c : Power) (d : ExprTree c), d.tokens = ts ∧ d.expr = e ∧ Power.unary.rank ≤ c.rank ∧
      Stops c t := by
  have hs : s.stream.current.kind ≠ .endOfInput := by
    intro hk
    rw [hk] at hf
    cases hf
  cases f with
  | primary =>
    obtain ⟨d, htok, hexpr⟩ := primary_sound hs h
    exact ⟨.primary, d, htok, hexpr, by decide, stops_call _ (by decide) t⟩
  | grouping =>
    obtain ⟨x, s1, vs, rfl, hx, h1, h⟩ := h.of_advance hs inferInstance
    have hrem := h1.remaining_one
    obtain ⟨e, s2, us, vs, rfl, he, h⟩ := reads_bind.mp h
    obtain ⟨⟨d, rfl, rfl⟩, -, -⟩ := (ih (m := .lowest) rfl (by omega)).mp he
    obtain ⟨r, s3, vs, rfl, -, h⟩ := h.of_expect (by decide) inferInstance
    obtain ⟨rfl, rfl, -⟩ := reads_pure.mp h
    have hl : x.kind = .openParen := by rw [hx]; exact operand_grouping.mp hf
    exact ⟨.primary, .paren ⟨x, hl⟩ d r, rfl, rfl, by decide, stops_call _ (by decide) t⟩
  | unary =>
    obtain ⟨x, s1, vs, rfl, hx, h1, h⟩ := h.of_advance hs fun x => by split <;> infer_instance
    have hrem := h1.remaining_one
    rw [← hx] at hf
    obtain ⟨w, rfl⟩ := exists_prefixWord hf
    simp only [w.named] at h
    obtain ⟨e, s2, us, vs, rfl, he, h⟩ := reads_bind.mp h
    obtain ⟨⟨d, rfl, rfl⟩, -, hstop⟩ := (ih (m := .unary) rfl (by omega)).mp he
    obtain ⟨rfl, rfl, hp⟩ := reads_pure.mp h
    obtain ⟨-, rfl⟩ := past_nil.mp hp
    exact ⟨.unary, .unary w d, by rw [ExprTree.tokens, List.append_nil], rfl, le_rfl, hstop⟩

/-! ### The expression parser -/

/-- **Within any number of tokens the parser reads exactly the trees.** -/
theorem exprWithin_reads_iff (n : Nat) : ReadsTrees n := by
  induction n with
  | zero =>
    intro m q hm s t ts e hn
    constructor
    · intro h
      exact absurd (reads_current_bind.mp h) reads_noExpression
    · rintro ⟨⟨d, rfl, rfl⟩, hp, -⟩
      have hpos := d.tokens_pos
      have hrem := hp.remaining
      omega
  | succ n ih =>
    intro m q hm s t ts e hn
    constructor
    · intro h
      have hpast := h.past
      cases hf : Grammar.standard.operand? s.stream.current.kind with
      | none =>
        unfold exprWithin at h
        rw [reads_current_bind, hf] at h
        exact absurd h reads_noExpression
      | some f =>
        rw [reads_exprWithin_succ hf] at h
        obtain ⟨left, s1, us, vs, rfl, h1, h2⟩ := reads_bind.mp h
        rw [reads_remaining_bind] at h2
        have hrem := h1.past.remaining
        obtain ⟨c, d, rfl, rfl, hc, hs1⟩ := operand_sound ih hf hn h1
        obtain ⟨hd, ht⟩ := loop_sound ih hm _ d (le_trans (Power.inner_le_unary hm) hc) hs1
          (by omega) le_rfl h2
        exact ⟨hd, hpast, ht⟩
    · rintro ⟨⟨d, rfl, rfl⟩, hp, ht⟩
      have hfloor := Power.floor_inner hm
      have := d.reads_of_loop ih hfloor hn hp (ht.mono hfloor) fun k hk =>
        (reads_operators_of_stops ht).mpr (reads_pure.mpr ⟨rfl, rfl, hp.here⟩)
      rwa [List.append_nil] at this

/-- **The expression parser reads exactly the tokens that expressions derive,** up to a token that
continues no expression, as the expression that the derivation stands for. -/
theorem expr_reads_iff : Reads (Parse.expr .standard .lowest) s ts e t ↔
    (∃ d : ExprTree .assignment, d.tokens = ts ∧ d.expr = e) ∧ s.Past ts t ∧ Stops .lowest t := by
  unfold Parse.expr
  rw [reads_remaining_bind]
  exact exprWithin_reads_iff _ rfl le_rfl

end StackListing
