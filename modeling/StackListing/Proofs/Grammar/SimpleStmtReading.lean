import StackListing.Proofs.Grammar.ExprReading

/-!
# Reading the rules without statements inside

The first token of a statement decides its rule.  The rules for expression statements, `print`,
`return`, variables and parameters have no statements inside, and each reads exactly the tokens that
its trees derive.  An expression inside a statement is read together with the token that closes it,
so what could follow the expression by itself never matters.
-/

namespace StackListing

open Parse ParseState

/-! ### Where a statement begins -/

theorem begins_of_operand {k : Kind} {f : OperandForm}
    (h : Grammar.standard.operand? k = some f) :
    Grammar.standard.statement? k = none ∧ k.isType = false ∧ k ≠ .elseWord ∧ k ≠ .closeCurly ∧
      k ≠ .closeParen ∧ k ≠ .semicolon ∧ k ≠ .endOfInput := by
  cases k <;> simp [Grammar.standard] at h <;> decide

theorem TypeWord.declares (w : TypeWord) : w.token.kind.isType = true ∧
    Grammar.standard.statement? w.token.kind = some .declaration := by
  obtain ⟨⟨k, v, pos⟩, ty, h⟩ := w
  cases k <;> simp [Kind.type?] at h <;> exact ⟨rfl, rfl⟩

/-- The kinds of tokens with which each form of statement begins. -/
theorem begins_of_statement {k : Kind} {form : StatementForm}
    (h : Grammar.standard.statement? k = some form) :
    match form with
    | .declaration => k.isType = true
    | .branch => k = .ifWord
    | .whileLoop => k = .whileWord
    | .forLoop => k = .forWord
    | .giveBack => k = .returnWord
    | .print => k = .printWord
    | .block => k = .openCurly := by
  cases k <;> simp [Grammar.standard] at h <;> subst h <;> rfl

theorem BodyTree.begins {o : Bool} : ∀ d : BodyTree o, ∃ x xs, d.tokens = x :: xs ∧
    x.kind.isType = false ∧ x.kind ≠ .elseWord ∧ x.kind ≠ .closeCurly
  | .block l body r => ⟨l.1, _, rfl, by rw [l.2]; decide⟩
  | .ifOnly kw l c r yes => ⟨kw.1, _, rfl, by rw [kw.2]; decide⟩
  | .ifElse kw l c r yes kw' no => ⟨kw.1, _, rfl, by rw [kw.2]; decide⟩
  | .whileLoop kw l c r body => ⟨kw.1, _, rfl, by rw [kw.2]; decide⟩
  | .forLoop kw l initial c semi i r body => ⟨kw.1, _, rfl, by rw [kw.2]; decide⟩
  | .giveBack kw value semi => ⟨kw.1, _, rfl, by rw [kw.2]; decide⟩
  | .print kw l e r semi => ⟨kw.1, _, rfl, by rw [kw.2]; decide⟩
  | .expr e semi => by
    obtain ⟨x, xs, f, hx, hf⟩ := e.begins
    obtain ⟨-, hty, helse, hclose, -⟩ := begins_of_operand hf
    exact ⟨x, xs ++ [semi.1], by rw [tokens, hx]; rfl, hty, helse, hclose⟩

theorem StmtTree.begins (d : StmtTree) : ∃ x xs, d.tokens = x :: xs ∧
    x.kind ≠ .elseWord ∧ x.kind ≠ .closeCurly := by
  have htype : ∀ w : TypeWord, w.token.kind ≠ .elseWord ∧ w.token.kind ≠ .closeCurly := by
    intro w
    have hw := w.declares.1
    constructor <;> intro hk <;> rw [hk] at hw <;> cases hw
  cases d with
  | body s =>
    obtain ⟨x, xs, hx, -, h⟩ := s.begins
    exact ⟨x, xs, hx, h⟩
  | var v => exact ⟨v.type.token, _, rfl, htype v.type⟩
  | function type name l parameters r lb body rb => exact ⟨type.token, _, rfl, htype type⟩

theorem StmtTree.tokens_pos (d : StmtTree) : 0 < d.tokens.length := by
  obtain ⟨x, xs, hx, -⟩ := d.begins
  rw [hx]
  exact Nat.succ_pos _

variable {α : Type} {n : Nat} {k : Kind} {s t u : ParseState} {ts vs : List Token} {x : Stmt}
  {b : α}

/-! ### Expressions inside statements -/

/-- An expression and the token of kind `k` that closes it are read. -/
theorem Parse.Reads.expr_bind {expected : String} {f : Expr → Token → Parse α}
    (d : ExprTree .assignment) (w : Word k) (hk : k ≠ .endOfInput)
    (hop : Grammar.standard.operator? k = none) (hd : s.Past d.tokens t) {s' : ParseState}
    (hw : t.Past [w.1] s') (h : Reads (f d.expr w.1) s' vs b u) :
    Reads (Parse.expr .standard .lowest >>= fun e => expect k expected >>= fun x => f e x) s
      (d.tokens ++ w.1 :: vs) b u := by
  have hstop : Stops .lowest t := stops_of_none (by rw [hw.current, w.2, hop])
  exact (expr_reads_iff.mpr ⟨⟨d, rfl, rfl⟩, hd, hstop⟩).bind (Reads.expect_bind w hk hw h)

theorem Parse.Reads.of_expr_bind {expected : String} {f : Expr → Token → Parse α}
    (hk : k ≠ .endOfInput) (hf : ∀ e x, Steady (f e x))
    (h : Reads (Parse.expr .standard .lowest >>= fun e => expect k expected >>= fun x => f e x)
      s ts b u) :
    ∃ (d : ExprTree .assignment) (w : Word k) (t : ParseState) (vs : List Token),
      ts = d.tokens ++ w.1 :: vs ∧ s.Past (d.tokens ++ [w.1]) t ∧
        Reads (f d.expr w.1) t vs b u := by
  obtain ⟨e, s1, us, vs, rfl, he, h⟩ := reads_bind.mp h
  obtain ⟨⟨d, rfl, rfl⟩, hp, -⟩ := expr_reads_iff.mp he
  obtain ⟨w, s2, vs, rfl, hw, h⟩ := h.of_expect hk (hf _)
  exact ⟨d, w, s2, vs, rfl, hp.trans hw, h⟩

/-- An optional expression and the token of kind `k` that closes it are read. -/
theorem Parse.Reads.exprUnless_bind {expected : String} {f : Option Expr → Token → Parse α}
    (d : OptionTree) (w : Word k) (hk : k = .semicolon ∨ k = .closeParen)
    (hp : s.Past (d.tokens ++ [w.1]) t) (h : Reads (f d.expr w.1) t vs b u) :
    Reads (exprUnless .standard k >>= fun e => expect k expected >>= fun x => f e x) s
      (d.tokens ++ w.1 :: vs) b u := by
  have hk' : k ≠ .endOfInput ∧ Grammar.standard.operator? k = none := by
    obtain rfl | rfl := hk <;> decide
  obtain ⟨s1, h1, h2⟩ := past_append.mp hp
  refine Reads.bind (a := d.expr) (t := s1) ?_ (Reads.expect_bind w hk'.1 h2 h)
  unfold exprUnless
  rw [reads_current_bind]
  cases d with
  | none =>
    obtain ⟨hclosed, rfl⟩ := past_nil.mp h1
    rw [if_pos (by rw [h2.current, w.2])]
    exact reads_pure.mpr ⟨rfl, rfl, h1⟩
  | some d =>
    have hc : s.stream.current.kind ≠ k := by
      obtain ⟨x, xs, f, hx, hf⟩ := d.begins
      have h1' : s.Past (x :: xs) s1 := hx ▸ h1
      obtain ⟨-, -, -, -, hparen, hsemi, -⟩ := begins_of_operand hf
      rw [h1'.current]
      obtain rfl | rfl := hk <;> assumption
    rw [if_neg hc]
    have hstop : Stops .lowest s1 := stops_of_none (by rw [h2.current, w.2, hk'.2])
    exact (expr_reads_iff.mpr ⟨⟨d, rfl, rfl⟩, h1, hstop⟩).bind_pure

theorem Parse.Reads.of_exprUnless_bind {expected : String} {f : Option Expr → Token → Parse α}
    (hk : k ≠ .endOfInput) (hf : ∀ e x, Steady (f e x))
    (h : Reads (exprUnless .standard k >>= fun e => expect k expected >>= fun x => f e x)
      s ts b u) :
    ∃ (d : OptionTree) (w : Word k) (t : ParseState) (vs : List Token),
      ts = d.tokens ++ w.1 :: vs ∧ s.Past (d.tokens ++ [w.1]) t ∧
        Reads (f d.expr w.1) t vs b u := by
  obtain ⟨v, s1, us, vs, rfl, hv, h1⟩ := reads_bind.mp h
  have hp := hv.past
  obtain ⟨w, s2, vs, rfl, hw, h2⟩ := h1.of_expect hk (hf _)
  unfold exprUnless at hv
  rw [reads_current_bind, reads_ite] at hv
  obtain ⟨-, hv⟩ | ⟨-, hv⟩ := hv
  · obtain ⟨rfl, rfl, -⟩ := reads_pure.mp hv
    exact ⟨none, w, s2, vs, rfl, hp.trans hw, h2⟩
  · obtain ⟨e, s3, us, vs', rfl, he, hv⟩ := reads_bind.mp hv
    obtain ⟨rfl, rfl, -⟩ := reads_pure.mp hv
    obtain ⟨⟨d, rfl, rfl⟩, -, -⟩ := expr_reads_iff.mp he
    rw [List.append_nil] at hp ⊢
    exact ⟨some d, w, s2, vs, rfl, hp.trans hw, h2⟩

/-- An expression in parentheses, as it stands behind a keyword, is read. -/
theorem Parse.Reads.condition_bind {open' close' : String} {f : Expr → Parse α}
    (l : Word .openParen) (c : ExprTree .assignment) (r : Word .closeParen)
    (hp : s.Past (l.1 :: (c.tokens ++ r.1 :: vs)) u)
    (h : ∀ t, t.Past vs u → t.stream.remaining ≤ s.stream.remaining →
      Reads (f c.expr) t vs b u) :
    Reads (expect .openParen open' >>= fun _ => Parse.expr .standard .lowest >>= fun e =>
      expect .closeParen close' >>= fun _ => f e) s (l.1 :: (c.tokens ++ r.1 :: vs)) b u := by
  obtain ⟨s1, h1, hp⟩ := past_cons.mp hp
  obtain ⟨s2, h2, hp⟩ := past_append.mp hp
  obtain ⟨s3, h3, hp⟩ := past_cons.mp hp
  have hrem1 := h1.remaining_one
  have hrem2 := h2.remaining
  have hrem3 := h3.remaining_one
  refine Reads.expect_bind l (by decide) h1 ?_
  exact Reads.expr_bind c r (by decide) rfl h2 h3 (h s3 hp (by omega))

theorem Parse.Reads.of_condition_bind {open' close' : String} {f : Expr → Parse α}
    (hf : ∀ e, Steady (f e))
    (h : Reads (expect .openParen open' >>= fun _ => Parse.expr .standard .lowest >>= fun e =>
      expect .closeParen close' >>= fun _ => f e) s ts b u) :
    ∃ (l : Word .openParen) (c : ExprTree .assignment) (r : Word .closeParen) (t : ParseState)
      (vs : List Token), ts = l.1 :: (c.tokens ++ r.1 :: vs) ∧
        t.stream.remaining ≤ s.stream.remaining ∧ Reads (f c.expr) t vs b u := by
  obtain ⟨l, s1, vs, rfl, hl, h1⟩ := h.of_expect (by decide) inferInstance
  obtain ⟨c, r, s2, vs, rfl, hc, h2⟩ := h1.of_expr_bind (by decide) fun e _ => hf e
  have hrem1 := hl.remaining
  have hrem2 := hc.remaining
  exact ⟨l, c, r, s2, vs, rfl, by omega, h2⟩

/-! ### The rules without statements inside -/

theorem expressionStmt_reads_iff : Reads (expressionStmt .standard) s ts x t ↔
    (∃ (e : ExprTree .assignment) (semi : Word .semicolon),
      (BodyTree.expr e semi).tokens = ts ∧ (BodyTree.expr e semi).stmt = x) ∧ s.Past ts t := by
  constructor
  · intro h
    have hp := h.past
    obtain ⟨e, semi, s1, vs, rfl, -, h⟩ := h.of_expr_bind (by decide) inferInstance
    obtain ⟨rfl, rfl, -⟩ := reads_pure.mp h
    exact ⟨⟨e, semi, rfl, rfl⟩, hp⟩
  · rintro ⟨⟨e, semi, rfl, rfl⟩, hp⟩
    obtain ⟨s1, h1, h2⟩ := past_append.mp hp
    exact Reads.expr_bind e semi (by decide) rfl h1 h2 (reads_pure.mpr ⟨rfl, rfl, h2.here⟩)

theorem giveBack_reads_iff (hs : s.stream.current.kind = .returnWord) :
    Reads (Parse.giveBack .standard) s ts x t ↔
      (∃ kw value semi, (BodyTree.giveBack kw value semi).tokens = ts ∧
        (BodyTree.giveBack kw value semi).stmt = x) ∧ s.Past ts t := by
  constructor
  · intro h
    have hp := h.past
    obtain ⟨kw, s1, vs, rfl, hkw, -, h⟩ := h.of_advance (by rw [hs]; decide) inferInstance
    obtain ⟨value, semi, s2, vs, rfl, -, h⟩ := h.of_exprUnless_bind (by decide) inferInstance
    obtain ⟨rfl, rfl, -⟩ := reads_pure.mp h
    exact ⟨⟨⟨kw, by rw [hkw, hs]⟩, value, semi, rfl, rfl⟩, hp⟩
  · rintro ⟨⟨kw, value, semi, rfl, rfl⟩, hp⟩
    obtain ⟨s1, h1, h2⟩ := past_cons.mp hp
    exact Reads.advance_bind h1 (Reads.exprUnless_bind value semi (.inl rfl) h2
      (reads_pure.mpr ⟨rfl, rfl, h2.here⟩))

theorem print_reads_iff (hs : s.stream.current.kind = .printWord) :
    Reads (Parse.print .standard) s ts x t ↔
      (∃ kw l e r semi, (BodyTree.print kw l e r semi).tokens = ts ∧
        (BodyTree.print kw l e r semi).stmt = x) ∧ s.Past ts t := by
  constructor
  · intro h
    have hp := h.past
    obtain ⟨kw, s1, vs, rfl, hkw, -, h1⟩ := h.of_advance (by rw [hs]; decide) inferInstance
    obtain ⟨l, e, r, s2, vs, rfl, -, h2⟩ := h1.of_condition_bind inferInstance
    obtain ⟨semi, s3, vs, rfl, -, h3⟩ := h2.of_expect (by decide) inferInstance
    obtain ⟨rfl, rfl, -⟩ := reads_pure.mp h3
    exact ⟨⟨⟨kw, by rw [hkw, hs]⟩, l, e, r, semi, rfl, rfl⟩, hp⟩
  · rintro ⟨⟨kw, l, e, r, semi, rfl, rfl⟩, hp⟩
    obtain ⟨s1, h1, hp⟩ := past_cons.mp hp
    refine Reads.advance_bind h1 (Reads.condition_bind l e r hp fun s2 h2 _ => ?_)
    exact Reads.expect_bind semi (by decide) h2 (reads_pure.mpr ⟨rfl, rfl, h2.here⟩)

theorem variableDecl_reads_iff : Reads (Parse.variableDecl .standard) s ts x t ↔
    (∃ v : VariableTree, v.tokens = ts ∧ v.stmt = x) ∧ s.Past ts t := by
  constructor
  · intro h
    have hp := h.past
    obtain ⟨ty, s1, us, vs, rfl, hty, h1⟩ := reads_bind.mp h
    obtain ⟨w, hw, rfl, -⟩ := reads_type.mp hty
    obtain ⟨name, s2, vs, rfl, -, h2⟩ := h1.of_expect (by decide) inferInstance
    obtain ⟨eq, s3, vs, rfl, -, h3⟩ | ⟨-, h3⟩ := h2.of_accept (by decide) inferInstance
    · obtain ⟨i, s4, us, vs, rfl, hi, h4⟩ := reads_bind.mp h3
      obtain ⟨e, rfl, he⟩ := reads_map.mp hi
      obtain ⟨⟨d, rfl, rfl⟩, -, -⟩ := expr_reads_iff.mp he
      obtain ⟨semi, s5, vs, rfl, -, h5⟩ := h4.of_expect (by decide) inferInstance
      obtain ⟨rfl, rfl, -⟩ := reads_pure.mp h5
      exact ⟨⟨⟨⟨w, ty, hw⟩, name, some (eq, d), semi⟩, rfl, rfl⟩, hp⟩
    · obtain ⟨semi, s5, vs, rfl, -, h5⟩ :=
        (reads_pure_bind.mp h3).of_expect (by decide) inferInstance
      obtain ⟨rfl, rfl, -⟩ := reads_pure.mp h5
      exact ⟨⟨⟨⟨w, ty, hw⟩, name, none, semi⟩, rfl, rfl⟩, hp⟩
  · rintro ⟨⟨⟨w, name, i, semi⟩, rfl, rfl⟩, hp⟩
    obtain ⟨s1, h1, hp⟩ := past_cons.mp hp
    obtain ⟨s2, h2, hp⟩ := past_cons.mp hp
    obtain ⟨s3, h3, hp⟩ := past_append.mp hp
    have hend : ∀ i, Reads (expect .semicolon "Expected ';' after variable declaration" >>= fun _ =>
        pure (Stmt.variableDecl w.type name.1.value i name.1.position)) s3 [semi.1]
          (Stmt.variableDecl w.type name.1.value i name.1.position) t := fun i =>
      Reads.expect_bind semi (by decide) hp (reads_pure.mpr ⟨rfl, rfl, hp.here⟩)
    refine Reads.bind (reads_type.mpr ⟨w.token, w.named, rfl, h1⟩) ?_
    refine Reads.expect_bind name (by decide) h2 ?_
    cases i with
    | none =>
      obtain ⟨-, rfl⟩ := past_nil.mp h3
      refine Reads.reject_bind (by decide) (by rw [hp.current, semi.2]; decide) ?_
      exact reads_pure_bind.mpr (hend none)
    | some i =>
      obtain ⟨eq, d⟩ := i
      obtain ⟨s4, h4, h3⟩ := past_cons.mp h3
      have hstop : Stops .lowest s3 := stops_of_none (by rw [hp.current, semi.2]; rfl)
      have he := expr_reads_iff.mpr ⟨⟨d, rfl, rfl⟩, h3, hstop⟩
      refine Reads.accept_bind eq (by decide) h4 ?_
      exact (reads_map.mpr ⟨_, rfl, he⟩).bind (hend _)

theorem forInitial_reads_iff {v : Option Stmt} : Reads (forInitial .standard) s ts v t ↔
    (∃ d : HeaderTree, d.tokens = ts ∧ d.stmt = v) ∧ s.Past ts t := by
  constructor
  · intro h
    have hp := h.past
    obtain ⟨semi, s1, vs, rfl, -, h1⟩ | ⟨-, h1⟩ := h.of_accept (by decide) inferInstance
    · obtain ⟨rfl, rfl, -⟩ := reads_pure.mp h1
      exact ⟨⟨.absent semi, rfl, rfl⟩, hp⟩
    · rcases reads_ite.mp (reads_current_bind.mp h1) with ⟨-, h2⟩ | ⟨-, h2⟩
      · obtain ⟨y, s1, us, vs, rfl, h3, h4⟩ := reads_bind.mp h2
        obtain ⟨⟨d, rfl, rfl⟩, -⟩ := variableDecl_reads_iff.mp h3
        obtain ⟨rfl, rfl, -⟩ := reads_pure.mp h4
        exact ⟨⟨.var d, (List.append_nil _).symm, rfl⟩, hp⟩
      · obtain ⟨y, s1, us, vs, rfl, h3, h4⟩ := reads_bind.mp h2
        obtain ⟨⟨e, semi, rfl, rfl⟩, -⟩ := expressionStmt_reads_iff.mp h3
        obtain ⟨rfl, rfl, -⟩ := reads_pure.mp h4
        exact ⟨⟨.expr e semi, (List.append_nil _).symm, rfl⟩, hp⟩
  · rintro ⟨⟨d, rfl, rfl⟩, hp⟩
    cases d with
    | absent semi =>
      exact Reads.accept_bind semi (by decide) hp (reads_pure.mpr ⟨rfl, rfl, hp.here⟩)
    | var v =>
      have hty : s.stream.current.kind.isType = true := by
        rw [hp.current]; exact v.type.declares.1
      refine Reads.reject_bind (by decide) (fun hk => ?_) (reads_current_bind.mpr ?_)
      · rw [hk] at hty
        cases hty
      · rw [if_pos hty]
        exact (variableDecl_reads_iff.mpr ⟨⟨v, rfl, rfl⟩, hp⟩).bind_pure
    | expr e semi =>
      obtain ⟨y, ys, f, hy, hf⟩ := e.begins
      obtain ⟨-, hty, -, -, -, hsemi, -⟩ := begins_of_operand hf
      have hp' : s.Past (y :: (ys ++ [semi.1])) t := by
        rw [← List.cons_append, ← hy]; exact hp
      refine Reads.reject_bind (by decide) (by rwa [hp'.current]) (reads_current_bind.mpr ?_)
      rw [if_neg (by rw [hp'.current, hty]; decide)]
      exact (expressionStmt_reads_iff.mpr ⟨⟨e, semi, rfl, rfl⟩, hp⟩).bind_pure

theorem parameter_reads_iff {p : Parameter} : Reads Parse.parameter s ts p t ↔
    (∃ d : ParameterTree, d.tokens = ts ∧ d.parameter = p) ∧ s.Past ts t := by
  constructor
  · intro h
    have hp := h.past
    obtain ⟨ty, s1, us, vs, rfl, hty, h1⟩ := reads_bind.mp h
    obtain ⟨w, hw, rfl, -⟩ := reads_type.mp hty
    obtain ⟨name, s2, vs, rfl, -, h2⟩ := h1.of_expect (by decide) inferInstance
    obtain ⟨rfl, rfl, -⟩ := reads_pure.mp h2
    exact ⟨⟨⟨⟨w, ty, hw⟩, name⟩, rfl, rfl⟩, hp⟩
  · rintro ⟨⟨d, rfl, rfl⟩, hp⟩
    obtain ⟨s1, h1, h2⟩ := past_cons.mp hp
    refine Reads.bind (reads_type.mpr ⟨d.type.token, d.type.named, rfl, h1⟩) ?_
    exact Reads.expect_bind d.name (by decide) h2 (reads_pure.mpr ⟨rfl, rfl, h2.here⟩)

theorem parameters_sound : ∀ (j : Nat) {s t : ParseState} {ts : List Token} {ps : List Parameter},
    Reads (Parse.parameters j) s ts ps t → ∃ d : ParameterTrees, d.tokens = ts ∧ d.parameters = ps
  | 0, s, t, ts, ps, h => by
    obtain ⟨p, s1, us, vs, rfl, h1, h2⟩ := reads_bind.mp h
    obtain ⟨⟨d, rfl, rfl⟩, -⟩ := parameter_reads_iff.mp h1
    obtain ⟨rfl, rfl, -⟩ := reads_pure.mp h2
    exact ⟨.one d, (List.append_nil _).symm, rfl⟩
  | j + 1, s, t, ts, ps, h => by
    obtain ⟨p, s1, us, vs, rfl, h1, h2⟩ := reads_bind.mp h
    obtain ⟨⟨d, rfl, rfl⟩, -⟩ := parameter_reads_iff.mp h1
    obtain ⟨comma, s2, vs, rfl, hc, h3⟩ | ⟨-, h3⟩ := h2.of_accept (by decide) inferInstance
    · obtain ⟨qs, s3, us, vs, rfl, h4, h5⟩ := reads_bind.mp h3
      obtain ⟨rest, rfl, rfl⟩ := parameters_sound j h4
      obtain ⟨rfl, rfl, -⟩ := reads_pure.mp h5
      exact ⟨.more d comma rest, by rw [ParameterTrees.tokens, List.append_nil], rfl⟩
    · obtain ⟨rfl, rfl, -⟩ := reads_pure.mp h3
      exact ⟨.one d, (List.append_nil _).symm, rfl⟩

theorem ParameterTrees.reads : ∀ (d : ParameterTrees) {j : Nat} {s : ParseState},
    s.stream.remaining ≤ j → s.Past d.tokens t → t.stream.current.kind = .closeParen →
      Reads (Parse.parameters j) s d.tokens d.parameters t
  | .one p, j, s, hj, hp, ht => by
    have h1 := parameter_reads_iff.mpr ⟨⟨p, rfl, rfl⟩, hp⟩
    cases j with
    | zero => exact h1.bind_pure
    | succ j =>
      exact h1.bind_reject (by decide) (by rw [ht]; decide) (reads_pure.mpr ⟨rfl, rfl, hp.here⟩)
  | .more p comma rest, j, s, hj, hp, ht => by
    obtain ⟨s1, h1, hp⟩ := past_append.mp hp
    obtain ⟨s2, h2, hp⟩ := past_cons.mp hp
    have hrem1 := h1.remaining
    have hrem2 := h2.remaining_one
    cases j with
    | zero => omega
    | succ j =>
      have hrest := ParameterTrees.reads rest (j := j) (by omega) hp ht
      exact (parameter_reads_iff.mpr ⟨⟨p, rfl, rfl⟩, h1⟩).bind
        (Reads.accept_bind comma (by decide) h2 hrest.bind_pure)

theorem ParameterTrees.begins (d : ParameterTrees) : ∃ x xs, d.tokens = x :: xs ∧
    x.kind ≠ .closeParen := by
  have htype : ∀ w : TypeWord, w.token.kind ≠ .closeParen := by
    intro w hk
    have hw := w.declares.1
    rw [hk] at hw
    cases hw
  cases d with
  | one p => exact ⟨_, _, rfl, htype p.type⟩
  | more p comma rest => exact ⟨_, _, rfl, htype p.type⟩

/-- Optional parameters and the parenthesis that closes them are read. -/
theorem Parse.Reads.parameters_bind {expected : String} {f : List Parameter → Parse α}
    (d : Option ParameterTrees) (r : Word .closeParen)
    (hp : s.Past (d.elim [] ParameterTrees.tokens) t) {s' : ParseState} (hr : t.Past [r.1] s')
    (h : Reads (f (d.elim [] ParameterTrees.parameters)) s' vs b u) :
    Reads (current >>= fun c => if c.kind = .closeParen then
        pure [] >>= fun ps => expect .closeParen expected >>= fun _ => f ps
      else remaining >>= fun j => Parse.parameters j >>= fun ps =>
        expect .closeParen expected >>= fun _ => f ps) s
      (d.elim [] ParameterTrees.tokens ++ r.1 :: vs) b u := by
  have hend : Reads (expect .closeParen expected >>= fun _ =>
      f (d.elim [] ParameterTrees.parameters)) t (r.1 :: vs) b u :=
    Reads.expect_bind r (by decide) hr h
  rw [reads_current_bind]
  cases d with
  | none =>
    obtain ⟨-, rfl⟩ := past_nil.mp hp
    rw [if_pos (by rw [hr.current, r.2])]
    exact reads_pure_bind.mpr hend
  | some d =>
    obtain ⟨y, ys, hy, hne⟩ := d.begins
    have hp' : s.Past (y :: ys) t := hy ▸ hp
    rw [if_neg (by rwa [hp'.current]), reads_remaining_bind]
    exact (d.reads le_rfl hp (by rw [hr.current, r.2])).bind hend

theorem Parse.Reads.of_parameters_bind {expected : String} {f : List Parameter → Parse α}
    (hf : ∀ ps, Steady (f ps))
    (h : Reads (current >>= fun c => if c.kind = .closeParen then
        pure [] >>= fun ps => expect .closeParen expected >>= fun _ => f ps
      else remaining >>= fun j => Parse.parameters j >>= fun ps =>
        expect .closeParen expected >>= fun _ => f ps) s ts b u) :
    ∃ (d : Option ParameterTrees) (r : Word .closeParen) (t : ParseState) (vs : List Token),
      ts = d.elim [] ParameterTrees.tokens ++ r.1 :: vs ∧
        t.stream.remaining ≤ s.stream.remaining ∧
        Reads (f (d.elim [] ParameterTrees.parameters)) t vs b u := by
  rw [reads_current_bind, reads_ite] at h
  obtain ⟨-, h⟩ | ⟨-, h⟩ := h
  · obtain ⟨r, s1, vs, rfl, hr, h1⟩ := (reads_pure_bind.mp h).of_expect (by decide) fun _ => hf _
    have hrem := hr.remaining
    exact ⟨none, r, s1, vs, rfl, by omega, h1⟩
  · obtain ⟨ps, s1, us, vs, rfl, h1, h2⟩ := reads_bind.mp (reads_remaining_bind.mp h)
    have hrem := h1.past.remaining
    obtain ⟨d, rfl, rfl⟩ := parameters_sound _ h1
    obtain ⟨r, s2, vs, rfl, hr, h3⟩ := h2.of_expect (by decide) fun _ => hf _
    have hrem' := hr.remaining
    exact ⟨some d, r, s2, vs, rfl, by omega, h3⟩

end StackListing
