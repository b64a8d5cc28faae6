import StackListing.Proofs.Grammar.SimpleStmtReading

/-!
# The statement parser reads derivation trees

Given that the step for the statements inside is right, each rule with statements inside reads
exactly the tokens that its trees derive; `stmtWithin_reads_iff` puts all rules together, by
induction on the number of tokens, and `program_reads_iff` says the same of programs.

What follows a statement matters in one place: behind an `if` without `else` no `else` may come
next.  No statement begins with `else`, so sequences of statements never run into this.
-/

namespace StackListing

open Parse ParseState

variable {n : Nat} {s t : ParseState} {ts : List Token} {x : Stmt}

/-! ### Sequences of statements -/

/-- Whether an `else` behind a statement would belong to an `if` inside it. -/
def StmtTree.dangles : StmtTree → Bool
  | .body (o := o) _ => o
  | _ => false

/-- **The step reads statements of at most `n` tokens as trees,** up to a token that does not
continue them. -/
def ReadsStmts (step : Parse Stmt) (n : Nat) : Prop :=
  ∀ {s t : ParseState} {ts : List Token} {x : Stmt}, s.stream.remaining ≤ n →
    (Reads step s ts x t ↔ (∃ d : StmtTree, d.tokens = ts ∧ d.stmt = x ∧
      (d.dangles = true → t.stream.current.kind ≠ .elseWord)) ∧ s.Past ts t)

theorem reads_recover {step : Parse Stmt} [Steady step] {v : Option Stmt} :
    Reads (recover step) s ts v t ↔ ∃ x, v = some x ∧ Reads step s ts x t := by
  constructor
  · rintro ⟨hr, hp⟩
    unfold recover at hr
    have hs := Steady.leads (p := step) s
    cases h : step s with
    | ok x t' =>
      simp only [h] at hr
      injection hr with hv ht
      subst hv ht
      exact ⟨x, rfl, h, hp⟩
    | error d t' =>
      rw [h] at hs
      simp only [h] at hr
      injection hr with hv ht
      obtain ⟨ds, hd⟩ := hs.errors
      have he := hp.errors
      rw [← ht, show t'.errors = s.errors ++ ds from hd] at he
      simp at he
  · rintro ⟨x, rfl, hr, hp⟩
    exact ⟨by unfold recover; rw [hr], hp⟩

/-- Where a sequence of statements may end: at the end, or at a token that stops it. -/
def Ends (stops : Kind → Bool) (s : ParseState) : Prop :=
  s.stream.ahead = [] ∨ stops s.stream.current.kind = true

theorem ends_iff {stops : Kind → Bool} :
    (s.stream.atEnd || stops s.stream.current.kind) = true ↔ Ends stops s := by
  simp [Ends, TokenStream.atEnd]

section Sequences

variable {step : Parse Stmt} {stops : Kind → Bool} {xs : List Stmt}

theorem reads_statements_of_ends {j : Nat} (hs : Ends stops s) :
    Reads (statements stops step j) s ts xs t ↔ Reads (pure [] : Parse (List Stmt)) s ts xs t := by
  cases j with
  | zero => rfl
  | succ j =>
    unfold statements
    rw [reads_get_bind, reads_current_bind, if_pos (ends_iff.mpr hs)]

theorem reads_statements_succ [Steady step] {j : Nat} (hs : ¬ Ends stops s) :
    Reads (statements stops step (j + 1)) s ts xs t ↔ ∃ x us vs ys s1, ts = us ++ vs ∧
      xs = x :: ys ∧ Reads step s us x s1 ∧ Reads (statements stops step j) s1 vs ys t := by
  conv_lhs => unfold statements
  rw [reads_get_bind, reads_current_bind, if_neg (mt ends_iff.mp hs)]
  constructor
  · intro h
    obtain ⟨v, s1, us, vs, rfl, h1, h2⟩ := h.of_bind fun v => by split <;> infer_instance
    obtain ⟨x, rfl, hx⟩ := reads_recover.mp h1
    obtain ⟨ys, s2, vs, vs', rfl, h3, h4⟩ := reads_bind.mp h2
    obtain ⟨rfl, rfl, hp⟩ := reads_pure.mp h4
    obtain ⟨-, rfl⟩ := past_nil.mp hp
    exact ⟨x, us, vs, ys, s1, by rw [List.append_nil], rfl, hx, h3⟩
  · rintro ⟨x, us, vs, ys, s1, rfl, rfl, h1, h2⟩
    exact (reads_recover.mpr ⟨x, rfl, h1⟩).bind h2.bind_pure

variable (hstops : ∀ k, stops k = true → k = .closeCurly)

include hstops

theorem StmtTree.not_ends (d : StmtTree) (hp : s.Past (d.tokens ++ vs) t) : ¬ Ends stops s := by
  obtain ⟨x, xs, hx, -, hclose⟩ := d.begins
  rw [hx] at hp
  rintro (hs | hs)
  · rw [hp.ahead] at hs
    cases hs
  · rw [hp.current] at hs
    exact hclose (hstops _ hs)

/-- No `else` comes before statements. -/
theorem StmtTrees.ne_else (d : StmtTrees) (hp : s.Past d.tokens t) (ht : Ends stops t) :
    s.stream.current.kind ≠ .elseWord := by
  cases d with
  | nil =>
    obtain ⟨hclosed, rfl⟩ := past_nil.mp hp
    intro hk
    rcases ht with ht | ht
    · rw [TokenStream.current, ht, List.headD_nil, hclosed] at hk
      cases hk
    · rw [hk] at ht
      cases hstops _ ht
  | cons d rest =>
    obtain ⟨x, xs, hx, helse, -⟩ := d.begins
    rw [tokens, hx] at hp
    rwa [hp.current]

theorem statements_of_ends {j : Nat} (hs : Ends stops s) :
    Reads (statements stops step j) s ts xs t ↔
      (∃ d : StmtTrees, d.tokens = ts ∧ d.stmts = xs) ∧ s.Past ts t ∧ Ends stops t := by
  rw [reads_statements_of_ends hs, reads_pure]
  constructor
  · rintro ⟨rfl, rfl, hp⟩
    obtain ⟨-, rfl⟩ := past_nil.mp hp
    exact ⟨⟨.nil, rfl, rfl⟩, hp, hs⟩
  · rintro ⟨⟨d, rfl, rfl⟩, hp, -⟩
    cases d with
    | nil => exact ⟨rfl, rfl, hp⟩
    | cons d rest => exact absurd hs (d.not_ends hstops hp)

/-- **Statements are read as trees one after the other,** up to a place where they may end. -/
theorem statements_reads_iff [Steady step] (ih : ReadsStmts step n) :
    ∀ (j : Nat) {s : ParseState} {ts : List Token} {xs : List Stmt}, s.stream.remaining ≤ n →
      s.stream.remaining ≤ j → (Reads (statements stops step j) s ts xs t ↔
        (∃ d : StmtTrees, d.tokens = ts ∧ d.stmts = xs) ∧ s.Past ts t ∧ Ends stops t) := by
  intro j
  induction j with
  | zero =>
    intro s ts xs hn hj
    have hs : Ends stops s := .inl (List.length_eq_zero_iff.mp (Nat.le_zero.mp hj))
    exact statements_of_ends hstops hs
  | succ j ihj =>
    intro s ts xs hn hj
    by_cases hs : Ends stops s
    · exact statements_of_ends hstops hs
    rw [reads_statements_succ hs]
    constructor
    · rintro ⟨x, us, vs, ys, s1, rfl, rfl, h1, h2⟩
      obtain ⟨⟨d, rfl, rfl, -⟩, hp⟩ := (ih hn).mp h1
      have hpos := d.tokens_pos
      have hrem := hp.remaining
      obtain ⟨⟨rest, rfl, rfl⟩, hp', ht⟩ := (ihj (by omega) (by omega)).mp h2
      exact ⟨⟨.cons d rest, rfl, rfl⟩, hp.trans hp', ht⟩
    · rintro ⟨⟨d, rfl, rfl⟩, hp, ht⟩
      cases d with
      | nil =>
        obtain ⟨-, rfl⟩ := past_nil.mp hp
        exact absurd ht hs
      | cons d rest =>
        obtain ⟨s1, h1, h2⟩ := past_append.mp hp
        have hpos := d.tokens_pos
        have hrem := h1.remaining
        refine ⟨d.stmt, d.tokens, rest.tokens, rest.stmts, s1, rfl, rfl, ?_, ?_⟩
        · exact (ih hn).mpr ⟨⟨d, rfl, rfl, fun _ => rest.ne_else hstops h2 ht⟩, h1⟩
        · exact (ihj (by omega) (by omega)).mpr ⟨⟨rest, rfl, rfl⟩, h2, ht⟩

end Sequences

/-! ### The rules with statements inside -/

section Rules

variable {step : Parse Stmt}

theorem bodyStmt_reads_iff (ih : ReadsStmts step n) (hn : s.stream.remaining ≤ n) :
    Reads (bodyStmt .standard step) s ts x t ↔
      (∃ (o : Bool) (d : BodyTree o), d.tokens = ts ∧ d.stmt = x ∧
        (o = true → t.stream.current.kind ≠ .elseWord)) ∧ s.Past ts t := by
  unfold bodyStmt
  rw [reads_current_bind]
  constructor
  · intro h
    rcases reads_ite.mp h with ⟨hty, h⟩ | ⟨hty, h⟩
    · -- a type keyword begins no expression
      obtain ⟨⟨e, semi, rfl, rfl⟩, hp⟩ := expressionStmt_reads_iff.mp h
      obtain ⟨y, ys, hy, hty', -⟩ := (BodyTree.expr e semi).begins
      rw [hy] at hp
      rw [hp.current, hty'] at hty
      cases hty
    · obtain ⟨⟨d, rfl, rfl, helse⟩, hp⟩ := (ih hn).mp h
      cases d with
      | body d => exact ⟨⟨_, d, rfl, rfl, helse⟩, hp⟩
      | var v => exact absurd (by rw [hp.current]; exact v.type.declares.1) hty
      | function type name l parameters r lb body rb =>
        exact absurd (by rw [hp.current]; exact type.declares.1) hty
  · rintro ⟨⟨o, d, rfl, rfl, helse⟩, hp⟩
    obtain ⟨y, ys, hy, hty, -⟩ := d.begins
    have hp' : s.Past (y :: ys) t := hy ▸ hp
    rw [if_neg (by rw [hp'.current, hty]; decide)]
    exact (ih hn).mpr ⟨⟨.body d, rfl, rfl, helse⟩, hp⟩

theorem ifOnly_reads (ih : ReadsStmts step n) (hn : s.stream.remaining ≤ n + 1) {o : Bool}
    (kw : Word .ifWord) (l : Word .openParen) (c : ExprTree .assignment) (r : Word .closeParen)
    (yes : BodyTree o) (hp : s.Past (BodyTree.ifOnly kw l c r yes).tokens t)
    (helse : t.stream.current.kind ≠ .elseWord) :
    Reads (Parse.branch .standard step) s (BodyTree.ifOnly kw l c r yes).tokens
      (BodyTree.ifOnly kw l c r yes).stmt t := by
  obtain ⟨s1, h1, hp⟩ := past_cons.mp hp
  have hrem1 := h1.remaining_one
  refine Reads.advance_bind h1 (Reads.condition_bind l c r hp fun s2 h2 hrem => ?_)
  have hyes := (bodyStmt_reads_iff ih (show s2.stream.remaining ≤ n by omega)).mpr
    ⟨⟨o, yes, rfl, rfl, fun _ => helse⟩, h2⟩
  exact hyes.bind_reject (by decide) helse (reads_pure.mpr ⟨rfl, rfl, h2.here⟩)

theorem ifElse_reads (ih : ReadsStmts step n) (hn : s.stream.remaining ≤ n + 1) {o : Bool}
    (kw : Word .ifWord) (l : Word .openParen) (c : ExprTree .assignment) (r : Word .closeParen)
    (yes : BodyTree false) (kw' : Word .elseWord) (no : BodyTree o)
    (hp : s.Past (BodyTree.ifElse kw l c r yes kw' no).tokens t)
    (helse : o = true → t.stream.current.kind ≠ .elseWord) :
    Reads (Parse.branch .standard step) s (BodyTree.ifElse kw l c r yes kw' no).tokens
      (BodyTree.ifElse kw l c r yes kw' no).stmt t := by
  obtain ⟨s1, h1, hp⟩ := past_cons.mp hp
  have hrem1 := h1.remaining_one
  refine Reads.advance_bind h1 (Reads.condition_bind l c r hp fun s2 h2 hrem => ?_)
  obtain ⟨s3, h3, hp⟩ := past_append.mp h2
  obtain ⟨s4, h4, hp⟩ := past_cons.mp hp
  have hrem2 := h3.remaining
  have hrem3 := h4.remaining_one
  have hyes := (bodyStmt_reads_iff ih (show s2.stream.remaining ≤ n by omega)).mpr
    ⟨⟨false, yes, rfl, rfl, nofun⟩, h3⟩
  have hno := (bodyStmt_reads_iff ih (show s4.stream.remaining ≤ n by omega)).mpr
    ⟨⟨o, no, rfl, rfl, helse⟩, hp⟩
  refine hyes.bind (Reads.accept_bind kw' (by decide) h4 ?_)
  exact (reads_map.mpr ⟨_, rfl, hno⟩).bind_pure

variable [Steady step]

theorem blockBody_reads_iff (ih : ReadsStmts step n) (hn : s.stream.remaining ≤ n)
    {xs : List Stmt} : Reads (blockBody step) s ts xs t ↔
      (∃ (d : StmtTrees) (r : Word .closeCurly), d.tokens ++ [r.1] = ts ∧ d.stmts = xs) ∧
        s.Past ts t := by
  have hstops : ∀ k : Kind, decide (k = .closeCurly) = true → k = .closeCurly := fun _ =>
    of_decide_eq_true
  unfold blockBody
  rw [reads_remaining_bind]
  constructor
  · intro h
    have hp := h.past
    obtain ⟨ys, s1, us, vs, rfl, h1, h2⟩ := reads_bind.mp h
    obtain ⟨⟨d, rfl, rfl⟩, -, -⟩ := (statements_reads_iff hstops ih _ hn le_rfl).mp h1
    obtain ⟨r, s2, vs, rfl, -, h3⟩ := h2.of_expect (by decide) inferInstance
    obtain ⟨rfl, rfl, -⟩ := reads_pure.mp h3
    exact ⟨⟨d, r, rfl, rfl⟩, hp⟩
  · rintro ⟨⟨d, r, rfl, rfl⟩, hp⟩
    obtain ⟨s1, h1, h2⟩ := past_append.mp hp
    have hends : Ends (fun k => decide (k = .closeCurly)) s1 := by
      refine .inr (decide_eq_true ?_)
      rw [h2.current, r.2]
    refine Reads.bind ((statements_reads_iff hstops ih _ hn le_rfl).mpr
      ⟨⟨d, rfl, rfl⟩, h1, hends⟩) ?_
    exact Reads.expect_bind r (by decide) h2 (reads_pure.mpr ⟨rfl, rfl, h2.here⟩)

theorem block_reads_iff (ih : ReadsStmts step n) (hn : s.stream.remaining ≤ n + 1)
    (hs : s.stream.current.kind = .openCurly) : Reads (Parse.block step) s ts x t ↔
      (∃ l body r, (BodyTree.block l body r).tokens = ts ∧ (BodyTree.block l body r).stmt = x) ∧
        s.Past ts t := by
  constructor
  · intro h
    have hp := h.past
    obtain ⟨l, s1, vs, rfl, hl, h1, h2⟩ := h.of_advance (by rw [hs]; decide) inferInstance
    have hrem := h1.remaining_one
    obtain ⟨ys, s2, us, vs, rfl, h3, h4⟩ := reads_bind.mp h2
    obtain ⟨⟨d, r, rfl, rfl⟩, -⟩ := (blockBody_reads_iff ih (by omega)).mp h3
    obtain ⟨rfl, rfl, -⟩ := reads_pure.mp h4
    rw [List.append_nil] at hp ⊢
    exact ⟨⟨⟨l, by rw [hl, hs]⟩, d, r, rfl, rfl⟩, hp⟩
  · rintro ⟨⟨l, body, r, rfl, rfl⟩, hp⟩
    obtain ⟨s1, h1, h2⟩ := past_cons.mp hp
    have hrem := h1.remaining_one
    exact Reads.advance_bind h1
      ((blockBody_reads_iff ih (by omega)).mpr ⟨⟨body, r, rfl, rfl⟩, h2⟩).bind_pure

theorem whileLoop_reads_iff (ih : ReadsStmts step n) (hn : s.stream.remaining ≤ n + 1)
    (hs : s.stream.current.kind = .whileWord) : Reads (Parse.whileLoop .standard step) s ts x t ↔
      (∃ (o : Bool) (kw : Word .whileWord) (l : Word .openParen) (c : ExprTree .assignment)
        (r : Word .closeParen) (body : BodyTree o),
        (BodyTree.whileLoop kw l c r body).tokens = ts ∧
        (BodyTree.whileLoop kw l c r body).stmt = x ∧
        (o = true → t.stream.current.kind ≠ .elseWord)) ∧ s.Past ts t := by
  constructor
  · intro h
    have hp := h.past
    obtain ⟨kw, s1, vs, rfl, hkw, h1, h2⟩ := h.of_advance (by rw [hs]; decide) inferInstance
    obtain ⟨l, c, r, s2, vs, rfl, hrem, h3⟩ := h2.of_condition_bind inferInstance
    have hrem1 := h1.remaining_one
    obtain ⟨y, s3, us, vs, rfl, h4, h5⟩ := reads_bind.mp h3
    obtain ⟨⟨o, body, rfl, rfl, helse⟩, -⟩ := (bodyStmt_reads_iff ih (by omega)).mp h4
    obtain ⟨rfl, rfl, hp'⟩ := reads_pure.mp h5
    obtain ⟨-, rfl⟩ := past_nil.mp hp'
    rw [List.append_nil] at hp ⊢
    exact ⟨⟨o, ⟨kw, by rw [hkw, hs]⟩, l, c, r, body, rfl, rfl, helse⟩, hp⟩
  · rintro ⟨⟨o, kw, l, c, r, body, rfl, rfl, helse⟩, hp⟩
    obtain ⟨s1, h1, hp⟩ := past_cons.mp hp
    have hrem1 := h1.remaining_one
    refine Reads.advance_bind h1 (Reads.condition_bind l c r hp fun s2 h2 hrem => ?_)
    exact ((bodyStmt_reads_iff ih (by omega)).mpr ⟨⟨o, body, rfl, rfl, helse⟩, h2⟩).bind_pure

theorem branch_sound (ih : ReadsStmts step n) (hn : s.stream.remaining ≤ n + 1)
    (hs : s.stream.current.kind = .ifWord) (h : Reads (Parse.branch .standard step) s ts x t) :
    ∃ (o : Bool) (d : BodyTree o), d.tokens = ts ∧ d.stmt = x ∧
      (o = true → t.stream.current.kind ≠ .elseWord) := by
  obtain ⟨kw, s1, vs, rfl, hkw, h1, h2⟩ := h.of_advance (by rw [hs]; decide) fun t =>
    Steady.bind inferInstance fun _ => inferInstance
  obtain ⟨l, c, r, s2, vs, rfl, hrem, h3⟩ := h2.of_condition_bind inferInstance
  have hrem1 := h1.remaining_one
  obtain ⟨y, s3, us, vs, rfl, h4, h5⟩ := reads_bind.mp h3
  obtain ⟨⟨o, yes, rfl, rfl, helse⟩, hyes⟩ := (bodyStmt_reads_iff ih (by omega)).mp h4
  have hrem2 := hyes.remaining
  obtain ⟨kw', s4, vs, rfl, hkw', h6⟩ | ⟨hne, h6⟩ := h5.of_accept (by decide) inferInstance
  · have hrem3 := hkw'.remaining_one
    obtain ⟨v, s5, us, vs, rfl, h7, h8⟩ := reads_bind.mp h6
    obtain ⟨y, rfl, h9⟩ := reads_map.mp h7
    obtain ⟨⟨o', no, rfl, rfl, helse'⟩, -⟩ := (bodyStmt_reads_iff ih (by omega)).mp h9
    obtain ⟨rfl, rfl, hp⟩ := reads_pure.mp h8
    obtain ⟨-, rfl⟩ := past_nil.mp hp
    cases o with
    | true => exact absurd (by rw [hkw'.current]; exact kw'.2) (helse rfl)
    | false =>
      refine ⟨o', .ifElse ⟨kw, by rw [hkw, hs]⟩ l c r yes kw' no, ?_, rfl, helse'⟩
      rw [BodyTree.tokens, List.append_nil]
  · obtain ⟨rfl, rfl, hp⟩ := reads_pure.mp (reads_pure_bind.mp h6)
    obtain ⟨-, rfl⟩ := past_nil.mp hp
    refine ⟨true, .ifOnly ⟨kw, by rw [hkw, hs]⟩ l c r yes, ?_, rfl, fun _ => hne⟩
    rw [BodyTree.tokens, List.append_nil]

theorem forLoop_reads_iff (ih : ReadsStmts step n) (hn : s.stream.remaining ≤ n + 1)
    (hs : s.stream.current.kind = .forWord) : Reads (Parse.forLoop .standard step) s ts x t ↔
      (∃ (o : Bool) (kw : Word .forWord) (l : Word .openParen) (initial : HeaderTree)
        (c : OptionTree) (semi : Word .semicolon) (i : OptionTree) (r : Word .closeParen)
        (body : BodyTree o), (BodyTree.forLoop kw l initial c semi i r body).tokens = ts ∧
        (BodyTree.forLoop kw l initial c semi i r body).stmt = x ∧
        (o = true → t.stream.current.kind ≠ .elseWord)) ∧ s.Past ts t := by
  constructor
  · intro h
    have hp := h.past
    obtain ⟨kw, s1, vs, rfl, hkw, h1, h2⟩ := h.of_advance (by rw [hs]; decide) inferInstance
    obtain ⟨l, s2, vs, rfl, hl, h3⟩ := h2.of_expect (by decide) inferInstance
    obtain ⟨v, s3, us, vs, rfl, h4, h5⟩ := reads_bind.mp h3
    obtain ⟨⟨initial, rfl, rfl⟩, hi⟩ := forInitial_reads_iff.mp h4
    obtain ⟨c, semi, s4, vs, rfl, hc, h6⟩ := h5.of_exprUnless_bind (by decide) inferInstance
    obtain ⟨i, r, s5, vs, rfl, hr, h7⟩ := h6.of_exprUnless_bind (by decide) inferInstance
    have hrem1 := h1.remaining_one
    have hrem2 := hl.remaining_one
    have hrem3 := hi.remaining
    have hrem4 := hc.remaining
    have hrem5 := hr.remaining
    obtain ⟨y, s6, us, vs, rfl, h8, h9⟩ := reads_bind.mp h7
    obtain ⟨⟨o, body, rfl, rfl, helse⟩, -⟩ := (bodyStmt_reads_iff ih (by omega)).mp h8
    obtain ⟨rfl, rfl, hp'⟩ := reads_pure.mp h9
    obtain ⟨-, rfl⟩ := past_nil.mp hp'
    rw [List.append_nil] at hp ⊢
    exact ⟨⟨o, ⟨kw, by rw [hkw, hs]⟩, l, initial, c, semi, i, r, body, rfl, rfl, helse⟩, hp⟩
  · rintro ⟨⟨o, kw, l, initial, c, semi, i, r, body, rfl, rfl, helse⟩, hp⟩
    obtain ⟨s1, h1, hp⟩ := past_cons.mp hp
    obtain ⟨s2, h2, hp⟩ := past_cons.mp hp
    obtain ⟨s3, h3, hp⟩ := past_append.mp hp
    obtain ⟨s4, h4, hp⟩ := past_append.mp hp
    obtain ⟨s5, h5, hp⟩ := past_cons.mp hp
    obtain ⟨s6, h6, hp⟩ := past_append.mp hp
    obtain ⟨s7, h7, hp⟩ := past_cons.mp hp
    have hrem1 := h1.remaining_one
    have hrem2 := h2.remaining
    have hrem3 := h3.remaining
    have hrem4 := (h4.trans h5).remaining
    have hrem5 := (h6.trans h7).remaining
    have hbody := (bodyStmt_reads_iff ih (show s7.stream.remaining ≤ n by omega)).mpr
      ⟨⟨o, body, rfl, rfl, helse⟩, hp⟩
    refine Reads.advance_bind h1 (Reads.expect_bind l (by decide) h2 ?_)
    refine (forInitial_reads_iff.mpr ⟨⟨initial, rfl, rfl⟩, h3⟩).bind ?_
    refine Reads.exprUnless_bind c semi (.inl rfl) (h4.trans h5) ?_
    exact Reads.exprUnless_bind i r (.inr rfl) (h6.trans h7) hbody.bind_pure

theorem functionDecl_reads_iff (ih : ReadsStmts step n) (hn : s.stream.remaining ≤ n + 1) :
    Reads (Parse.functionDecl step) s ts x t ↔
      (∃ type name l parameters r lb body rb,
        (StmtTree.function type name l parameters r lb body rb).tokens = ts ∧
        (StmtTree.function type name l parameters r lb body rb).stmt = x) ∧ s.Past ts t := by
  constructor
  · intro h
    have hp := h.past
    obtain ⟨ty, s1, us, vs, rfl, hty, h1⟩ := h.of_bind fun _ => Steady.bind inferInstance fun _ =>
      Steady.bind inferInstance fun _ => Steady.bind inferInstance fun _ => inferInstance
    obtain ⟨w, hw, rfl, hw'⟩ := reads_type.mp hty
    obtain ⟨name, s2, vs, rfl, hname, h2⟩ := h1.of_expect (by decide) fun _ =>
      Steady.bind inferInstance fun _ => Steady.bind inferInstance fun _ => inferInstance
    obtain ⟨l, s3, vs, rfl, hl, h3⟩ := h2.of_expect (by decide) fun _ =>
      Steady.bind inferInstance fun _ => inferInstance
    obtain ⟨d, r, s4, vs, rfl, hrem, h4⟩ := Reads.of_parameters_bind inferInstance h3
    obtain ⟨lb, s5, vs, rfl, hlb, h5⟩ := h4.of_expect (by decide) inferInstance
    have hrem1 := hw'.remaining_one
    have hrem2 := hname.remaining_one
    have hrem3 := hl.remaining_one
    have hrem4 := hlb.remaining_one
    obtain ⟨ys, s6, us, vs, rfl, h6, h7⟩ := reads_bind.mp h5
    obtain ⟨⟨body, rb, rfl, rfl⟩, -⟩ := (blockBody_reads_iff ih (by omega)).mp h6
    obtain ⟨rfl, rfl, -⟩ := reads_pure.mp h7
    rw [List.append_nil] at hp ⊢
    exact ⟨⟨⟨w, ty, hw⟩, name, l, d, r, lb, body, rb, rfl, rfl⟩, hp⟩
  · rintro ⟨⟨type, name, l, d, r, lb, body, rb, rfl, rfl⟩, hp⟩
    obtain ⟨s1, h1, hp⟩ := past_cons.mp hp
    obtain ⟨s2, h2, hp⟩ := past_cons.mp hp
    obtain ⟨s3, h3, hp⟩ := past_cons.mp hp
    obtain ⟨s4, h4, hp⟩ := past_append.mp hp
    obtain ⟨s5, h5, hp⟩ := past_cons.mp hp
    obtain ⟨s6, h6, hp⟩ := past_cons.mp hp
    have hrem1 := ((h1.trans h2).trans h3).remaining
    have hrem2 := ((h4.trans h5).trans h6).remaining
    have hbody := (blockBody_reads_iff ih (show s6.stream.remaining ≤ n by simp at *; omega)).mpr
      ⟨⟨body, rb, rfl, rfl⟩, hp⟩
    refine Reads.bind (reads_type.mpr ⟨type.token, type.named, rfl, h1⟩) ?_
    refine Reads.expect_bind name (by decide) h2 (Reads.expect_bind l (by decide) h3 ?_)
    refine Reads.parameters_bind d r h4 h5 (Reads.expect_bind lb (by decide) h6 ?_)
    exact hbody.bind_pure

theorem declarationStmt_reads_iff (ih : ReadsStmts step n) (hn : s.stream.remaining ≤ n + 1) :
    Reads (declarationStmt .standard step) s ts x t ↔
      ((∃ v, (StmtTree.var v).tokens = ts ∧ (StmtTree.var v).stmt = x) ∨
        ∃ type name l parameters r lb body rb,
          (StmtTree.function type name l parameters r lb body rb).tokens = ts ∧
          (StmtTree.function type name l parameters r lb body rb).stmt = x) ∧ s.Past ts t := by
  unfold declarationStmt
  rw [reads_peek_bind, reads_peek_bind]
  constructor
  · intro h
    rcases reads_ite.mp h with ⟨-, h⟩ | ⟨-, h⟩
    · obtain ⟨hd, hp⟩ := (functionDecl_reads_iff ih hn).mp h
      exact ⟨.inr hd, hp⟩
    · obtain ⟨hv, hp⟩ := variableDecl_reads_iff.mp h
      exact ⟨.inl hv, hp⟩
  · rintro ⟨⟨v, rfl, rfl⟩ | ⟨type, name, l, parameters, r, lb, body, rb, rfl, rfl⟩, hp⟩
    · have hpeek : (s.stream.peek 2).kind ≠ .openParen := by
        obtain ⟨type, name, initial, semi⟩ := v
        cases initial with
        | none =>
          rw [hp.peek (n := 2) (x := semi.1) rfl, semi.2]
          decide
        | some i =>
          rw [hp.peek (n := 2) (x := i.1.1) rfl, i.1.2]
          decide
      rw [if_neg (by simp [hpeek])]
      exact variableDecl_reads_iff.mpr ⟨⟨v, rfl, rfl⟩, hp⟩
    · rw [if_pos (by simp [hp.peek (n := 1) (x := name.1) rfl, hp.peek (n := 2) (x := l.1) rfl,
        name.2, l.2])]
      exact (functionDecl_reads_iff ih hn).mpr
        ⟨⟨type, name, l, parameters, r, lb, body, rb, rfl, rfl⟩, hp⟩

/-- A statement other than an expression is read as a tree by the rule of its first token. -/
theorem statement_sound (ih : ReadsStmts step n) (hn : s.stream.remaining ≤ n + 1)
    {form : StatementForm} (hf : Grammar.standard.statement? s.stream.current.kind = some form)
    (h : Reads (statement .standard step form) s ts x t) :
    ∃ d : StmtTree, d.tokens = ts ∧ d.stmt = x ∧
      (d.dangles = true → t.stream.current.kind ≠ .elseWord) := by
  have hk := begins_of_statement hf
  cases form with
  | declaration =>
    obtain ⟨⟨v, htok, hstmt⟩ | ⟨ty, name, l, ps, r, lb, body, rb, htok, hstmt⟩, -⟩ :=
      (declarationStmt_reads_iff ih hn).mp h
    · exact ⟨.var v, htok, hstmt, nofun⟩
    · exact ⟨.function ty name l ps r lb body rb, htok, hstmt, nofun⟩
  | branch =>
    obtain ⟨o, d, htok, hstmt, helse⟩ := branch_sound ih hn hk h
    exact ⟨.body d, htok, hstmt, helse⟩
  | whileLoop =>
    obtain ⟨⟨o, kw, l, c, r, body, htok, hstmt, helse⟩, -⟩ := (whileLoop_reads_iff ih hn hk).mp h
    exact ⟨.body (.whileLoop kw l c r body), htok, hstmt, helse⟩
  | forLoop =>
    obtain ⟨⟨o, kw, l, initial, c, semi, i, r, body, htok, hstmt, helse⟩, -⟩ :=
      (forLoop_reads_iff ih hn hk).mp h
    exact ⟨.body (.forLoop kw l initial c semi i r body), htok, hstmt, helse⟩
  | giveBack =>
    obtain ⟨⟨kw, value, semi, htok, hstmt⟩, -⟩ := (giveBack_reads_iff hk).mp h
    exact ⟨.body (.giveBack kw value semi), htok, hstmt, nofun⟩
  | print =>
    obtain ⟨⟨kw, l, e, r, semi, htok, hstmt⟩, -⟩ := (print_reads_iff hk).mp h
    exact ⟨.body (.print kw l e r semi), htok, hstmt, nofun⟩
  | block =>
    obtain ⟨⟨l, body, r, htok, hstmt⟩, -⟩ := (block_reads_iff ih hn hk).mp h
    exact ⟨.body (.block l body r), htok, hstmt, nofun⟩

end Rules

/-! ### Statements and programs -/

theorem reads_stmtWithin_some {f : StatementForm}
    (hf : Grammar.standard.statement? s.stream.current.kind = some f) :
    Reads (stmtWithin .standard (n + 1)) s ts x t ↔
      Reads (statement .standard (stmtWithin .standard n) f) s ts x t := by
  conv_lhs => unfold stmtWithin
  rw [reads_current_bind, hf]

theorem reads_stmtWithin_none (hf : Grammar.standard.statement? s.stream.current.kind = none) :
    Reads (stmtWithin .standard (n + 1)) s ts x t ↔ Reads (expressionStmt .standard) s ts x t := by
  conv_lhs => unfold stmtWithin
  rw [reads_current_bind, hf]

/-- A statement that is not a declaration is read. -/
theorem BodyTree.reads (ih : ReadsStmts (stmtWithin .standard n) n) {o : Bool} (d : BodyTree o)
    (hn : s.stream.remaining ≤ n + 1) (hp : s.Past d.tokens t)
    (helse : o = true → t.stream.current.kind ≠ .elseWord) :
    Reads (stmtWithin .standard (n + 1)) s d.tokens d.stmt t := by
  cases d with
  | block l body r =>
    have hk : s.stream.current.kind = .openCurly := by rw [hp.current, l.2]
    rw [reads_stmtWithin_some (f := .block) (by rw [hk]; rfl)]
    exact (block_reads_iff ih hn hk).mpr ⟨⟨l, body, r, rfl, rfl⟩, hp⟩
  | ifOnly kw l c r yes =>
    have hk : s.stream.current.kind = .ifWord := by rw [hp.current, kw.2]
    rw [reads_stmtWithin_some (f := .branch) (by rw [hk]; rfl)]
    exact ifOnly_reads ih hn kw l c r yes hp (helse rfl)
  | ifElse kw l c r yes kw' no =>
    have hk : s.stream.current.kind = .ifWord := by rw [hp.current, kw.2]
    rw [reads_stmtWithin_some (f := .branch) (by rw [hk]; rfl)]
    exact ifElse_reads ih hn kw l c r yes kw' no hp helse
  | whileLoop kw l c r body =>
    have hk : s.stream.current.kind = .whileWord := by rw [hp.current, kw.2]
    rw [reads_stmtWithin_some (f := .whileLoop) (by rw [hk]; rfl)]
    exact (whileLoop_reads_iff ih hn hk).mpr ⟨⟨_, kw, l, c, r, body, rfl, rfl, helse⟩, hp⟩
  | forLoop kw l initial c semi i r body =>
    have hk : s.stream.current.kind = .forWord := by rw [hp.current, kw.2]
    rw [reads_stmtWithin_some (f := .forLoop) (by rw [hk]; rfl)]
    exact (forLoop_reads_iff ih hn hk).mpr
      ⟨⟨_, kw, l, initial, c, semi, i, r, body, rfl, rfl, helse⟩, hp⟩
  | giveBack kw value semi =>
    have hk : s.stream.current.kind = .returnWord := by rw [hp.current, kw.2]
    rw [reads_stmtWithin_some (f := .giveBack) (by rw [hk]; rfl)]
    exact (giveBack_reads_iff hk).mpr ⟨⟨kw, value, semi, rfl, rfl⟩, hp⟩
  | print kw l e r semi =>
    have hk : s.stream.current.kind = .printWord := by rw [hp.current, kw.2]
    rw [reads_stmtWithin_some (f := .print) (by rw [hk]; rfl)]
    exact (print_reads_iff hk).mpr ⟨⟨kw, l, e, r, semi, rfl, rfl⟩, hp⟩
  | expr e semi =>
    obtain ⟨y, ys, f, hy, hf⟩ := e.begins
    have hp' : s.Past (y :: (ys ++ [semi.1])) t := by
      rw [← List.cons_append, ← hy]; exact hp
    rw [reads_stmtWithin_none (by rw [hp'.current]; exact (begins_of_operand hf).1)]
    exact expressionStmt_reads_iff.mpr ⟨⟨e, semi, rfl, rfl⟩, hp⟩

/-- **Within any number of tokens the parser reads exactly the statements that trees derive.** -/
theorem stmtWithin_reads_iff (n : Nat) : ReadsStmts (stmtWithin .standard n) n := by
  induction n with
  | zero =>
    intro s t ts x hn
    constructor
    · intro h
      obtain ⟨⟨e, semi, htok, hstmt⟩, hp⟩ := expressionStmt_reads_iff.mp h
      exact ⟨⟨.body (.expr e semi), htok, hstmt, nofun⟩, hp⟩
    · rintro ⟨⟨d, rfl, rfl, -⟩, hp⟩
      have hpos := d.tokens_pos
      have hrem := hp.remaining
      omega
  | succ n ih =>
    intro s t ts x hn
    constructor
    · intro h
      refine ⟨?_, h.past⟩
      cases hf : Grammar.standard.statement? s.stream.current.kind with
      | none =>
        obtain ⟨⟨e, semi, htok, hstmt⟩, -⟩ :=
          expressionStmt_reads_iff.mp ((reads_stmtWithin_none hf).mp h)
        exact ⟨.body (.expr e semi), htok, hstmt, nofun⟩
      | some form => exact statement_sound ih hn hf ((reads_stmtWithin_some hf).mp h)
    · rintro ⟨⟨d, rfl, rfl, helse⟩, hp⟩
      cases d with
      | body d => exact d.reads ih hn hp helse
      | var v =>
        rw [reads_stmtWithin_some (by rw [hp.current]; exact v.type.declares.2)]
        exact (declarationStmt_reads_iff ih hn).mpr ⟨.inl ⟨v, rfl, rfl⟩, hp⟩
      | function ty name l ps r lb body rb =>
        rw [reads_stmtWithin_some (by rw [hp.current]; exact ty.declares.2)]
        exact (declarationStmt_reads_iff ih hn).mpr
          ⟨.inr ⟨ty, name, l, ps, r, lb, body, rb, rfl, rfl⟩, hp⟩

theorem stmt_reads (n : Nat) : ReadsStmts (Parse.stmt .standard) n := by
  intro s t ts x hn
  unfold Parse.stmt
  rw [reads_remaining_bind]
  exact stmtWithin_reads_iff _ le_rfl

/-- **The program parser reads exactly the tokens that programs derive,** up to the end, as the
program that the derivation stands for. -/
theorem program_reads_iff {p : Program} : Reads (Parse.program .standard) s ts p t ↔
    (∃ d : ProgramTree, d.tokens = ts ∧ d.program = p) ∧ s.Past ts t ∧ t.stream.ahead = [] := by
  have hstops : ∀ k : Kind, (fun _ : Kind => false) k = true → k = .closeCurly := nofun
  unfold Parse.program
  rw [reads_remaining_bind]
  constructor
  · intro h
    have hp := h.past
    obtain ⟨xs, s1, us, vs, rfl, h1, h2⟩ := reads_bind.mp h
    obtain ⟨⟨d, rfl, rfl⟩, -, hends⟩ :=
      (statements_reads_iff hstops (stmt_reads _) _ le_rfl le_rfl).mp h1
    obtain ⟨rfl, rfl, hp'⟩ := reads_pure.mp h2
    obtain ⟨-, rfl⟩ := past_nil.mp hp'
    exact ⟨⟨⟨d⟩, (List.append_nil _).symm, rfl⟩, hp, hends.resolve_right nofun⟩
  · rintro ⟨⟨d, rfl, rfl⟩, hp, hend⟩
    exact ((statements_reads_iff hstops (stmt_reads _) _ le_rfl le_rfl).mpr
      ⟨⟨d.statements, rfl, rfl⟩, hp, .inl hend⟩).bind_pure

end StackListing
