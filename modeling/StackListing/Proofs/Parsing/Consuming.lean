import StackListing.Proofs.Parsing.Agree

/-!
# Steps that read a token

An expression or a statement that was read took at least one token: its step is `Consuming`.  The
property is found for a composed step from its parts: it is enough that one of them reads a token
and that the others are steady.
-/

namespace StackListing

namespace Parse

open ParseState

variable {α β : Type} {s t u : ParseState}

/-- **A consuming step:** where it succeeds, it has read at least one token. -/
class Consuming (p : Parse α) : Prop where
  reads : ∀ {s t : ParseState} {a : α}, s.stream.stop.kind = .endOfInput → p s = .ok a t →
    t.stream.remaining < s.stream.remaining

theorem ok_of_bind {p : Parse α} {f : α → Parse β} {b : β} (h : (p >>= f) s = .ok b u) :
    ∃ a t, p s = .ok a t ∧ f a t = .ok b u := by
  rw [bind_apply] at h
  cases hp : p s with
  | ok a t =>
    rw [hp] at h
    exact ⟨a, t, rfl, h⟩
  | error d t =>
    rw [hp] at h
    cases h

theorem map_of_ok {p : Parse α} {a : α} (f : α → β) (h : p s = .ok a t) :
    (f <$> p) s = .ok (f a) t := by
  show EStateM.map f p s = _
  unfold EStateM.map
  rw [h]

theorem Consuming.bind_left {p : Parse α} {f : α → Parse β} (hp : Consuming p)
    (hf : ∀ a, Steady (f a)) : Consuming (p >>= f) where
  reads hs h := by
    obtain ⟨a, t, h1, h2⟩ := ok_of_bind h
    exact (Steady.of_ok h2).remaining_le.trans_lt (hp.reads hs h1)

theorem Consuming.bind_right {p : Parse α} {f : α → Parse β} (hp : Steady p)
    (hf : ∀ a, Consuming (f a)) : Consuming (p >>= f) where
  reads hs h := by
    obtain ⟨a, t, h1, h2⟩ := ok_of_bind h
    have hlead := Steady.of_ok h1
    exact ((hf a).reads (hlead.closed hs) h2).trans_le hlead.remaining_le

instance (p : Parse α) (f : α → Parse β) [hp : Consuming p] [hf : ∀ a, Steady (f a)] :
    Consuming (p >>= f) := hp.bind_left hf

instance (p : Parse α) (f : α → Parse β) [hp : Steady p] [hf : ∀ a, Consuming (f a)] :
    Consuming (p >>= f) := .bind_right hp hf

instance (c : Prop) [Decidable c] (p q : Parse α) [Consuming p] [Consuming q] :
    Consuming (if c then p else q) := by
  split_ifs <;> infer_instance

instance (d : Diagnostic) : Consuming (throw d : Parse α) := ⟨fun _ h => nomatch h⟩

instance (x : Token) : Consuming (noExpression x : Parse α) := by
  unfold noExpression; infer_instance

theorem consuming_expect {k : Kind} (hk : k ≠ .endOfInput) (expected : String) :
    Consuming (expect k expected) where
  reads {s t a} hs h := by
    unfold expect at h
    rw [current_bind] at h
    split_ifs at h with hc
    · have hrem := remaining_advance hs (hc ▸ hk)
      cases h
      show s.stream.advance.remaining < s.stream.remaining
      omega
    · cases h

instance (expected : String) : Consuming (expect .semicolon expected) :=
  consuming_expect (k := .semicolon) nofun _

instance (expected : String) : Consuming (expect .closeParen expected) :=
  consuming_expect (k := .closeParen) nofun _

instance (expected : String) : Consuming (expect .closeCurly expected) :=
  consuming_expect (k := .closeCurly) nofun _

instance (cause : String → Cause) : Consuming (type cause) where
  reads {s t a} hs h := by
    unfold type at h
    rw [current_bind] at h
    cases hty : s.stream.current.kind.type? with
    | none =>
      rw [hty] at h
      cases h
    | some ty =>
      have hc : s.stream.current.kind ≠ .endOfInput := fun hk => by rw [hk] at hty; cases hty
      rw [hty] at h
      exact remaining_lt_of_advance (fun _ => inferInstance) hs hc h

/-! ### Expressions -/

/-- The end marker is not an operand. -/
instance : Consuming primary where
  reads {s t a} hs h := by
    by_cases hc : s.stream.current.kind = .endOfInput
    · unfold primary at h
      rw [advance_bind] at h
      simp only [hc] at h
      cases h
    · refine remaining_lt_of_advance (fun x => ?_) hs hc h
      split
      · split <;> infer_instance
      · split <;> infer_instance
      all_goals infer_instance

section Rules

variable (expr : Power → Parse Expr) [∀ m, Steady (expr m)] [∀ m, Consuming (expr m)]

instance : Consuming (unary expr) := by
  unfold unary
  refine .bind_right inferInstance fun t => ?_
  split <;> infer_instance

instance : Consuming (grouping expr) := by unfold grouping; infer_instance

instance (form : OperandForm) : Consuming (operand expr form) := by
  cases form <;> unfold operand <;> infer_instance

end Rules

instance consuming_exprWithin (g : Grammar) : ∀ n minimum, Consuming (exprWithin g n minimum)
  | 0, _ => by unfold exprWithin; infer_instance
  | n + 1, minimum => by
    have := consuming_exprWithin g n
    unfold exprWithin
    refine .bind_right inferInstance fun t => ?_
    split <;> infer_instance

instance (g : Grammar) (minimum : Power) : Consuming (expr g minimum) := by
  unfold expr; infer_instance

/-! ### Statements -/

instance : Consuming parameter := by unfold parameter; infer_instance

section Rules

variable (g : Grammar) (stmt : Parse Stmt) [Steady stmt]

instance : Consuming (expressionStmt g) := by unfold expressionStmt; infer_instance

instance : Consuming (variableDecl g) := by unfold variableDecl; infer_instance

instance : Consuming (blockBody stmt) := by unfold blockBody; infer_instance

instance : Consuming (functionDecl stmt) := by
  unfold functionDecl
  refine .bind_left inferInstance fun result => Steady.bind inferInstance fun name => ?_
  refine Steady.bind inferInstance fun _ => Steady.bind inferInstance fun t => ?_
  infer_instance

instance : Consuming (declarationStmt g stmt) := by unfold declarationStmt; infer_instance

instance (form : StatementForm) : Consuming (statement g stmt form) := by
  cases form with
  | declaration => unfold statement; infer_instance
  | branch => unfold statement branch; infer_instance
  | whileLoop => unfold statement whileLoop; infer_instance
  | forLoop => unfold statement forLoop; infer_instance
  | giveBack => unfold statement giveBack; infer_instance
  | print => unfold statement print; infer_instance
  | block => unfold statement block; infer_instance

end Rules

instance consuming_stmtWithin (g : Grammar) : ∀ n, Consuming (stmtWithin g n)
  | 0 => by unfold stmtWithin; infer_instance
  | n + 1 => by
    unfold stmtWithin
    refine .bind_right inferInstance fun t => ?_
    split <;> infer_instance

instance (g : Grammar) : Consuming (stmt g) := by unfold stmt; infer_instance

end Parse

end StackListing
