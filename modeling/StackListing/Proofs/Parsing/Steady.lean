import Mathlib.Tactic.Common
import StackListing.Stmt.Parse

/-!
# What a parsing step can do to the state

A parsing step reads tokens off the front of the stream and adds complaints at the end of the list;
it does nothing else to the state, whether it succeeds or fails.  A step with this property is
`Steady`, and every step of the parser is.  Steadiness is a class, so that it is found for a
composed step from its parts.
-/

namespace StackListing

namespace ParseState

/-- **The state `t` comes after `s`:** tokens were read and complaints were added. -/
structure Leads (s t : ParseState) : Prop where
  read : ∃ ts, s.stream.ahead = ts ++ t.stream.ahead ∧
    t.stream.behind = ts.reverse ++ s.stream.behind
  stop : t.stream.stop = s.stream.stop
  beyond : t.stream.beyond = s.stream.beyond
  errors : ∃ ds, t.errors = s.errors ++ ds

theorem Leads.refl (s : ParseState) : Leads s s := ⟨⟨[], by simp⟩, rfl, rfl, ⟨[], by simp⟩⟩

theorem Leads.trans {s t u : ParseState} (h : Leads s t) (h' : Leads t u) : Leads s u := by
  obtain ⟨ts, ha, hb⟩ := h.read
  obtain ⟨us, ha', hb'⟩ := h'.read
  obtain ⟨ds, hd⟩ := h.errors
  obtain ⟨es, he⟩ := h'.errors
  refine ⟨⟨ts ++ us, ?_, ?_⟩, h'.stop.trans h.stop, h'.beyond.trans h.beyond, ⟨ds ++ es, ?_⟩⟩
  · rw [ha, ha', List.append_assoc]
  · rw [hb', hb, List.reverse_append, List.append_assoc]
  · rw [he, hd, List.append_assoc]

theorem Leads.advance (s : ParseState) : Leads s { s with stream := s.stream.advance } := by
  obtain ⟨⟨behind, ahead, stop, beyond⟩, errors⟩ := s
  cases ahead with
  | nil => exact .refl _
  | cons t ts => exact ⟨⟨[t], by simp⟩, rfl, rfl, ⟨[], by simp⟩⟩

theorem Leads.report (s : ParseState) (d : Diagnostic) :
    Leads s { s with errors := s.errors ++ [d] } :=
  ⟨⟨[], by simp⟩, rfl, rfl, ⟨[d], rfl⟩⟩

/-- The search for a boundary moves tokens, in order, from ahead to behind. -/
theorem seek_spec : ∀ (ts behind : List Token), ∃ us,
    ts = us ++ (TokenStream.seek behind ts).2 ∧
      (TokenStream.seek behind ts).1 = us.reverse ++ behind
  | [], behind => ⟨[], by simp [TokenStream.seek]⟩
  | t :: ts, behind => by
    unfold TokenStream.seek
    split_ifs
    · exact ⟨[], by simp⟩
    · obtain ⟨us, h, h'⟩ := seek_spec ts (t :: behind)
      refine ⟨t :: us, ?_, ?_⟩
      · rw [List.cons_append, ← h]
      · rw [h']; simp

theorem Leads.synchronize (s : ParseState) :
    Leads s { s with stream := s.stream.synchronize } := by
  obtain ⟨⟨behind, ahead, stop, beyond⟩, errors⟩ := s
  cases ahead with
  | nil => exact .refl _
  | cons t ts =>
    obtain ⟨us, h, h'⟩ := seek_spec ts (t :: behind)
    refine ⟨⟨t :: us, ?_, ?_⟩, rfl, rfl, ⟨[], by simp⟩⟩
    · show t :: ts = t :: us ++ (TokenStream.seek (t :: behind) ts).2
      rw [List.cons_append, ← h]
    · show (TokenStream.seek (t :: behind) ts).1 = _
      rw [h']; simp

end ParseState

namespace Parse

/-- The state in which a step ends. -/
def final {α : Type} : EStateM.Result Diagnostic ParseState α → ParseState
  | .ok _ t => t
  | .error _ t => t

/-- **A steady step:** wherever it begins, it only reads tokens and adds complaints. -/
class Steady {α : Type} (p : Parse α) : Prop where
  leads : ∀ s : ParseState, s.Leads (final (p s))

variable {α β : Type}

theorem Steady.of_ok {p : Parse α} [Steady p] {s t : ParseState} {a : α} (h : p s = .ok a t) :
    s.Leads t := by
  have := Steady.leads (p := p) s
  rwa [h] at this

/-! ### Composed steps -/

instance (a : α) : Steady (pure a : Parse α) := ⟨fun s => .refl s⟩

instance (d : Diagnostic) : Steady (throw d : Parse α) := ⟨fun s => .refl s⟩

theorem bind_apply (p : Parse α) (f : α → Parse β) (s : ParseState) :
    (p >>= f) s = match p s with
      | .ok a t => f a t
      | .error d t => .error d t := by
  cases h : p s <;> simp [bind, EStateM.bind, h]

theorem Steady.bind {p : Parse α} {f : α → Parse β} (hp : Steady p) (hf : ∀ a, Steady (f a)) :
    Steady (p >>= f) where
  leads s := by
    have hs := hp.leads s
    rw [bind_apply]
    cases h : p s with
    | ok a t =>
      rw [h] at hs
      exact hs.trans ((hf a).leads t)
    | error d t =>
      rw [h] at hs
      exact hs

instance (p : Parse α) (f : α → Parse β) [hp : Steady p] [hf : ∀ a, Steady (f a)] :
    Steady (p >>= f) := hp.bind hf

instance (f : α → β) (p : Parse α) [Steady p] : Steady (f <$> p) :=
  inferInstanceAs (Steady (p >>= fun a => pure (f a)))

instance (c : Prop) [Decidable c] (p q : Parse α) [Steady p] [Steady q] :
    Steady (if c then p else q) := by
  split_ifs <;> infer_instance

/-! ### The primitive steps -/

instance : Steady (get : Parse ParseState) := ⟨fun s => .refl s⟩

instance : Steady current := inferInstanceAs (Steady (get >>= fun s => pure s.stream.current))

instance (n : Nat) : Steady (peek n) :=
  inferInstanceAs (Steady (get >>= fun s => pure (s.stream.peek n)))

instance : Steady remaining := inferInstanceAs (Steady (get >>= fun s => pure s.stream.remaining))

instance : Steady advance := ⟨fun s => .advance s⟩

instance (kind : Kind) : Steady (accept kind) := by unfold accept; infer_instance

instance (kind : Kind) (expected : String) : Steady (expect kind expected) := by
  unfold expect; infer_instance

instance (d : Diagnostic) : Steady (report d) := ⟨fun s => .report s d⟩

instance (t : Token) : Steady (noExpression t : Parse α) := by
  unfold noExpression; infer_instance

instance (cause : String → Cause) : Steady (type cause) := by
  unfold type
  refine Steady.bind inferInstance fun t => ?_
  split <;> infer_instance

/-! ### Expressions -/

instance : Steady primary := by
  unfold primary
  refine Steady.bind inferInstance fun t => ?_
  split
  · split <;> infer_instance
  · split <;> infer_instance
  all_goals infer_instance

section Rules

variable (expr : Power → Parse Expr) [∀ m, Steady (expr m)]

instance : Steady (unary expr) := by
  unfold unary
  refine Steady.bind inferInstance fun t => ?_
  split <;> infer_instance

instance : Steady (grouping expr) := by unfold grouping; infer_instance

instance (left : Expr) (power : Power) : Steady (binary expr left power) := by
  unfold binary
  refine Steady.bind inferInstance fun t => ?_
  split <;> infer_instance

instance (left : Expr) : Steady (assignment expr left) := by
  unfold assignment
  refine Steady.bind inferInstance fun t => Steady.bind inferInstance fun v => ?_
  split <;> infer_instance

instance steady_arguments : ∀ n, Steady (arguments expr n)
  | 0 => by unfold arguments; infer_instance
  | n + 1 => by
    have := steady_arguments n
    unfold arguments
    infer_instance

instance (callee : Expr) : Steady (call expr callee) := by unfold call; infer_instance

instance (form : OperandForm) : Steady (operand expr form) := by
  cases form <;> unfold operand <;> infer_instance

instance (left : Expr) (power : Power) (form : OperatorForm) :
    Steady (operator expr left power form) := by
  cases form <;> unfold operator <;> infer_instance

instance steady_operators (g : Grammar) (minimum : Power) :
    ∀ n left, Steady (operators expr g minimum n left)
  | 0, left => by unfold operators; infer_instance
  | n + 1, left => by
    have := steady_operators g minimum n
    unfold operators
    refine Steady.bind inferInstance fun t => ?_
    split <;> infer_instance

end Rules

instance steady_exprWithin (g : Grammar) : ∀ n minimum, Steady (exprWithin g n minimum)
  | 0, _ => by unfold exprWithin; infer_instance
  | n + 1, minimum => by
    have := steady_exprWithin g n
    unfold exprWithin
    refine Steady.bind inferInstance fun t => ?_
    split <;> infer_instance

instance (g : Grammar) (minimum : Power) : Steady (expr g minimum) := by
  unfold expr; infer_instance

/-! ### Statements -/

instance (stmt : Parse Stmt) [Steady stmt] : Steady (recover stmt) where
  leads s := by
    have hs := Steady.leads (p := stmt) s
    unfold recover
    cases h : stmt s with
    | ok x t =>
      rw [h] at hs
      exact hs
    | error d t =>
      rw [h] at hs
      exact hs.trans ((ParseState.Leads.synchronize t).trans (.report _ d))

instance steady_statements (stops : Kind → Bool) (stmt : Parse Stmt) [Steady stmt] :
    ∀ n, Steady (statements stops stmt n)
  | 0 => by unfold statements; infer_instance
  | n + 1 => by
    have := steady_statements stops stmt n
    unfold statements
    refine Steady.bind inferInstance fun s => Steady.bind inferInstance fun t => ?_
    split_ifs
    · infer_instance
    · refine Steady.bind inferInstance fun x => ?_
      split <;> infer_instance

instance : Steady parameter := by unfold parameter; infer_instance

instance steady_parameters : ∀ n, Steady (parameters n)
  | 0 => by unfold parameters; infer_instance
  | n + 1 => by
    have := steady_parameters n
    unfold parameters
    infer_instance

section Rules

variable (g : Grammar)

instance (kind : Kind) : Steady (exprUnless g kind) := by unfold exprUnless; infer_instance

instance : Steady (expressionStmt g) := by unfold expressionStmt; infer_instance

instance : Steady (variableDecl g) := by unfold variableDecl; infer_instance

instance : Steady (giveBack g) := by unfold giveBack; infer_instance

instance : Steady (print g) := by unfold print; infer_instance

instance : Steady (forInitial g) := by unfold forInitial; infer_instance

variable (stmt : Parse Stmt) [Steady stmt]

instance : Steady (blockBody stmt) := by unfold blockBody; infer_instance

instance : Steady (block stmt) := by unfold block; infer_instance

instance : Steady (functionDecl stmt) := by
  unfold functionDecl
  refine Steady.bind inferInstance fun result => Steady.bind inferInstance fun name => ?_
  refine Steady.bind inferInstance fun _ => Steady.bind inferInstance fun t => ?_
  infer_instance

instance : Steady (declarationStmt g stmt) := by unfold declarationStmt; infer_instance

instance : Steady (bodyStmt g stmt) := by unfold bodyStmt; infer_instance

instance : Steady (branch g stmt) := by
  unfold branch
  refine Steady.bind inferInstance fun t => Steady.bind inferInstance fun _ => ?_
  infer_instance

instance : Steady (whileLoop g stmt) := by unfold whileLoop; infer_instance

instance : Steady (forLoop g stmt) := by unfold forLoop; infer_instance

instance (form : StatementForm) : Steady (statement g stmt form) := by
  cases form <;> unfold statement <;> infer_instance

end Rules

instance steady_stmtWithin (g : Grammar) : ∀ n, Steady (stmtWithin g n)
  | 0 => by unfold stmtWithin; infer_instance
  | n + 1 => by
    have := steady_stmtWithin g n
    unfold stmtWithin
    refine Steady.bind inferInstance fun t => ?_
    split <;> infer_instance

instance (g : Grammar) : Steady (stmt g) := by unfold stmt; infer_instance

instance (g : Grammar) : Steady (program g) := by unfold program; infer_instance

end Parse

end StackListing
