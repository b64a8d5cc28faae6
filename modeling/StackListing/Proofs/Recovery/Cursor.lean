import Mathlib.Data.List.TakeWhile
import StackListing.Proofs.Descent.Equivalence
import StackListing.Proofs.Recovery.Charge
import StackListing.Proofs.Recovery.Unbounded

/-!
# The place of the parser in its tokens

The parser stands at the `k`-th of the tokens it was given, and `k` is at most the number of
significant ones, so that it never gets past the first end marker.  Every part of the parser moves
it forward only (`IsPart.steady`), every attempt at a statement moves it, and in the end it stands
at the marker.  Together with the charge for complaints and the recursions without a bound this is
`parse_progress`.
-/

namespace StackListing

open Parse ParseState

/-- All tokens that the parser gets to see: without newlines, and closed by an end marker. -/
def given (tokens : List Token) : List Token :=
  TokenStream.closed (tokens.filter (·.kind ≠ .newline))

theorem exists_end_closed (tokens : List Token) :
    ∃ t ∈ TokenStream.closed tokens, t.kind = .endOfInput := by
  unfold TokenStream.closed
  cases h : tokens.getLast? with
  | none => exact ⟨_, List.mem_singleton_self _, rfl⟩
  | some t =>
    dsimp only
    split_ifs with hk
    · exact ⟨t, List.mem_of_getLast? h, hk⟩
    · exact ⟨_, List.mem_append_right _ (List.mem_singleton_self _), rfl⟩

/-- What the parser gets to see are the significant tokens, the end marker that closes its stream,
and what was given behind it. -/
theorem given_eq (tokens : List Token) : given tokens = significant tokens ++
    (TokenStream.ofTokens tokens).stop :: (TokenStream.ofTokens tokens).beyond := by
  obtain ⟨x, hx, hkind⟩ := exists_end_closed (tokens.filter (·.kind ≠ .newline))
  have hsplit := List.takeWhile_append_dropWhile
    (p := fun t : Token => decide (t.kind ≠ .endOfInput)) (l := given tokens)
  have hahead : (given tokens).takeWhile (·.kind ≠ .endOfInput) = significant tokens :=
    takeWhile_closed _
  rw [hahead] at hsplit
  rw [← hsplit]
  unfold TokenStream.ofTokens
  dsimp only
  split
  · rename_i stop beyond hdrop
    exact congrArg (significant tokens ++ ·) hdrop
  · rename_i hdrop
    have hnone := List.dropWhile_eq_nil_iff.mp hdrop x hx
    simp [hkind] at hnone

/-! ### Places -/

theorem ofTokens_behind (tokens : List Token) : (TokenStream.ofTokens tokens).behind = [] := by
  unfold TokenStream.ofTokens
  dsimp only
  split <;> rfl

namespace ParseState

variable {tokens : List Token} {k : Nat} {errors : Diagnostics} {t : ParseState}

theorem skip_skip (s : ParseState) (m n : Nat) : (s.skip m).skip n = s.skip (m + n) := by
  simp [skip, List.take_add, List.reverse_append, List.append_assoc]

theorem advance_skip (s : ParseState) (n : Nat) :
    (s.skip n).stream.advance = (s.skip (n + 1)).stream := by
  rw [← skip_skip]
  obtain ⟨⟨b, a, e, z⟩, ds⟩ := s.skip n
  cases a <;> rfl

/-- To stand at the `k`-th token is to have skipped `k` of them. -/
theorem atToken_eq_skip (tokens : List Token) (k : Nat) (errors : Diagnostics) :
    atToken tokens k errors = skip ⟨TokenStream.ofTokens tokens, errors⟩ k := by
  have hstream : ∀ k, TokenStream.advance^[k] (TokenStream.ofTokens tokens) =
      (skip ⟨TokenStream.ofTokens tokens, errors⟩ k).stream := by
    intro k
    induction k with
    | zero => simp [skip]
    | succ k ih => rw [Function.iterate_succ_apply', ih, advance_skip]
  rw [atToken, hstream]
  rfl

theorem atToken_behind (tokens : List Token) (k : Nat) (errors : Diagnostics) :
    (atToken tokens k errors).stream.behind = ((significant tokens).take k).reverse := by
  rw [atToken_eq_skip, skip]
  simp [ofTokens_behind, (ofTokens_spec tokens).1]

theorem atToken_ahead (tokens : List Token) (k : Nat) (errors : Diagnostics) :
    (atToken tokens k errors).stream.ahead = (significant tokens).drop k := by
  rw [atToken_eq_skip, skip, (ofTokens_spec tokens).1]

theorem atToken_remaining (tokens : List Token) (k : Nat) (errors : Diagnostics) :
    (atToken tokens k errors).stream.remaining = (significant tokens).length - k := by
  rw [TokenStream.remaining, atToken_ahead, List.length_drop]

/-- What comes after the `k`-th token is at some later one, before the end marker or at it. -/
theorem Leads.exists_atToken (h : (atToken tokens k errors).Leads t)
    (hk : k ≤ (significant tokens).length) :
    ∃ j ds, k ≤ j ∧ j ≤ (significant tokens).length ∧ t = atToken tokens j (errors ++ ds) := by
  obtain ⟨ts, hahead, hbehind⟩ := h.read
  obtain ⟨ds, hds⟩ := h.errors
  have hpast : Past (atToken tokens k (errors ++ ds)) ts t :=
    ⟨atToken_closed tokens k _, hahead, hbehind, h.stop, h.beyond, hds⟩
  have hrem := hpast.remaining
  rw [atToken_remaining] at hrem
  refine ⟨k + ts.length, ds, Nat.le_add_right _ _, by omega, ?_⟩
  rw [hpast.eq_skip, atToken_eq_skip, atToken_eq_skip, skip_skip]

theorem eq_length_of_ahead (hk : k ≤ (significant tokens).length)
    (h : (atToken tokens k errors).stream.ahead = []) : k = (significant tokens).length := by
  rw [atToken_ahead, List.drop_eq_nil_iff] at h
  exact Nat.le_antisymm hk h

end ParseState

/-! ### The tokens at a place -/

theorem kind_ne_end_of_significant {tokens : List Token} {x : Token}
    (h : x ∈ significant tokens) : x.kind ≠ .endOfInput := by
  simpa using List.mem_takeWhile_imp h

/-- The tokens from the reading place on, with the end marker and what was given behind it. -/
def TokenStream.rest (s : TokenStream) : List Token := s.ahead ++ s.stop :: s.beyond

theorem TokenStream.rest_pos (s : TokenStream) : 0 < s.rest.length := by
  rw [rest, List.length_append, List.length_cons]
  omega

theorem TokenStream.getElem?_current (s : TokenStream) : s.rest[0]? = some s.current := by
  obtain ⟨b, a, e, z⟩ := s
  cases a <;> rfl

/-- Looking further on than there are tokens shows the last one. -/
theorem TokenStream.getElem?_peek (s : TokenStream) (n : Nat) :
    s.rest[min n (s.rest.length - 1)]? = some (s.peek n) := by
  have hpos := s.rest_pos
  show _ = some (s.rest[n]?.getD (s.beyond.getLastD s.stop))
  by_cases hn : n < s.rest.length
  · rw [Nat.min_eq_left (by omega), List.getElem?_eq_getElem hn, Option.getD_some]
  · have hnone : s.rest[n]? = none := List.getElem?_eq_none (by omega)
    rw [Nat.min_eq_right (by omega), hnone, Option.getD_none, ← List.getLast?_eq_getElem?, rest,
      List.getLast?_append, List.getLast?_cons, List.getLastD_eq_getLast?]
    rfl

theorem given_drop (tokens : List Token) {k : Nat} (hk : k ≤ (significant tokens).length)
    (errors : Diagnostics) :
    (given tokens).drop k = (atToken tokens k errors).stream.rest := by
  rw [given_eq, List.drop_append_of_le_length hk, TokenStream.rest, atToken_ahead, atToken_eq_skip]
  rfl

/-- **The parser looks at tokens that are there.**  The current token is the `k`-th one, and it is
an end marker exactly if no significant token is left; tokens further on are looked up among those
that were given, and so is the one before. -/
theorem atToken_looks (tokens : List Token) {k : Nat} (hk : k ≤ (significant tokens).length)
    (errors : Diagnostics) :
    (given tokens)[k]? = some (atToken tokens k errors).stream.current ∧
      ((atToken tokens k errors).stream.current.kind = .endOfInput ↔
        k = (significant tokens).length) ∧
      (∀ n, (given tokens)[min (k + n) ((given tokens).length - 1)]? =
        some ((atToken tokens k errors).stream.peek n)) ∧
      (atToken tokens k errors).stream.previous? = ((given tokens).take k).getLast? := by
  have hdrop := given_drop tokens hk errors
  have hpos := (atToken tokens k errors).stream.rest_pos
  have hlen := congrArg List.length hdrop
  rw [List.length_drop] at hlen
  have hget (n : Nat) : (given tokens)[k + n]? = (atToken tokens k errors).stream.rest[n]? := by
    rw [← hdrop, List.getElem?_drop]
  refine ⟨?_, ⟨fun hend => ?_, fun hend => ?_⟩, fun n => ?_, ?_⟩
  · exact (hget 0).trans (TokenStream.getElem?_current _)
  · -- a significant token that is left would be the current one
    by_contra hne
    have hlt : k < (significant tokens).length := by omega
    rw [TokenStream.current, atToken_ahead, List.drop_eq_getElem_cons hlt, List.headD_cons] at hend
    exact kind_ne_end_of_significant (List.getElem_mem hlt) hend
  · refine current_of_remaining (atToken_closed tokens k errors) ?_
    rw [atToken_remaining]
    omega
  · have hplace : min (k + n) ((given tokens).length - 1) =
        k + min n ((atToken tokens k errors).stream.rest.length - 1) := by omega
    rw [hplace, hget, TokenStream.getElem?_peek]
  · rw [TokenStream.previous?, atToken_behind, List.head?_reverse, given_eq,
      List.take_append_of_le_length hk]

/-! ### The parts of the parser -/

namespace Parse

/-- **The parts of the parser:** its primitive steps and its rules, whatever bound they carry.
Rules over a step for expressions or for statements are parts if the step is one. -/
inductive IsPart : {α : Type} → Parse α → Prop
  | current : IsPart current
  | peek (n : Nat) : IsPart (peek n)
  | remaining : IsPart remaining
  | advance : IsPart advance
  | accept (kind : Kind) : IsPart (accept kind)
  | expect (kind : Kind) (expected : String) : IsPart (expect kind expected)
  | report (d : Diagnostic) : IsPart (report d)
  | synchronize : IsPart synchronize
  | type (cause : String → Cause) : IsPart (type cause)
  | primary : IsPart primary
  | operand {expr : Power → Parse Expr} (form : OperandForm) :
    (∀ m, IsPart (expr m)) → IsPart (operand expr form)
  | operator {expr : Power → Parse Expr} (left : Expr) (power : Power) (form : OperatorForm) :
    (∀ m, IsPart (expr m)) → IsPart (operator expr left power form)
  | arguments {expr : Power → Parse Expr} (n : Nat) :
    (∀ m, IsPart (expr m)) → IsPart (arguments expr n)
  | operators {expr : Power → Parse Expr} (minimum : Power) (n : Nat) (left : Expr) :
    (∀ m, IsPart (expr m)) → IsPart (operators expr .standard minimum n left)
  | exprWithin (n : Nat) (minimum : Power) : IsPart (exprWithin .standard n minimum)
  | expr (minimum : Power) : IsPart (expr .standard minimum)
  | parameter : IsPart parameter
  | parameters (n : Nat) : IsPart (parameters n)
  | exprUnless (kind : Kind) : IsPart (exprUnless .standard kind)
  | expressionStmt : IsPart (expressionStmt .standard)
  | variableDecl : IsPart (variableDecl .standard)
  | forInitial : IsPart (forInitial .standard)
  | recover {stmt : Parse Stmt} : IsPart stmt → IsPart (recover stmt)
  | statements {stmt : Parse Stmt} (stops : Kind → Bool) (n : Nat) :
    IsPart stmt → IsPart (statements stops stmt n)
  | blockBody {stmt : Parse Stmt} : IsPart stmt → IsPart (blockBody stmt)
  | functionDecl {stmt : Parse Stmt} : IsPart stmt → IsPart (functionDecl stmt)
  | bodyStmt {stmt : Parse Stmt} : IsPart stmt → IsPart (bodyStmt .standard stmt)
  | statement {stmt : Parse Stmt} (form : StatementForm) :
    IsPart stmt → IsPart (statement .standard stmt form)
  | stmtWithin (n : Nat) : IsPart (stmtWithin .standard n)
  | stmt : IsPart (stmt .standard)
  | program : IsPart (program .standard)

instance : Steady synchronize := ⟨fun s => .synchronize s⟩

theorem IsPart.steady {α : Type} {p : Parse α} (h : IsPart p) : Steady p := by
  induction h <;> infer_instance

/-- **No bound of the parser is ever reached.**  Expressions and statements are the only solutions
of their recursions without a bound, and every loop runs to an end of its own. -/
structure Unlimited : Prop where
  expr (f : Power → Parse Expr) : Solves exprRule f ↔ ∀ m (s : ParseState),
    s.stream.stop.kind = .endOfInput → f m s = Parse.expr .standard m s
  stmt (f : Parse Stmt) :
    (∀ s : ParseState, s.stream.stop.kind = .endOfInput → f s = stmtRule f s) ↔
      ∀ s : ParseState, s.stream.stop.kind = .endOfInput → f s = Parse.stmt .standard s
  statements (stops : Kind → Bool) :
    Settles (Parse.statements stops (Parse.stmt .standard)) (Ends stops)
  operators (m : Power) (left : Expr) :
    Settles (fun j => Parse.operators (Parse.expr .standard) .standard m j left) (Stops m)
  arguments :
    Settles (Parse.arguments (Parse.expr .standard)) fun t => t.stream.current.kind ≠ .comma
  parameters : Settles Parse.parameters fun t => t.stream.current.kind ≠ .comma

theorem unlimited : Unlimited where
  expr _ := expr_solves_iff
  stmt _ := stmt_solves_iff
  statements _ := settles_statements
  operators := settles_operators
  arguments := settles_arguments _
  parameters := settles_parameters

end Parse

/-! ### Whole runs -/

theorem recover_moves {tokens : List Token} {k : Nat} (step : Parse Stmt) [Steady step]
    [Consuming step] (hk : k < (significant tokens).length) (errors : Diagnostics) :
    ∃ v j ds, k < j ∧ j ≤ (significant tokens).length ∧
      recover step (atToken tokens k errors) = .ok v (atToken tokens j (errors ++ ds)) := by
  have hahead : (atToken tokens k errors).stream.ahead ≠ [] := fun h =>
    hk.ne (eq_length_of_ahead hk.le h)
  obtain ⟨v, t, hv, hlt⟩ := recover_progress step (atToken_closed tokens k errors) hahead
  obtain ⟨j, ds, -, hj, rfl⟩ := (Steady.of_ok hv).exists_atToken hk.le
  rw [atToken_remaining, atToken_remaining] at hlt
  exact ⟨v, j, ds, by omega, hj, hv⟩

theorem program_of_statements {s t : ParseState} {xs : List Stmt}
    (h : statements (fun _ => false) (Parse.stmt .standard) s.stream.remaining s = .ok xs t) :
    Parse.program .standard s = .ok ⟨xs⟩ t := by
  unfold Parse.program
  rw [remaining_bind, bind_apply, h]
  rfl

theorem parse_of_program {tokens : List Token} {p : Program} {t : ParseState}
    (h : Parse.program .standard (atToken tokens 0 []) = .ok p t) :
    parse tokens = ⟨p, t.errors⟩ := by
  unfold parse
  rw [show ParseState.mk (TokenStream.ofTokens tokens) [] = atToken tokens 0 [] from rfl, h]

/-- **The parser of programs succeeds, and it stops at the first end marker.** -/
theorem program_ends (tokens : List Token) : ∃ p, Parse.program .standard (atToken tokens 0 []) =
    .ok p (atToken tokens (significant tokens).length (parse tokens).errors) ∧
      (parse tokens).program = p := by
  have hclosed := atToken_closed tokens 0 []
  obtain ⟨xs, t, hxs⟩ : ∃ xs t, statements (fun _ => false) (Parse.stmt .standard)
      (atToken tokens 0 []).stream.remaining (atToken tokens 0 []) = .ok xs t :=
    exists_statements _ _
  have hends := (settles_statements _ hclosed _ _ le_rfl le_rfl).2 xs t hxs
  obtain ⟨j, ds, -, hj, rfl⟩ := (Steady.of_ok hxs).exists_atToken (Nat.zero_le _)
  obtain rfl := eq_length_of_ahead hj (hends.resolve_right nofun)
  have hrun := program_of_statements hxs
  rw [parse_of_program hrun]
  exact ⟨⟨xs⟩, hrun, rfl⟩

/-- **There are at most as many complaints as significant tokens.** -/
theorem length_errors_le (tokens : List Token) :
    (parse tokens).errors.length ≤ (significant tokens).length := by
  obtain ⟨p, hrun, -⟩ := program_ends tokens
  have hpays := (paying_program .standard).of_ok (atToken_closed tokens 0 []) hrun
  have hle := hpays.le
  have hstart := atToken_remaining tokens 0 []
  have hend := atToken_remaining tokens (significant tokens).length (parse tokens).errors
  unfold budget at hle
  rw [hstart, hend] at hle
  have h0 : (atToken tokens 0 []).errors.length = 0 := rfl
  have h1 : (atToken tokens (significant tokens).length (parse tokens).errors).errors.length =
    (parse tokens).errors.length := rfl
  omega

/-- **Parsing always ends, moves on and does not flood.**  For any tokens, the run ends with a
program, at the first end marker.  Up to there the parser looks at tokens that are there, and none
of its parts goes back or gets past the marker.  Every attempt at a statement before the marker
moves on, whether or not there is one.  There are at most as many complaints as significant tokens.
And no bound that the definitions carry is ever reached. -/
theorem parse_progress (tokens : List Token) :
    (∃ p, Parse.program .standard (atToken tokens 0 []) =
        .ok p (atToken tokens (significant tokens).length (parse tokens).errors) ∧
      (parse tokens).program = p) ∧
    (∀ k ≤ (significant tokens).length, ∀ errors,
      (given tokens)[k]? = some (atToken tokens k errors).stream.current ∧
      ((atToken tokens k errors).stream.current.kind = .endOfInput ↔
        k = (significant tokens).length) ∧
      (∀ n, (given tokens)[min (k + n) ((given tokens).length - 1)]? =
        some ((atToken tokens k errors).stream.peek n)) ∧
      (atToken tokens k errors).stream.previous? = ((given tokens).take k).getLast?) ∧
    (∀ (α : Type) (p : Parse α), IsPart p → ∀ k ≤ (significant tokens).length, ∀ errors,
      ∃ j ds, k ≤ j ∧ j ≤ (significant tokens).length ∧
        final (p (atToken tokens k errors)) = atToken tokens j (errors ++ ds)) ∧
    (∀ step, step = stmt .standard ∨ (∃ n, step = stmtWithin .standard n) →
      ∀ k < (significant tokens).length, ∀ errors, ∃ v j ds,
        k < j ∧ j ≤ (significant tokens).length ∧
          recover step (atToken tokens k errors) = .ok v (atToken tokens j (errors ++ ds))) ∧
    (parse tokens).errors.length ≤ (significant tokens).length ∧
    Unlimited := by
  refine ⟨program_ends tokens, fun k hk errors => atToken_looks tokens hk errors, ?_, ?_,
    length_errors_le tokens, unlimited⟩
  · intro α p hp k hk errors
    exact (hp.steady.leads _).exists_atToken hk
  · rintro step (rfl | ⟨n, rfl⟩) k hk errors
    · exact recover_moves _ hk errors
    · exact recover_moves _ hk errors

end StackListing
