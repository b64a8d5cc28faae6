import StackListing.Proofs.Grammar.StmtReading
import StackListing.Proofs.Parsing.Consuming

/-!
# Progress

A statement that was read took at least one token.  A statement that was not read is recovered from
by skipping, which takes a token as well, so every attempt at a statement moves on
(`recover_progress`).

The loops of the parser carry a bound on their rounds.  Since every round takes a token, as many
rounds as there are tokens left are enough: a loop `Settles` if any larger bound gives the same run
and the loop ends for a reason of its own.
-/

namespace StackListing

namespace Parse

open ParseState

variable {α β : Type} {s t u : ParseState}

/-! ### Recovery -/

theorem remaining_synchronize {s : TokenStream} (h : s.ahead ≠ []) :
    s.synchronize.remaining < s.remaining := by
  obtain ⟨b, a, e, z⟩ := s
  cases a with
  | nil => exact absurd rfl h
  | cons x xs =>
    obtain ⟨us, hus, -⟩ := seek_spec xs (x :: b)
    have hlen := congrArg List.length hus
    rw [List.length_append] at hlen
    show (TokenStream.seek (x :: b) xs).2.length < xs.length + 1
    omega

/-- Skipping gets past the place before the end where a statement began, even if the statement
failed behind the last token. -/
theorem remaining_synchronize_lt (h : s.Leads t) (hne : s.stream.ahead ≠ []) :
    t.stream.synchronize.remaining < s.stream.remaining := by
  by_cases hend : t.stream.ahead = []
  · have hzero : t.stream.synchronize.remaining = 0 := by
      rw [TokenStream.synchronize_of_ahead hend, TokenStream.remaining, hend, List.length_nil]
    rw [hzero]
    exact List.length_pos_iff.mpr hne
  · exact (remaining_synchronize hend).trans_le h.remaining_le

theorem recover_apply (step : Parse Stmt) (s : ParseState) :
    recover step s = match step s with
      | .ok x t => .ok (some x) t
      | .error d t => .ok none ⟨t.stream.synchronize, t.errors ++ [d]⟩ := rfl

/-- **Every attempt at a statement moves on.**  Before the end it takes at least one token, whether
or not there is a statement to read. -/
theorem recover_progress (step : Parse Stmt) [Steady step] [Consuming step]
    (hs : s.stream.stop.kind = .endOfInput) (hne : s.stream.ahead ≠ []) :
    ∃ v t, recover step s = .ok v t ∧ t.stream.remaining < s.stream.remaining := by
  rw [recover_apply]
  have hlead := Steady.leads (p := step) s
  cases h : step s with
  | ok x t => exact ⟨_, _, rfl, Consuming.reads hs h⟩
  | error d t =>
    rw [h] at hlead
    exact ⟨_, _, rfl, remaining_synchronize_lt hlead hne⟩

/-! ### Loops -/

/-- The loop, begun in `s`, runs to an end of its own, where `done` holds: any two bounds that allow
a round for every token left give the same run. -/
def SettlesFrom (loop : Nat → Parse α) (done : ParseState → Prop) (s : ParseState) : Prop :=
  ∀ j k, s.stream.remaining ≤ j → s.stream.remaining ≤ k →
    loop j s = loop k s ∧ ∀ a t, loop j s = .ok a t → done t

/-- **The loop runs to an end of its own,** wherever it begins. -/
def Settles (loop : Nat → Parse α) (done : ParseState → Prop) : Prop :=
  ∀ s : ParseState, s.stream.stop.kind = .endOfInput → SettlesFrom loop done s

/-- Induction on the tokens left: what holds in a state if it holds in all states with fewer tokens
left holds in every state. -/
theorem remaining_induction {P : ParseState → Prop}
    (h : ∀ s : ParseState, s.stream.stop.kind = .endOfInput →
      (∀ t : ParseState, t.stream.stop.kind = .endOfInput →
        t.stream.remaining < s.stream.remaining → P t) → P s)
    (s : ParseState) (hs : s.stream.stop.kind = .endOfInput) : P s := by
  have hall (n : Nat) : ∀ s : ParseState, s.stream.stop.kind = .endOfInput →
      s.stream.remaining = n → P s := by
    induction n using Nat.strongRecOn with
    | ind n ih => exact fun s hs hn => h s hs fun t ht hlt => ih _ (hn ▸ hlt) t ht rfl
  exact hall _ s hs rfl

theorem SettlesFrom.of_stopped {loop : Nat → Parse α} {done : ParseState → Prop} {a : α}
    (h : ∀ j, loop j s = .ok a s) (hdone : done s) : SettlesFrom loop done s := by
  intro j k hj hk
  refine ⟨(h j).trans (h k).symm, fun b t ht => ?_⟩
  rw [h j] at ht
  cases ht
  exact hdone

/-! #### Statements -/

section Statements

variable {stops : Kind → Bool} {step : Parse Stmt}

theorem statements_stopped (h : Ends stops s) (j : Nat) :
    statements stops step j s = .ok [] s := by
  cases j with
  | zero => rfl
  | succ j =>
    show (if (s.stream.atEnd || stops s.stream.current.kind) = true then _ else _ : Parse _) s = _
    rw [if_pos (ends_iff.mpr h)]
    rfl

/-- A round of the loop is an attempt at a statement, which may add one. -/
theorem statements_round (h : ¬ Ends stops s) (j : Nat) :
    statements stops step (j + 1) s =
      (recover step >>= fun v => (v.toList ++ ·) <$> statements stops step j) s := by
  show (if (s.stream.atEnd || stops s.stream.current.kind) = true then _ else _ : Parse _) s = _
  rw [if_neg (mt ends_iff.mp h)]
  refine bind_congr_of_ok fun v t _ => ?_
  cases v with
  | none =>
    show statements stops step j t = ((fun xs => xs) <$> statements stops step j) t
    rw [id_map']
  | some x => rfl

/-- The loop never fails: it recovers from the failures of statements. -/
theorem exists_statements (j : Nat) (s : ParseState) :
    ∃ xs t, statements stops step j s = .ok xs t := by
  induction j generalizing s with
  | zero => exact ⟨[], s, rfl⟩
  | succ j ih =>
    by_cases hends : Ends stops s
    · exact ⟨[], s, statements_stopped hends _⟩
    · obtain ⟨v, t, hv⟩ : ∃ v t, recover step s = .ok v t := by
        rw [recover_apply]
        cases step s <;> exact ⟨_, _, rfl⟩
      obtain ⟨xs, u, hxs⟩ := ih t
      refine ⟨v.toList ++ xs, u, ?_⟩
      rw [statements_round hends, bind_apply, hv]
      exact map_of_ok _ hxs

variable [Steady step] [Consuming step]

/-- **Statements are read up to their end,** with one attempt at most for each token. -/
theorem settles_statements : Settles (statements stops step) (Ends stops) := by
  refine remaining_induction fun s hs ih => ?_
  by_cases hends : Ends stops s
  · exact .of_stopped (statements_stopped hends) hends
  have hne : s.stream.ahead ≠ [] := fun h => hends (.inl h)
  obtain ⟨v, t, hv, hlt⟩ := recover_progress step hs hne
  have hlead : s.Leads t := Steady.of_ok hv
  have hround (j : Nat) : statements stops step (j + 1) s =
      ((v.toList ++ ·) <$> statements stops step j) t := by
    rw [statements_round hends, bind_apply, hv]
  intro j k hj hk
  obtain ⟨j, rfl⟩ := Nat.exists_eq_add_one_of_ne_zero (show j ≠ 0 by omega)
  obtain ⟨k, rfl⟩ := Nat.exists_eq_add_one_of_ne_zero (show k ≠ 0 by omega)
  obtain ⟨hsame, hdone⟩ := ih t (hlead.closed hs) hlt j k (by omega) (by omega)
  rw [hround, hround]
  refine ⟨?_, fun xs u hu => ?_⟩
  · show EStateM.map _ _ t = EStateM.map _ _ t
    unfold EStateM.map
    rw [hsame]
  · obtain ⟨ys, u', hys, hu'⟩ := ok_of_bind (f := fun ys => pure (v.toList ++ ys)) hu
    cases hu'
    exact hdone ys u hys

end Statements

/-! #### Operators -/

section Operators

variable {expr : Power → Parse Expr} [∀ m, Steady (expr m)]

/-- **Operators are read up to a token that is none,** or that holds too weakly. -/
theorem settles_operators (m : Power) (left : Expr) :
    Settles (fun j => operators expr .standard m j left) (Stops m) := by
  suffices h : ∀ s : ParseState, s.stream.stop.kind = .endOfInput →
      ∀ left, SettlesFrom (fun j => operators expr .standard m j left) (Stops m) s from
    fun s hs => h s hs left
  refine remaining_induction fun s hs ih left => ?_
  by_cases hstop : Stops m s
  · exact .of_stopped (fun j => operators_of_stops hstop) hstop
  obtain ⟨p, f, -, hop, hlt, -⟩ := exists_of_not_stops hs hstop
  have hpos : s.stream.remaining ≠ 0 := fun h => operator_ne_end hop (current_of_remaining hs h)
  intro j k hj hk
  obtain ⟨j, rfl⟩ := Nat.exists_eq_add_one_of_ne_zero (show j ≠ 0 by omega)
  obtain ⟨k, rfl⟩ := Nat.exists_eq_add_one_of_ne_zero (show k ≠ 0 by omega)
  dsimp only
  rw [operators_succ hop hlt, operators_succ hop hlt, bind_apply, bind_apply]
  cases he : operator expr left p f s with
  | error d t => exact ⟨rfl, nofun⟩
  | ok e t =>
    have hrem := remaining_lt_of_operator hs hop he
    exact ih t ((Steady.of_ok he).closed hs) hrem e j k (by omega) (by omega)

end Operators

/-! #### Items between commas -/

theorem accept_bind_of_eq {k : Kind} {f : Bool → Parse β} (hc : s.stream.current.kind = k)
    (hk : k ≠ .endOfInput) : (accept k >>= f) s = f true ⟨s.stream.advance, s.errors⟩ := by
  unfold accept
  rw [bind_assoc, current_bind, if_pos ⟨hc, hk⟩]
  rfl

theorem accept_bind_of_ne {k : Kind} {f : Bool → Parse β} (hc : s.stream.current.kind ≠ k) :
    (accept k >>= f) s = f false s := by
  unfold accept
  rw [bind_assoc, current_bind, if_neg fun h => hc h.1]
  rfl

/-- **Items are read up to one that no comma follows.**  The loop is given by its equations. -/
theorem settles_items {item : Parse α} [Steady item] [Consuming item]
    {loop : Nat → Parse (List α)} (hzero : loop 0 = item >>= fun x => pure [x])
    (hsucc : ∀ n, loop (n + 1) = item >>= fun x => accept .comma >>= fun c =>
      if c then loop n >>= fun xs => pure (x :: xs) else pure [x]) :
    Settles loop fun t => t.stream.current.kind ≠ .comma := by
  refine remaining_induction fun s hs ih => ?_
  cases hitem : item s with
  | error d t =>
    have hfail (j : Nat) : loop j s = .error d t := by
      cases j with
      | zero => rw [hzero, bind_apply, hitem]
      | succ j => rw [hsucc, bind_apply, hitem]
    intro j k hj hk
    rw [hfail, hfail]
    exact ⟨rfl, nofun⟩
  | ok x t =>
    have hlt := Consuming.reads hs hitem
    have hlead : s.Leads t := Steady.of_ok hitem
    intro j k hj hk
    obtain ⟨j, rfl⟩ := Nat.exists_eq_add_one_of_ne_zero (show j ≠ 0 by omega)
    obtain ⟨k, rfl⟩ := Nat.exists_eq_add_one_of_ne_zero (show k ≠ 0 by omega)
    rw [hsucc, hsucc, bind_apply, bind_apply, hitem]
    dsimp only
    by_cases hc : t.stream.current.kind = .comma
    · have hrem := remaining_advance (hlead.closed hs) (by rw [hc]; nofun)
      have hnext : s.Leads ⟨t.stream.advance, t.errors⟩ := hlead.trans (.advance t)
      obtain ⟨hsame, hdone⟩ := ih ⟨t.stream.advance, t.errors⟩ (hnext.closed hs)
        (show t.stream.advance.remaining < _ by omega) j k
        (show t.stream.advance.remaining ≤ _ by omega)
        (show t.stream.advance.remaining ≤ _ by omega)
      rw [accept_bind_of_eq hc nofun, accept_bind_of_eq hc nofun, if_pos rfl, if_pos rfl]
      refine ⟨by rw [bind_apply, bind_apply, hsame], fun xs u hu => ?_⟩
      obtain ⟨ys, u', hys, hu'⟩ := ok_of_bind hu
      cases hu'
      exact hdone ys u hys
    · rw [accept_bind_of_ne hc, accept_bind_of_ne hc]
      refine ⟨rfl, fun xs u hu => ?_⟩
      cases hu
      exact hc

theorem settles_arguments (expr : Power → Parse Expr) [∀ m, Steady (expr m)]
    [∀ m, Consuming (expr m)] :
    Settles (arguments expr) fun t => t.stream.current.kind ≠ .comma :=
  settles_items rfl fun _ => rfl

theorem settles_parameters : Settles parameters fun t => t.stream.current.kind ≠ .comma :=
  settles_items rfl fun _ => rfl

end Parse

end StackListing
