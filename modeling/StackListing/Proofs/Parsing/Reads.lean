import StackListing.Proofs.Parsing.Steady

/-!
# Reading without complaint

`Reads p s ts a t` says that the step `p`, begun in the state `s`, succeeds with `a` in the state
`t`, that the tokens it read are `ts`, and that it reported nothing.  For steady steps this is
compositional: a sequence reads what its parts read, one after the other (`reads_bind`).  The stream
is closed by an end marker throughout, so a step that looks for any other kind of token does not
take the marker for one.
-/

namespace StackListing

namespace ParseState

/-- **The state `t` is `s` behind the tokens `ts`,** and nothing was reported on the way. -/
structure Past (s : ParseState) (ts : List Token) (t : ParseState) : Prop where
  closed : s.stream.stop.kind = .endOfInput
  ahead : s.stream.ahead = ts ++ t.stream.ahead
  behind : t.stream.behind = ts.reverse ++ s.stream.behind
  stop : t.stream.stop = s.stream.stop
  beyond : t.stream.beyond = s.stream.beyond
  errors : t.errors = s.errors

/-- The state behind the first `n` tokens. -/
def skip (s : ParseState) (n : Nat) : ParseState :=
  { s with stream := { s.stream with
      behind := (s.stream.ahead.take n).reverse ++ s.stream.behind
      ahead := s.stream.ahead.drop n } }

variable {s t u : ParseState} {ts us vs : List Token} {x : Token}

theorem Past.closed_right (h : Past s ts t) : t.stream.stop.kind = .endOfInput := by
  rw [h.stop]; exact h.closed

theorem Past.eq_skip (h : Past s ts t) : t = s.skip ts.length := by
  obtain ⟨⟨b, a, e, z⟩, ds⟩ := s
  obtain ⟨⟨b', a', e', z'⟩, ds'⟩ := t
  obtain ⟨-, ha, hb, he, hz, hd⟩ := h
  simp only at ha hb he hz hd
  subst ha hb he hz hd
  simp [skip]

theorem past_skip (hs : s.stream.stop.kind = .endOfInput) (h : ts <+: s.stream.ahead) :
    Past s ts (s.skip ts.length) := by
  obtain ⟨rest, h⟩ := h
  refine ⟨hs, ?_, ?_, rfl, rfl, rfl⟩ <;> simp [skip, ← h]

theorem past_iff : Past s ts t ↔
    s.stream.stop.kind = .endOfInput ∧ ts <+: s.stream.ahead ∧ t = s.skip ts.length := by
  constructor
  · exact fun h => ⟨h.closed, ⟨_, h.ahead.symm⟩, h.eq_skip⟩
  · rintro ⟨hs, h, rfl⟩
    exact past_skip hs h

theorem Past.unique (h : Past s ts t) (h' : Past s ts u) : t = u :=
  h.eq_skip.trans h'.eq_skip.symm

theorem past_nil : Past s [] t ↔ s.stream.stop.kind = .endOfInput ∧ t = s := by
  rw [past_iff]
  simp [skip]

theorem Past.trans (h : Past s us t) (h' : Past t vs u) : Past s (us ++ vs) u where
  closed := h.closed
  ahead := by rw [h.ahead, h'.ahead, List.append_assoc]
  behind := by rw [h'.behind, h.behind, List.reverse_append, List.append_assoc]
  stop := h'.stop.trans h.stop
  beyond := h'.beyond.trans h.beyond
  errors := h'.errors.trans h.errors

theorem past_append : Past s (us ++ vs) u ↔ ∃ t, Past s us t ∧ Past t vs u := by
  constructor
  · intro h
    have ha := h.ahead
    rw [List.append_assoc] at ha
    refine ⟨s.skip us.length, past_skip h.closed ⟨_, ha.symm⟩, h.closed, ?_, ?_, h.stop, h.beyond,
      h.errors⟩
    · simp [skip, ha]
    · simp [skip, ha, h.behind]
  · rintro ⟨t, h, h'⟩
    exact h.trans h'

theorem past_cons : Past s (x :: ts) u ↔ ∃ t, Past s [x] t ∧ Past t ts u := by
  rw [← List.singleton_append, past_append]

theorem Past.current (h : Past s (x :: ts) t) : s.stream.current = x := by
  simp [TokenStream.current, h.ahead]

theorem Past.peek (h : Past s ts t) {n : Nat} (hx : ts[n]? = some x) : s.stream.peek n = x := by
  have hn : n < ts.length := (List.getElem?_eq_some_iff.mp hx).1
  rw [TokenStream.peek, h.ahead, List.append_assoc, List.getElem?_append_left hn, hx,
    Option.getD_some]

theorem Past.remaining (h : Past s ts t) :
    s.stream.remaining = ts.length + t.stream.remaining := by
  simp [TokenStream.remaining, h.ahead]

theorem Past.remaining_one (h : Past s [x] t) :
    s.stream.remaining = t.stream.remaining + 1 := by
  rw [h.remaining, List.length_singleton, Nat.add_comm]

theorem Past.here (h : Past s ts t) : Past t [] t := past_nil.mpr ⟨h.closed_right, rfl⟩

/-- A token of any kind but the end marker's can be read. -/
theorem past_current (hs : s.stream.stop.kind = .endOfInput)
    (h : s.stream.current.kind ≠ .endOfInput) : Past s [s.stream.current] (s.skip 1) := by
  refine past_skip hs ?_
  obtain ⟨⟨b, a, e, z⟩, ds⟩ := s
  cases a with
  | nil => exact absurd hs h
  | cons x xs => exact ⟨xs, rfl⟩

theorem Leads.past (h : Leads s t) (hs : s.stream.stop.kind = .endOfInput)
    (hd : t.errors = s.errors) : ∃ ts, Past s ts t := by
  obtain ⟨ts, ha, hb⟩ := h.read
  exact ⟨ts, hs, ha, hb, h.stop, h.beyond, hd⟩

end ParseState

namespace Parse

open ParseState

variable {α β : Type}

/-- **The step `p` reads `ts` as `a`:** it leads from `s` to `t` and reports nothing. -/
structure Reads (p : Parse α) (s : ParseState) (ts : List Token) (a : α) (t : ParseState) :
    Prop where
  run : p s = .ok a t
  past : s.Past ts t

variable {s t u : ParseState} {ts us vs : List Token} {a : α} {b : β}

theorem Reads.unique {p : Parse α} {a' : α} (h : Reads p s ts a t) (h' : Reads p s us a' u) :
    a = a' ∧ ts = us ∧ t = u := by
  have he := h.run.symm.trans h'.run
  injection he with ha ht
  subst ha ht
  refine ⟨rfl, ?_, rfl⟩
  have := h.past.ahead.symm.trans h'.past.ahead
  exact List.append_cancel_right this

theorem Reads.bind {p : Parse α} {f : α → Parse β} (h : Reads p s us a t)
    (h' : Reads (f a) t vs b u) : Reads (p >>= f) s (us ++ vs) b u := by
  refine ⟨?_, h.past.trans h'.past⟩
  rw [bind_apply, h.run]
  exact h'.run

/-- Complaints are never taken back, so a sequence that reports nothing consists of parts that
report nothing. -/
theorem Reads.of_bind {p : Parse α} {f : α → Parse β} [Steady p] (hf : ∀ a, Steady (f a))
    (h : Reads (p >>= f) s ts b u) :
    ∃ a t us vs, ts = us ++ vs ∧ Reads p s us a t ∧ Reads (f a) t vs b u := by
  obtain ⟨hr, hp⟩ := h
  rw [bind_apply] at hr
  cases h : p s with
  | error d t => simp [h] at hr
  | ok a t =>
    simp only [h] at hr
    have h1 := Steady.of_ok h
    have h2 := Steady.of_ok hr
    obtain ⟨ds, hd⟩ := h1.errors
    obtain ⟨es, he⟩ := h2.errors
    have hnil : ds ++ es = [] := by
      have := hp.errors
      rw [he, hd, List.append_assoc] at this
      exact List.append_right_eq_self.mp this
    obtain ⟨hds, hes⟩ := List.append_eq_nil_iff.mp hnil
    obtain ⟨us, hus⟩ := h1.past hp.closed (by rw [hd, hds, List.append_nil])
    obtain ⟨vs, hvs⟩ := h2.past hus.closed_right (by rw [he, hes, List.append_nil])
    have hts : ts = us ++ vs :=
      List.append_cancel_right (hp.ahead.symm.trans (hus.trans hvs).ahead)
    exact ⟨a, t, us, vs, hts, ⟨h, hus⟩, ⟨hr, hvs⟩⟩

/-- **A sequence reads what its parts read.** -/
theorem reads_bind {p : Parse α} {f : α → Parse β} [Steady p] [∀ a, Steady (f a)] :
    Reads (p >>= f) s ts b u ↔
      ∃ a t us vs, ts = us ++ vs ∧ Reads p s us a t ∧ Reads (f a) t vs b u := by
  constructor
  · exact Reads.of_bind inferInstance
  · rintro ⟨a, t, us, vs, rfl, h, h'⟩
    exact h.bind h'

theorem reads_map {f : α → β} {p : Parse α} :
    Reads (f <$> p) s ts b t ↔ ∃ a, f a = b ∧ Reads p s ts a t := by
  constructor
  · rintro ⟨hr, hp⟩
    cases h : p s with
    | error d t => simp [Functor.map, EStateM.map, h] at hr
    | ok a t' =>
      simp only [Functor.map, EStateM.map, h, EStateM.Result.ok.injEq] at hr
      obtain ⟨ha, rfl⟩ := hr
      exact ⟨a, ha, h, hp⟩
  · rintro ⟨a, rfl, hr, hp⟩
    exact ⟨by simp only [Functor.map, EStateM.map, hr], hp⟩

theorem reads_ite {c : Prop} [Decidable c] {p q : Parse α} :
    Reads (if c then p else q) s ts a t ↔ c ∧ Reads p s ts a t ∨ ¬ c ∧ Reads q s ts a t := by
  split_ifs with h <;> simp [h]

/-! ### Steps that read nothing -/

theorem reads_pure {a' : α} :
    Reads (pure a' : Parse α) s ts a t ↔ a' = a ∧ ts = [] ∧ s.Past [] t := by
  constructor
  · rintro ⟨hr, hp⟩
    injection hr with ha ht
    subst ha ht
    have hts : ts = [] := List.append_left_eq_self.mp hp.ahead.symm
    exact ⟨rfl, hts, hts ▸ hp⟩
  · rintro ⟨rfl, rfl, hp⟩
    exact ⟨by rw [(past_nil.mp hp).2]; rfl, hp⟩

theorem Reads.bind_pure {p : Parse α} {f : α → β} (h : Reads p s ts a t) :
    Reads (p >>= fun a => pure (f a)) s ts (f a) t := by
  have := h.bind (f := fun a => pure (f a)) (reads_pure.mpr ⟨rfl, rfl, h.past.here⟩)
  rwa [List.append_nil] at this

theorem reads_throw {d : Diagnostic} : ¬ Reads (throw d : Parse α) s ts a t := fun h => by
  injection h.run

theorem reads_noExpression {x : Token} : ¬ Reads (noExpression x : Parse α) s ts a t :=
  reads_throw

theorem reads_report {d : Diagnostic} {a : Unit} : ¬ Reads (report d) s ts a t := by
  rintro ⟨hr, hp⟩
  injection hr with _ ht
  subst ht
  have := hp.errors
  simp at this

theorem reads_get_bind {f : ParseState → Parse β} :
    Reads (get >>= f) s ts b u ↔ Reads (f s) s ts b u :=
  ⟨fun h => ⟨h.run, h.past⟩, fun h => ⟨h.run, h.past⟩⟩

theorem reads_current_bind {f : Token → Parse β} :
    Reads (current >>= f) s ts b u ↔ Reads (f s.stream.current) s ts b u :=
  ⟨fun h => ⟨h.run, h.past⟩, fun h => ⟨h.run, h.past⟩⟩

theorem reads_peek_bind {n : Nat} {f : Token → Parse β} :
    Reads (peek n >>= f) s ts b u ↔ Reads (f (s.stream.peek n)) s ts b u :=
  ⟨fun h => ⟨h.run, h.past⟩, fun h => ⟨h.run, h.past⟩⟩

theorem reads_remaining_bind {f : Nat → Parse β} :
    Reads (remaining >>= f) s ts b u ↔ Reads (f s.stream.remaining) s ts b u :=
  ⟨fun h => ⟨h.run, h.past⟩, fun h => ⟨h.run, h.past⟩⟩

theorem reads_pure_bind {a : α} {f : α → Parse β} :
    Reads (pure a >>= f) s ts b u ↔ Reads (f a) s ts b u :=
  ⟨fun h => ⟨h.run, h.past⟩, fun h => ⟨h.run, h.past⟩⟩

/-! ### Steps that read one token -/

section Token

variable {k : Kind} {x : Token} {c : Bool} {ty : ValueType}

theorem past_advance (h : s.Past [x] t) : { s with stream := s.stream.advance } = t := by
  rw [h.eq_skip]
  simp [skip, TokenStream.advance, h.ahead]

theorem Past.reads_advance (h : s.Past [x] t) : Reads advance s [x] x t := by
  refine ⟨?_, h⟩
  show EStateM.Result.ok s.stream.current { s with stream := s.stream.advance } = _
  rw [h.current, past_advance h]

theorem reads_advance (hx : s.stream.current.kind ≠ .endOfInput) :
    Reads advance s ts x t ↔ ts = [x] ∧ s.Past [x] t := by
  constructor
  · intro h
    obtain ⟨rfl, rfl, rfl⟩ := (Past.reads_advance (past_current h.past.closed hx)).unique h
    exact ⟨rfl, h.past⟩
  · rintro ⟨rfl, h⟩
    exact Past.reads_advance h

theorem reads_expect {expected : String} (hk : k ≠ .endOfInput) :
    Reads (expect k expected) s ts x t ↔ x.kind = k ∧ ts = [x] ∧ s.Past [x] t := by
  unfold expect
  rw [reads_current_bind, reads_ite]
  constructor
  · rintro (⟨hc, h⟩ | ⟨-, h⟩)
    · obtain ⟨rfl, hp⟩ := (reads_advance (hc ▸ hk)).mp h
      exact ⟨hp.current ▸ hc, rfl, hp⟩
    · exact absurd h reads_throw
  · rintro ⟨hx, rfl, hp⟩
    exact .inl ⟨hp.current.symm ▸ hx, Past.reads_advance hp⟩

theorem reads_accept (hk : k ≠ .endOfInput) :
    Reads (accept k) s ts c t ↔ (c = true ∧ ∃ x, x.kind = k ∧ ts = [x] ∧ s.Past [x] t) ∨
      (c = false ∧ s.stream.current.kind ≠ k ∧ ts = [] ∧ s.Past [] t) := by
  unfold accept
  rw [reads_current_bind, reads_ite]
  constructor
  · rintro (⟨⟨hc, -⟩, h⟩ | ⟨hc, h⟩)
    · obtain ⟨x, t', us, vs, rfl, h1, h2⟩ := reads_bind.mp h
      obtain ⟨rfl, hp⟩ := (reads_advance (hc ▸ hk)).mp h1
      obtain ⟨rfl, rfl, hp'⟩ := reads_pure.mp h2
      obtain ⟨-, rfl⟩ := past_nil.mp hp'
      exact .inl ⟨rfl, x, hp.current ▸ hc, rfl, hp⟩
    · obtain ⟨rfl, rfl, hp⟩ := reads_pure.mp h
      exact .inr ⟨rfl, fun h => hc ⟨h, hk⟩, rfl, hp⟩
  · rintro (⟨rfl, x, hx, rfl, hp⟩ | ⟨rfl, hc, rfl, hp⟩)
    · exact .inl ⟨⟨hp.current.symm ▸ hx, hk⟩, (Past.reads_advance hp).bind_pure⟩
    · exact .inr ⟨fun h => hc h.1, reads_pure.mpr ⟨rfl, rfl, hp⟩⟩

/-- A token of the kind that is asked for is read. -/
theorem Reads.accept_bind {f : Bool → Parse β} (w : { x : Token // x.kind = k })
    (hk : k ≠ .endOfInput) (hp : s.Past [w.1] t) (h : Reads (f true) t ts b u) :
    Reads (accept k >>= f) s (w.1 :: ts) b u :=
  ((reads_accept hk).mpr (.inl ⟨rfl, w.1, w.2, rfl, hp⟩)).bind h

/-- A token of another kind is left in place. -/
theorem Reads.reject_bind {f : Bool → Parse β} (hk : k ≠ .endOfInput)
    (hc : s.stream.current.kind ≠ k) (h : Reads (f false) s ts b u) :
    Reads (accept k >>= f) s ts b u :=
  ((reads_accept hk).mpr (.inr ⟨rfl, hc, rfl, past_nil.mpr ⟨h.past.closed, rfl⟩⟩)).bind h

theorem Reads.bind_reject {p : Parse α} {f : α → Bool → Parse β} (h : Reads p s ts a t)
    (hk : k ≠ .endOfInput) (hc : t.stream.current.kind ≠ k) (h' : Reads (f a false) t [] b u) :
    Reads (p >>= fun a => accept k >>= f a) s ts b u := by
  have := h.bind (f := fun a => accept k >>= f a) (Reads.reject_bind hk hc h')
  rwa [List.append_nil] at this

theorem Reads.expect_bind {f : Token → Parse β} {expected : String}
    (w : { x : Token // x.kind = k }) (hk : k ≠ .endOfInput) (hp : s.Past [w.1] t)
    (h : Reads (f w.1) t ts b u) : Reads (expect k expected >>= f) s (w.1 :: ts) b u :=
  ((reads_expect hk).mpr ⟨w.2, rfl, hp⟩).bind h

theorem Reads.advance_bind {f : Token → Parse β} (hp : s.Past [x] t) (h : Reads (f x) t ts b u) :
    Reads (advance >>= f) s (x :: ts) b u :=
  (Past.reads_advance hp).bind h

theorem Reads.of_advance {f : Token → Parse β} (hx : s.stream.current.kind ≠ .endOfInput)
    (hf : ∀ x, Steady (f x)) (h : Reads (advance >>= f) s ts b u) :
    ∃ x t vs, ts = x :: vs ∧ x = s.stream.current ∧ s.Past [x] t ∧ Reads (f x) t vs b u := by
  obtain ⟨x, t, us, vs, rfl, h1, h2⟩ := h.of_bind hf
  obtain ⟨rfl, hp⟩ := (reads_advance hx).mp h1
  exact ⟨x, t, vs, rfl, hp.current.symm, hp, h2⟩

theorem Reads.of_expect {f : Token → Parse β} {expected : String} (hk : k ≠ .endOfInput)
    (hf : ∀ x, Steady (f x)) (h : Reads (expect k expected >>= f) s ts b u) :
    ∃ (w : { x : Token // x.kind = k }) (t : ParseState) (vs : List Token),
      ts = w.1 :: vs ∧ s.Past [w.1] t ∧ Reads (f w.1) t vs b u := by
  obtain ⟨x, t, us, vs, rfl, h1, h2⟩ := h.of_bind hf
  obtain ⟨hx, rfl, hp⟩ := (reads_expect hk).mp h1
  exact ⟨⟨x, hx⟩, t, vs, rfl, hp, h2⟩

theorem Reads.of_accept {f : Bool → Parse β} (hk : k ≠ .endOfInput) (hf : ∀ c, Steady (f c))
    (h : Reads (accept k >>= f) s ts b u) :
    (∃ (w : { x : Token // x.kind = k }) (t : ParseState) (vs : List Token),
      ts = w.1 :: vs ∧ s.Past [w.1] t ∧ Reads (f true) t vs b u) ∨
    (s.stream.current.kind ≠ k ∧ Reads (f false) s ts b u) := by
  obtain ⟨c, t, us, vs, rfl, h1, h2⟩ := h.of_bind hf
  obtain ⟨rfl, x, hx, rfl, hp⟩ | ⟨rfl, hc, rfl, hp⟩ := (reads_accept hk).mp h1
  · exact .inl ⟨⟨x, hx⟩, t, vs, rfl, hp, h2⟩
  · obtain ⟨-, rfl⟩ := past_nil.mp hp
    exact .inr ⟨hc, h2⟩

theorem reads_type {cause : String → Cause} :
    Reads (type cause) s ts ty t ↔
      ∃ x, x.kind.type? = some ty ∧ ts = [x] ∧ s.Past [x] t := by
  unfold type
  rw [reads_current_bind]
  constructor
  · intro h
    split at h
    · rename_i ty' hty
      have hx : s.stream.current.kind ≠ .endOfInput := by
        intro he
        rw [he] at hty
        simp [Kind.type?] at hty
      obtain ⟨x, t', us, vs, rfl, h1, h2⟩ := reads_bind.mp h
      obtain ⟨rfl, hp⟩ := (reads_advance hx).mp h1
      obtain ⟨rfl, rfl, hp'⟩ := reads_pure.mp h2
      obtain ⟨-, rfl⟩ := past_nil.mp hp'
      exact ⟨x, hp.current ▸ hty, rfl, hp⟩
    · exact absurd h reads_throw
  · rintro ⟨x, hx, rfl, hp⟩
    simp only [hp.current, hx]
    exact (Past.reads_advance hp).bind_pure

end Token

end Parse

end StackListing
